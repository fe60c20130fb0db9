import FormulaPipeline.Calculator
import FormulaPipeline.Proofs.Evaluation.Folding

/-!
# The case of words is of no account

Two formulas that differ in the case of words that count in any case are refused at the same place,
or they compile, read the same names and promise the same type. Evaluated by themselves or as nodes,
with any functions of the host, they give the same values and the same errors; the error for an
unknown function names it as the formula spells it.
-/

namespace FormulaPipeline

namespace Graph

variable {g g' : Graph} (h : g'.folded = g.folded)
include h

theorem affected_folded : g'.affected = g.affected := by
  have hnodes : g'.folded.dependents = g.folded.dependents := by rw [h]
  have hsize : g'.size = g.size := by
    rw [← size_mapNodes g' fun _ node => node.folded, ← size_mapNodes g fun _ node => node.folded]
    exact congrArg size h
  have hdependents (g : Graph) : g.folded.dependents = g.dependents := by
    funext id
    simp only [dependents, folded, mapNodes, List.filter_map, List.map_map]
    rfl
  funext id
  rw [hdependents, hdependents] at hnodes
  rw [affected, affected, hnodes, hsize]

theorem markDirty_folded (id : String) : (g'.markDirty id).folded = (g.markDirty id).folded := by
  have hmark (g : Graph) : (g.markDirty id).folded = g.folded.mapNodes fun x node =>
      if (g.affected id).contains x then { node with dirty := true } else node := by
    rw [folded, markDirty, folded, mapNodes_mapNodes, mapNodes_mapNodes]
    refine mapNodes_congr fun x node => ?_
    split <;> rfl
  rw [hmark, hmark, h, affected_folded h]

omit h in
theorem put_folded {d d' : NodeDefinition} {id : String}
    (hd : (Node.ofDefinition id d').folded = (Node.ofDefinition id d).folded) :
    (g.put id d').folded = (g.put id d).folded := by
  refine eq_of_find? (fun x => ?_) rfl
  rw [folded, folded, find?_mapNodes, find?_mapNodes, find?_put, find?_put]
  split
  · rw [Option.map_some, Option.map_some, hd]
  · rfl

end Graph

namespace Calculator

/-- The calculator with the names of functions in upper case in all of its nodes. -/
def folded (c : Calculator) : Calculator := { c with memory := c.memory.folded }

variable {c c' : Calculator} {p p' : Pipeline}

/-- Calculators that differ in the spelling of functions evaluate alike. -/
theorem evaluate_folded (h : c'.folded = c.folded) (context : Context) (id : String) :
    (c'.evaluate context id).1.folded = (c.evaluate context id).1.folded := by
  have hconfig : c'.config = c.config := congrArg (fun c => c.config) h
  have hstart : (Session.start c'.memory).folded = (Session.start c.memory).folded := by
    change Session.start c'.folded.memory = Session.start c.folded.memory
    rw [h]
  have hnode := Environment.node_folded ⟨c.config, context⟩ c.config.maxDepth [] id hstart
  simp only [evaluate, evaluateNode]
  rw [hconfig]
  exact (Environment.foldedEvaluation_iff.1 hnode).1

theorem runPipeline_folded (hp : Step.foldedSteps p' = Step.foldedSteps p) (c : Calculator)
    (context : Context) :
    (c.runPipeline context p').1.folded = (c.runPipeline context p).1.folded := by
  let env : Environment := ⟨c.config, context⟩
  have hrun := env.runTraced_congr env.folds_visitTop hp context.value
    (s := Session.start c.memory) rfl
  simp only [runPipeline, evaluatePipeline]
  generalize Environment.runTraced _ _ p' _ _ = y at hrun ⊢
  generalize Environment.runTraced _ _ p _ _ = x at hrun ⊢
  obtain ⟨outcome, steps, last⟩ := x
  obtain ⟨outcome', steps', last'⟩ := y
  simp only [Environment.foldedRun, Prod.mk.injEq] at hrun
  obtain ⟨houtcome, hsteps, hlast⟩ := hrun
  have hwarnings : last'.warnings = last.warnings := congrArg (fun s => s.warnings) hlast
  simp only [Evaluation.folded, houtcome, hsteps, hwarnings]

theorem defineFormula_eq {text : String} (h : Pipeline.ofFormula text = .ok p) (c : Calculator)
    (id : String) :
    c.defineFormula id text = match c.graph.cycle? id p.dependencies with
      | some cycle => .error (.cyclic cycle)
      | none => .ok (c.withGraph ((c.graph.put id
          { NodeDefinition.ofPipeline p with formula := some text }).markDirty id)) := by
  have hcomplete : NodeDefinition.complete { formula := some text } =
      .ok { NodeDefinition.ofPipeline p with formula := some text } := by
    rw [NodeDefinition.complete]
    dsimp only
    rw [h]
    rfl
  rw [defineFormula, define, hcomplete]
  dsimp only
  rw [Graph.define_eq]
  dsimp only [NodeDefinition.ofPipeline]
  cases c.graph.cycle? id p.dependencies <;> rfl

/-- A formula with words in another case is refused for the same cycle, or it becomes a node that
differs in the spelling of functions. -/
theorem defineFormula_folded {text text' : String} (hp : Step.foldedSteps p' = Step.foldedSteps p)
    (htext : Pipeline.ofFormula text = .ok p) (htext' : Pipeline.ofFormula text' = .ok p')
    (c : Calculator) (id : String) :
    (∃ e, c.defineFormula id text = .error e ∧ c.defineFormula id text' = .error e) ∨
      ∃ d d', c.defineFormula id text = .ok d ∧ c.defineFormula id text' = .ok d' ∧
        d'.folded = d.folded := by
  have hdependencies : p'.dependencies = p.dependencies := Pipeline.dependencies_congr hp
  have htype : p'.returnType = p.returnType := Pipeline.returnType_congr hp
  have hnode : (Node.ofDefinition id
        { NodeDefinition.ofPipeline p' with formula := some text' }).folded =
      (Node.ofDefinition id { NodeDefinition.ofPipeline p with formula := some text }).folded := by
    simp only [Node.ofDefinition, Node.folded, NodeDefinition.ofPipeline, hp, hdependencies, htype]
  rw [defineFormula_eq htext, defineFormula_eq htext', hdependencies]
  cases c.graph.cycle? id p.dependencies with
  | some cycle => exact .inl ⟨_, rfl, rfl⟩
  | none =>
    have hput : (c.graph.put id _).folded = (c.graph.put id _).folded := Graph.put_folded hnode
    have hgraph := Graph.markDirty_folded hput id
    refine .inr ⟨_, _, rfl, rfl, ?_⟩
    exact congrArg (fun g => { c with memory := { c.memory with graph := g } }) hgraph

end Calculator

/-! ## Formulas -/

/-- The same value or the same error, except that a function that is not known may be named in
another case. -/
def Outcome.SameButSpelling (x y : Outcome) : Prop :=
  y = x ∨ ∃ a b, Text.asciiUpper b = Text.asciiUpper a ∧
    x = .error (.unknownFunction a) ∧ y = .error (.unknownFunction b)

theorem EvalError.eq_or_unknownFunction {e e' : EvalError} (h : e'.folded = e.folded) :
    e' = e ∨ ∃ a b, Text.asciiUpper b = Text.asciiUpper a ∧
      e = .unknownFunction a ∧ e' = .unknownFunction b := by
  have hplain {e : EvalError} (he : ∀ a, e ≠ .unknownFunction a) : e.folded = e :=
    folded.eq_2 e fun a ha => he a ha
  by_cases he : ∃ a, e = .unknownFunction a
  · obtain ⟨a, rfl⟩ := he
    by_cases he' : ∃ b, e' = .unknownFunction b
    · obtain ⟨b, rfl⟩ := he'
      exact .inr ⟨a, b, EvalError.unknownFunction.inj h, rfl, rfl⟩
    · rw [hplain (not_exists.1 he')] at h
      exact (he' ⟨_, h⟩).elim
  · rw [hplain (not_exists.1 he)] at h
    by_cases he' : ∃ b, e' = .unknownFunction b
    · obtain ⟨b, rfl⟩ := he'
      exact (he ⟨_, h.symm⟩).elim
    · exact .inl (hplain (not_exists.1 he') ▸ h)

theorem sameButSpelling_of_folded {x y : Evaluation} (h : y.folded = x.folded) :
    x.outcome.SameButSpelling y.outcome := by
  have houtcome : foldedResult y.outcome = foldedResult x.outcome := congrArg (fun e => e.outcome) h
  obtain ⟨v, hx, hy⟩ | ⟨e, e', hx, hy⟩ := foldedResult_cases houtcome
  · exact .inl (hy.trans hx.symm)
  · rw [hx, hy] at houtcome ⊢
    obtain rfl | ⟨a, b, hname, rfl, rfl⟩ :=
      EvalError.eq_or_unknownFunction (Except.error.inj houtcome)
    · exact .inl rfl
    · exact .inr ⟨a, b, hname, rfl, rfl⟩

namespace Formula

/-- Changes of case in literals, in operators of filters and in the names of functions, methods and
aggregations are not noticed. Both formulas are refused at the same place, or both compile, with the
same names read and the same type. Any calculator then evaluates them to the same value or error, by
themselves and as the formula of a node, and there it also refuses both or neither, and any other
node comes out the same. -/
theorem recased_alike {text text' : String} (h : Recased text text') :
    (∃ e e', Pipeline.ofFormula text = .error e ∧ Pipeline.ofFormula text' = .error e' ∧
      e'.position = e.position) ∨
    ∃ p p', Pipeline.ofFormula text = .ok p ∧ Pipeline.ofFormula text' = .ok p' ∧
      p'.dependencies = p.dependencies ∧ p'.returnType = p.returnType ∧
      ∀ c : Calculator,
        (∀ context, (c.evaluateFormula context text).1.outcome.SameButSpelling
          (c.evaluateFormula context text').1.outcome) ∧
        ∀ id, (∃ e, c.defineFormula id text = .error e ∧ c.defineFormula id text' = .error e) ∨
          ∃ d d', c.defineFormula id text = .ok d ∧ c.defineFormula id text' = .ok d' ∧
            ∀ context x, (d.evaluate context x).1.outcome.SameButSpelling
              (d'.evaluate context x).1.outcome := by
  have hmatching := Pipeline.ofFormula_recased h
  generalize htext : Pipeline.ofFormula text = result at hmatching
  generalize htext' : Pipeline.ofFormula text' = result' at hmatching
  cases hmatching with
  | @fault e e' hposition => exact .inl ⟨e, e', rfl, rfl, hposition⟩
  | @done p p' hp =>
    refine .inr ⟨p, p', rfl, rfl, ?_, ?_, fun c => ⟨fun context => ?_, fun id => ?_⟩⟩
    · exact Pipeline.dependencies_congr hp
    · exact Pipeline.returnType_congr hp
    · simp only [Calculator.evaluateFormula, htext, htext']
      exact sameButSpelling_of_folded (Calculator.runPipeline_folded hp c context)
    · obtain hrefused | ⟨d, d', hd, hd', hfolded⟩ :=
        Calculator.defineFormula_folded hp htext htext' c id
      · exact .inl hrefused
      · exact .inr ⟨d, d', hd, hd', fun context x =>
          sameButSpelling_of_folded (Calculator.evaluate_folded hfolded context x)⟩

/-- A literal, an operator, an aggregation, a method between braces and two functions in another
case, one of which is not known. -/
theorem recased_alike_of_unknown_function :
    let text := "Nope(TRUE, Len({a}.{Trim}()), #rows[Name contains \"a\"].sum(Price))"
    let text' := "nope(True, LEN({a}.{trim}()), #rows[Name Contains \"a\"].SUM(Price))"
    Recased text text' ∧
      ∃ p p', Pipeline.ofFormula text = .ok p ∧ Pipeline.ofFormula text' = .ok p' ∧
        p'.dependencies = p.dependencies ∧ p'.returnType = p.returnType ∧
        ∀ (c : Calculator) context, (c.evaluateFormula context text).1.outcome.SameButSpelling
          (c.evaluateFormula context text').1.outcome := by
  intro text text'
  have hrecased : Recased text text' := by decide +kernel
  have hcompiles : (Pipeline.ofFormula text).isOk = true := by decide +kernel
  obtain ⟨e, -, htext, -⟩ | ⟨p, p', htext, htext', hdependencies, htype, hevaluate⟩ :=
    recased_alike hrecased
  · rw [htext] at hcompiles
    cases hcompiles
  · exact ⟨hrecased, p, p', htext, htext', hdependencies, htype, fun c => (hevaluate c).1⟩

end Formula

end FormulaPipeline
