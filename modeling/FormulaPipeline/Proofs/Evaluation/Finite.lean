import FormulaPipeline.Evaluation.Trace
import FormulaPipeline.Proofs.Value.Finite

/-!
# Results without infinite numbers

Operators refuse results that are not finite. Of the builtin functions all but totals and roundings
give finite results for finite arguments.
-/

namespace FormulaPipeline

/-- A result, if there is one, has a property. -/
def Gives {α : Type} (P : α → Prop) (x : Except EvalError α) : Prop := ∀ a, x = .ok a → P a

namespace Gives

variable {α β : Type} {P : α → Prop} {Q : β → Prop} {x : Except EvalError α}

theorem of_ok {a : α} (h : P a) : Gives P (.ok a) := by
  intro b hb
  obtain rfl := Except.ok.inj hb
  exact h

theorem of_error (e : EvalError) : Gives P (.error e) := by
  intro a ha
  cases ha

theorem bind (h : Gives P x) {f : α → Except EvalError β} (hf : ∀ a, P a → Gives Q (f a)) :
    Gives Q (x >>= f) := by
  cases x with
  | error e => exact of_error e
  | ok a => exact hf a (h a rfl)

theorem map (h : Gives P x) {f : α → β} (hf : ∀ a, P a → Q (f a)) : Gives Q (x.map f) := by
  cases x with
  | error e => exact of_error e
  | ok a => exact of_ok (hf a (h a rfl))

theorem ite {c : Prop} [Decidable c] {y : Except EvalError α} (hx : Gives P x) (hy : Gives P y) :
    Gives P (if c then x else y) := by
  split
  · exact hx
  · exact hy

theorem trivial (x : Except EvalError α) : Gives (fun _ => True) x := fun _ _ => True.intro

end Gives

namespace Outcome

/-- Every float in the result, if there is one, is finite. -/
def Finite (o : Outcome) : Prop := Gives (fun v => v.allFinite = true) o

theorem finite_iff {o : Outcome} : o.Finite ↔ (Outcome.value o).allFinite = true := by
  cases o with
  | error e => exact iff_of_true (Gives.of_error e) rfl
  | ok v => exact ⟨fun h => h v rfl, fun h => Gives.of_ok h⟩

end Outcome

open Outcome (Finite)

/-! ## Steps on values -/

theorem Condition.allFinite_filter (c : Condition) {v : Value} (h : v.allFinite = true) :
    (c.filter v).allFinite = true := by
  unfold filter
  split
  · rfl
  · exact Value.allFinite_array.2 fun item hitem =>
      Value.allFinite_array.1 h item (List.mem_of_mem_filter hitem)
  · split
    · exact h
    · rfl

namespace Context

theorem finite_readRecord {c : Context}
    (hrecord : ∀ r, c.record = some r → r.toValue.allFinite = true) (name : String) :
    Finite (c.readRecord name) := by
  unfold readRecord
  split
  · exact Gives.of_error _
  · rename_i record hc
    have hfields := Value.allFinite_record.1 (hrecord record hc)
    have hget : ∀ {name v}, record.get? name = some v → v.allFinite = true := fun h =>
      Value.allFinite_of_find? hfields h
    split
    · rename_i v hv
      apply Gives.of_ok
      -- the value is stored under the name, or under what a declared field pairs with it
      rcases Option.or_eq_some_iff.1 hv with hname | ⟨-, hv⟩
      · exact hget hname
      · rcases Option.or_eq_some_iff.1 hv with hid | ⟨-, hid⟩
        · obtain ⟨field, -, hfield⟩ := Option.bind_eq_some_iff.1 hid
          exact hget hfield
        · obtain ⟨field, -, hfield⟩ := Option.bind_eq_some_iff.1 hid
          exact hget hfield
    · exact Gives.of_error _

theorem finite_designate {c : Context}
    (hrecord : ∀ r, c.record = some r → r.toValue.allFinite = true) (property : String) {v : Value}
    (hv : v.allFinite = true) : Finite (c.designate property v) := by
  unfold designate
  split
  · apply Gives.of_ok
    apply Value.allFinite_array.2
    intro w hw
    obtain ⟨item, hitem, rfl⟩ := List.mem_map.1 hw
    exact Value.allFinite_fieldD (Value.allFinite_array.1 hv item hitem) property
  · exact .ite (Gives.of_ok (Value.allFinite_fieldD hv property))
      (finite_readRecord hrecord property)

end Context

/-! ## Operators -/

namespace Arithmetic

theorem finite_apply (k : Layers) (op : BinaryOp) (a b : Numeric) : Finite (k.apply op a b) := by
  unfold Layers.apply
  split
  · rename_i r hr
    apply Gives.of_ok
    rcases Option.or_eq_some_iff.1 hr with hwhole | ⟨-, hdecimal⟩
    · unfold Layers.whole? at hwhole
      split at hwhole
      · obtain ⟨n, -, rfl⟩ := Option.map_eq_some_iff.1 hwhole
        rfl
      · cases hwhole
    · unfold Layers.decimal? at hdecimal
      split at hdecimal
      · obtain ⟨d, -, rfl⟩ := Option.map_eq_some_iff.1 hdecimal
        exact Numeric.allFinite_ofDecimal d
      · cases hdecimal
  · simp only
    split
    · rename_i hfinite
      exact Gives.of_ok hfinite
    · exact Gives.of_error _

theorem finite_power (base exponent : Numeric) : Finite (power base exponent) := by
  simp only [power]
  split
  · exact Gives.of_ok rfl
  · split
    · rename_i hfinite
      exact Gives.of_ok hfinite
    · exact Gives.of_error _

theorem finite_compute (k : Layers) (op : BinaryOp) (left right : Value) :
    Finite (compute k op left right) :=
  (Gives.trivial _).bind fun _ _ => finite_apply k op _ _

theorem finite_computeNonzero (k : Layers) (op : BinaryOp) (left right : Value) :
    Finite (computeNonzero k op left right) := by
  refine (Gives.trivial (operands op left right)).bind fun operands _ => ?_
  dsimp only
  split
  · exact Gives.of_error _
  · exact finite_apply k op _ _

end Arithmetic

open Arithmetic in
/-- An operator never gives an infinite number, whatever its operands. -/
theorem BinaryOp.finite_apply (op : BinaryOp) (left right : Value) :
    Finite (op.apply left right) := by
  cases op with
  | add => exact .ite (Gives.of_ok rfl) (finite_compute _ _ _ _)
  | subtract | multiply => exact finite_compute _ _ _ _
  | divide | modulo => exact finite_computeNonzero _ _ _ _
  | power => exact (Gives.trivial _).bind fun _ _ => finite_power _ _
  | equal | notEqual | less | greater | lessEqual | greaterEqual => exact Gives.of_ok rfl

/-! ## Builtin functions -/

namespace Argument

theorem allFinite_nth {args : List Value} (h : ∀ a ∈ args, a.allFinite = true) (i : Nat) :
    (nth args i).allFinite = true := by
  rw [nth, List.getD_eq_getElem?_getD]
  exact Value.allFinite_getD fun v hv => h v (List.mem_of_getElem? hv)

mutual

theorem allFinite_flatten : ∀ {args : List Value}, (∀ a ∈ args, a.allFinite = true) →
    ∀ v ∈ flatten args, v.allFinite = true
  | [], _, _, hv => by cases hv
  | a :: rest, h, v, hv => by
    rw [flatten] at hv
    rcases List.mem_append.1 hv with hv | hv
    · exact allFinite_flattenOne (h a List.mem_cons_self) v hv
    · exact allFinite_flatten (fun b hb => h b (List.mem_cons_of_mem _ hb)) v hv

theorem allFinite_flattenOne : ∀ {a : Value}, a.allFinite = true →
    ∀ v ∈ flattenOne a, v.allFinite = true
  | .array items, h, v, hv => allFinite_flatten (Value.allFinite_array.1 h) v hv
  | .null, h, v, hv | .bool _, h, v, hv | .int _, h, v, hv | .float _, h, v, hv
  | .text _, h, v, hv | .object _, h, v, hv | .record .., h, v, hv => by
    obtain rfl := List.mem_singleton.1 hv
    exact h

end

theorem gives_number (args : List Value) (i : Nat) (function : String) :
    Gives (fun x => x.isFinite = true) (number args i function) := by
  unfold number
  split
  · exact Gives.of_ok rfl
  · split
    · rename_i x hx
      exact Gives.of_ok (Value.isFinite_toNumber? hx)
    · exact Gives.of_error _

end Argument

namespace Builtin

open Argument

/-- A function that gives finite results for finite arguments. -/
def KeepsFinite (f : Builtin) : Prop :=
  ∀ args context, (∀ a ∈ args, a.allFinite = true) → Finite (f args context)

theorem keepsFinite_plain {f : List Value → Outcome}
    (h : ∀ args, (∀ a ∈ args, a.allFinite = true) → Finite (f args)) : (plain f).KeepsFinite :=
  fun args _ hargs => h args hargs

theorem keepsFinite_value {f : List Value → Value}
    (h : ∀ args, (∀ a ∈ args, a.allFinite = true) → (f args).allFinite = true) :
    (plain fun args => .ok (f args)).KeepsFinite :=
  fun args _ hargs => Gives.of_ok (h args hargs)

theorem finite_ofNumber (args : List Value) (i : Nat) (function : String)
    {f : Binary64 → Except EvalError Value} (hf : ∀ x, x.isFinite = true → Finite (f x)) :
    Finite (number args i function >>= f) :=
  (gives_number args i function).bind hf

theorem finite_magnitude (args : List Value) : Finite (magnitude args) := by
  unfold magnitude
  split
  · split
    · exact Gives.of_ok rfl
    · rename_i n _ _ _
      apply Gives.of_ok
      exact Binary64.isFinite_abs (Numeric.isFinite_toFloat (n := .int n) rfl)
  · rename_i x hx
    apply Gives.of_ok
    exact Binary64.isFinite_abs (Value.allFinite_toNumeric? hx)
  · refine finite_ofNumber _ _ _ fun x hx => Gives.of_ok ?_
    exact Numeric.allFinite_ofFloat (Binary64.isFinite_abs hx)

theorem finite_squareRoot (args : List Value) : Finite (squareRoot args) := by
  refine finite_ofNumber _ _ _ fun x hx => ?_
  dsimp only
  split
  · exact Gives.of_error _
  · rename_i hsign
    rw [Bool.not_eq_true] at hsign
    exact Gives.of_ok (Numeric.allFinite_ofFloat (Binary64.isFinite_sqrt hx hsign))

theorem finite_power (args : List Value) : Finite (power args) :=
  (Gives.trivial _).bind fun _ _ => (Gives.trivial _).bind fun _ _ => Arithmetic.finite_power _ _

theorem finite_choose {args : List Value} (h : ∀ a ∈ args, a.allFinite = true) :
    Finite (choose args) := by
  refine .ite (Gives.of_error _) (Gives.of_ok ?_)
  split <;> exact allFinite_nth h _

theorem allFinite_select (subject : Value) (cases : List Value)
    (h : ∀ a ∈ cases, a.allFinite = true) : (select subject cases).allFinite = true := by
  induction cases using select.induct subject with
  | case1 => rfl
  | case2 default => exact h default List.mem_cons_self
  | case3 candidate result rest hmatch =>
    rw [select, if_pos hmatch]
    exact h result (List.mem_cons_of_mem _ List.mem_cons_self)
  | case4 candidate result rest hmatch ih =>
    rw [select, if_neg hmatch]
    exact ih fun a ha => h a (List.mem_cons_of_mem _ (List.mem_cons_of_mem _ ha))

theorem mem_of_mem_distinct {seen values : List Value} {v : Value}
    (h : v ∈ distinct seen values) : v ∈ values := by
  induction values generalizing seen with
  | nil => exact h
  | cons first rest ih =>
    rw [distinct] at h
    split at h
    · exact List.mem_cons_of_mem _ (ih h)
    · rcases List.mem_cons.1 h with rfl | h
      · exact List.mem_cons_self
      · exact List.mem_cons_of_mem _ (ih h)

theorem keepsFinite_ofDate {f : DateTime → Value} (hf : ∀ t, (f t).allFinite = true) :
    (plain (ofDate f)).KeepsFinite := by
  refine keepsFinite_plain fun args _ => ?_
  unfold ofDate
  split
  · exact Gives.of_ok rfl
  · exact (Gives.trivial _).map fun t _ => hf t

/-- The functions that do not look whether their results are finite. -/
def unchecked : List String := ["SUM", "AVERAGE", "AVG", "ROUND"]

theorem catalog_keepsFinite :
    ∀ entry ∈ catalog, entry.1 ∉ unchecked → KeepsFinite entry.2 := by
  have hleft : (plain left).KeepsFinite := keepsFinite_plain fun args _ =>
    (Gives.trivial _).bind fun _ _ => Gives.of_ok rfl
  have hright : (plain right).KeepsFinite := keepsFinite_plain fun args _ =>
    (Gives.trivial _).bind fun _ _ => Gives.of_ok rfl
  have hmiddle : (plain middle).KeepsFinite := keepsFinite_plain fun args _ =>
    (Gives.trivial _).bind fun _ _ => (Gives.trivial _).bind fun _ _ => Gives.of_ok rfl
  have hlength : (plain length).KeepsFinite := keepsFinite_plain fun args _ => by
    unfold length
    split <;> exact Gives.of_ok rfl
  have hfloor : (plain floor).KeepsFinite := keepsFinite_plain fun args _ =>
    finite_ofNumber _ _ _ fun x hx =>
      Gives.of_ok (Numeric.allFinite_ofFloat (Binary64.isFinite_floor hx))
  have hceiling : (plain ceiling).KeepsFinite := keepsFinite_plain fun args _ =>
    finite_ofNumber _ _ _ fun x hx =>
      Gives.of_ok (Numeric.allFinite_ofFloat (Binary64.isFinite_ceil hx))
  have hswitch : (plain switch).KeepsFinite := keepsFinite_plain fun args hargs => by
    cases args with
    | nil => exact Gives.of_ok rfl
    | cons subject rest =>
      exact Gives.of_ok (allFinite_select subject rest fun a ha =>
        hargs a (List.mem_cons_of_mem _ ha))
  have hunique : (plain unique).KeepsFinite := keepsFinite_value fun args hargs =>
    Value.allFinite_array.2 fun v hv => allFinite_flatten hargs v (mem_of_mem_distinct hv)
  have hcompact : (plain compact).KeepsFinite := keepsFinite_value fun args hargs =>
    Value.allFinite_array.2 fun v hv => allFinite_flatten hargs v (List.mem_of_mem_filter hv)
  have hcoalesce : (plain coalesce).KeepsFinite := keepsFinite_value fun args hargs =>
    Value.allFinite_getD fun v hv => hargs v (List.mem_of_find?_eq_some hv)
  have hgreatest : (plain greatest).KeepsFinite := keepsFinite_value fun _ _ =>
    Reduction.allFinite_best
  have hleast : (plain least).KeepsFinite := keepsFinite_value fun _ _ =>
    Reduction.allFinite_best
  have hparseDate : (plain parseDate).KeepsFinite := keepsFinite_value fun args hargs =>
    allFinite_nth hargs 0
  have hformatDate : (plain formatDate).KeepsFinite := fun args context hargs =>
    keepsFinite_ofDate (fun _ => rfl) args context hargs
  have hfail : (plain fail).KeepsFinite := keepsFinite_plain fun args _ => Gives.of_error _
  have hid : ∀ id, (idValue id).allFinite = true := fun id => by cases id <;> rfl
  have hrecordId : KeepsFinite recordId := fun args context _ => by
    unfold recordId
    split <;> exact Gives.of_ok (hid _)
  have hnow : KeepsFinite now := fun args context _ => Gives.of_ok rfl
  have htoday : KeepsFinite today := fun args context _ => Gives.of_ok rfl
  have htext : ∀ f : List Char → List Char, (plain (mapText f)).KeepsFinite := fun f =>
    keepsFinite_value fun _ _ => rfl
  have hdate : ∀ f : DateTime → Int,
      (plain (ofDate fun t => .int (Int64.ofInt (f t)))).KeepsFinite :=
    fun f => keepsFinite_ofDate fun _ => rfl
  have hconcatenate : (plain concatenate).KeepsFinite := keepsFinite_value fun _ _ => rfl
  have hcount : (plain numberCount).KeepsFinite := keepsFinite_value fun _ _ => rfl
  have hconjunction : (plain conjunction).KeepsFinite := keepsFinite_value fun _ _ => rfl
  have hdisjunction : (plain disjunction).KeepsFinite := keepsFinite_value fun _ _ => rfl
  have hnegation : (plain negation).KeepsFinite := keepsFinite_value fun _ _ => rfl
  have hjoin : (plain join).KeepsFinite := keepsFinite_value fun _ _ => rfl
  have hblank : (plain blank).KeepsFinite := keepsFinite_value fun _ _ => rfl
  have hmagnitude : (plain magnitude).KeepsFinite := keepsFinite_plain fun args _ =>
    finite_magnitude args
  have hsquareRoot : (plain squareRoot).KeepsFinite := keepsFinite_plain fun args _ =>
    finite_squareRoot args
  have hpower : (plain power).KeepsFinite := keepsFinite_plain fun args _ => finite_power args
  have hchoose : (plain choose).KeepsFinite := keepsFinite_plain fun _ => finite_choose
  simp [catalog, unchecked, hleft, hright, hmiddle, hlength, hfloor, hceiling, hswitch, hunique,
    hcompact, hcoalesce, hgreatest, hleast, hparseDate, hformatDate, hfail, hrecordId, hnow, htoday,
    htext, hdate, hconcatenate, hcount, hconjunction, hdisjunction, hnegation, hjoin, hblank,
    hmagnitude, hsquareRoot, hpower, hchoose, lower, upper, trim, year, month, day]

/-- Whether a function is one of those that do not look at their results. -/
def isUnchecked (name : String) : Bool := unchecked.contains (Text.asciiUpper name)

theorem ofName?_keepsFinite {name : String} {f : Builtin} (h : ofName? name = some f)
    (hname : isUnchecked name = false) : f.KeepsFinite := by
  apply catalog_keepsFinite _ (mem_catalog_of_ofName? h)
  simpa [isUnchecked] using hname

end Builtin

end FormulaPipeline
