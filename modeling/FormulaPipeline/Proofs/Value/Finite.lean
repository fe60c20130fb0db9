import FormulaPipeline.Evaluation.Arithmetic
import FormulaPipeline.Evaluation.Reduction
import FormulaPipeline.Proofs.Keyed
import FormulaPipeline.Proofs.Number.Magnitude
import FormulaPipeline.Source.RecordSet

/-!
# Values without infinite numbers

A value is finite throughout when every float in it is, at any depth. What is taken out of such a
value is finite throughout, and so is every number that is read off a value at all.
-/

namespace FormulaPipeline

namespace Value

mutual

/-- Whether every float in a value is finite. -/
def allFinite : Value → Bool
  | .float x => x.isFinite
  | .array items => allFiniteItems items
  | .object members => allFiniteMembers members
  | .record _ fields => allFiniteMembers fields
  | _ => true

def allFiniteItems : List Value → Bool
  | [] => true
  | v :: rest => allFinite v && allFiniteItems rest

def allFiniteMembers : List (String × Value) → Bool
  | [] => true
  | (_, v) :: rest => allFinite v && allFiniteMembers rest

end

theorem allFiniteItems_iff {items : List Value} :
    allFiniteItems items = true ↔ ∀ v ∈ items, v.allFinite = true := by
  induction items with
  | nil => simp [allFiniteItems]
  | cons v rest ih => simp [allFiniteItems, ih]

theorem allFiniteMembers_iff {members : List (String × Value)} :
    allFiniteMembers members = true ↔ ∀ e ∈ members, e.2.allFinite = true := by
  induction members with
  | nil => simp [allFiniteMembers]
  | cons first rest ih => simp [allFiniteMembers, ih]

@[simp] theorem allFinite_array {items : List Value} :
    (Value.array items).allFinite = true ↔ ∀ v ∈ items, v.allFinite = true :=
  allFiniteItems_iff

@[simp] theorem allFinite_object {members : List (String × Value)} :
    (Value.object members).allFinite = true ↔ ∀ e ∈ members, e.2.allFinite = true :=
  allFiniteMembers_iff

@[simp] theorem allFinite_record {id : Option String} {fields : List (String × Value)} :
    (Value.record id fields).allFinite = true ↔ ∀ e ∈ fields, e.2.allFinite = true :=
  allFiniteMembers_iff

@[simp] theorem allFinite_null : Value.null.allFinite = true := rfl

@[simp] theorem allFinite_float (x : Binary64) : (Value.float x).allFinite = x.isFinite := rfl

/-! ## Parts of values -/

theorem allFinite_of_find? {members : List (String × Value)} {name : String} {v : Value}
    (h : ∀ e ∈ members, e.2.allFinite = true) (hv : Keyed.find? name members = some v) :
    v.allFinite = true :=
  h _ (Keyed.mem_of_find? hv)

theorem allFinite_field? {v w : Value} (hv : v.allFinite = true) {name : String}
    (hw : v.field? name = some w) : w.allFinite = true := by
  cases v with
  | record id fields => exact allFinite_of_find? (allFinite_record.1 hv) hw
  | object members =>
    have hmembers := allFinite_object.1 hv
    simp only [field?] at hw
    rcases Option.or_eq_some_iff.1 hw with hinner | ⟨-, houter⟩
    · split at hinner
      · rename_i fields hfind
        have hfields := allFinite_of_find? hmembers hfind
        exact allFinite_of_find? (allFinite_object.1 hfields) hinner
      · rename_i id fields hfind
        have hfields := allFinite_of_find? hmembers hfind
        exact allFinite_of_find? (allFinite_record.1 hfields) hinner
      · cases hinner
    · exact allFinite_of_find? hmembers houter
  | null | bool | int | float | text | array => cases hw

theorem allFinite_fieldD {v : Value} (hv : v.allFinite = true) (name : String) :
    (v.fieldD name).allFinite = true := by
  rw [fieldD]
  cases hfield : v.field? name with
  | none => rfl
  | some w => exact allFinite_field? hv hfield

theorem allFinite_getD {o : Option Value} (h : ∀ v, o = some v → v.allFinite = true) :
    (o.getD .null).allFinite = true := by
  cases o with
  | none => rfl
  | some v => exact h v rfl

end Value

/-! ## Numbers -/

namespace Numeric

theorem allFinite_ofDecimal (d : Decimal) : (ofDecimal d).toValue.allFinite = true := by
  unfold ofDecimal
  split
  · rfl
  · exact d.isFinite_toBinary64

theorem allFinite_ofFloat {x : Binary64} (hx : x.isFinite = true) :
    (ofFloat x).toValue.allFinite = true := by
  unfold ofFloat
  split
  · rfl
  · exact hx

theorem isFinite_toFloat {n : Numeric} (hn : n.toValue.allFinite = true) :
    n.toFloat.isFinite = true := by
  cases n with
  | float x => exact hn
  | int n =>
    apply Binary64.isFinite_ofInt_of_lt
    have hlow := Int64.le_toInt n
    have hhigh := Int64.toInt_lt n
    omega

end Numeric

namespace Value

theorem isFinite_numberIn? {s : String} {x : Binary64} (h : numberIn? s = some x) :
    x.isFinite = true :=
  (Option.filter_eq_some_iff.1 h).2

/-- A number that is read off a value is finite, whatever the value. -/
theorem allFinite_toNumeric? {v : Value} {n : Numeric} (h : v.toNumeric? = some n) :
    n.toValue.allFinite = true := by
  cases v with
  | int i =>
    obtain rfl := Option.some.inj h
    rfl
  | float x =>
    simp only [toNumeric?] at h
    split at h
    · rename_i hx
      obtain rfl := Option.some.inj h
      exact hx
    · cases h
  | text s =>
    simp only [toNumeric?] at h
    split at h
    · obtain rfl := Option.some.inj h
      rfl
    · obtain ⟨x, hx, rfl⟩ := Option.map_eq_some_iff.1 h
      exact isFinite_numberIn? hx
  | null | bool | array | object | record => cases h

theorem isFinite_toNumber? {v : Value} {x : Binary64} (h : v.toNumber? = some x) :
    x.isFinite = true := by
  cases v with
  | int n =>
    obtain rfl := Option.some.inj h
    exact Numeric.isFinite_toFloat (n := .int n) rfl
  | float y =>
    simp only [toNumber?] at h
    split at h
    · rename_i hy
      obtain rfl := Option.some.inj h
      exact hy
    · cases h
  | text s => exact isFinite_numberIn? h
  | null | bool | array | object | record => cases h

end Value

/-! ## Reductions -/

namespace Reduction

open Value

theorem allFinite_numbers {values : List Value} :
    ∀ n ∈ numbers values, n.toValue.allFinite = true := by
  intro n hn
  obtain ⟨v, -, hv⟩ := List.mem_filterMap.1 hn
  exact allFinite_toNumeric? hv

theorem mem_of_best? {beats : Binary64 → Binary64 → Bool} {ns : List Numeric} {best : Numeric}
    (h : best? beats ns = some best) : best ∈ ns := by
  have hfold : ∀ (rest : List Numeric) (first : Numeric),
      rest.foldl (fun best m => if beats m.toFloat best.toFloat then m else best) first ∈
        first :: rest := by
    intro rest
    induction rest with
    | nil => exact fun first => List.mem_cons_self
    | cons m rest ih =>
      intro first
      rw [List.foldl_cons]
      split
      · exact List.mem_cons_of_mem _ (ih m)
      · rcases List.mem_cons.1 (ih first) with heq | hmem
        · rw [heq]
          exact List.mem_cons_self
        · exact List.mem_cons_of_mem _ (List.mem_cons_of_mem _ hmem)
  cases ns with
  | nil => cases h
  | cons first rest =>
    obtain rfl := Option.some.inj h
    exact hfold rest first

/-- The least and the largest number are among those that are compared. -/
theorem allFinite_best {beats : Binary64 → Binary64 → Bool} {values : List Value} :
    (orNull (best? beats (numbers values))).allFinite = true := by
  cases hbest : best? beats (numbers values) with
  | none => rfl
  | some n => exact allFinite_numbers n (mem_of_best? hbest)

theorem allFinite_project (property : Option String) {input : Value}
    (h : input.allFinite = true) : ∀ v ∈ project property (entries input), v.allFinite = true := by
  have hentries : ∀ v ∈ entries input, v.allFinite = true := by
    intro v hv
    cases input with
    | array items => exact allFinite_array.1 h v hv
    | null => cases hv
    | bool | int | float | text | object | record =>
      obtain rfl := List.mem_singleton.1 hv
      exact h
  cases property with
  | none => exact hentries
  | some name =>
    intro v hv
    obtain ⟨entry, hentry, rfl⟩ := List.mem_map.1 hv
    exact allFinite_fieldD (hentries entry hentry) name

end Reduction

/-- Whether a reduction adds numbers up. -/
def Aggregation.isTotal : Aggregation → Bool
  | .sum | .avg => true
  | _ => false

open Reduction in
/-- A reduction of finite data is finite unless it adds numbers up. -/
theorem Aggregation.allFinite_apply {mode : Aggregation} (hmode : mode.isTotal = false)
    (property : Option String) (separator : String) {input : Value}
    (h : input.allFinite = true) : (mode.apply property separator input).allFinite = true := by
  have hitems := allFinite_project property h
  cases mode with
  | sum => cases hmode
  | avg => cases hmode
  | min => exact allFinite_best
  | max => exact allFinite_best
  | count => rfl
  | first => exact Value.allFinite_getD fun v hv => hitems v (List.mem_of_head? hv)
  | last => exact Value.allFinite_getD fun v hv => hitems v (List.mem_of_getLast? hv)
  | concat => rfl
  | collect => exact Value.allFinite_array.2 hitems

end FormulaPipeline
