import FormulaPipeline.Function.Number
import FormulaPipeline.Proofs.Number.Rounded
import FormulaPipeline.Proofs.Totals

/-!
# Rounding functions

A rounding function reads its argument as a float. A whole number of 64 bits that is no float is
replaced by a nearest one there, and rounding down or up shows a float from `9 * 10 ^ 15` on, so
whole numbers are left alone up to these bounds. Rounding to places reads the count of places as a
float too and keeps its last 32 bits.
-/

namespace FormulaPipeline

namespace Binary64

/-- The float of a whole number of 64 bits is whole, and has the sign of the number. -/
theorem exists_toRat_ofInt (n : Int64) : ∃ m : ℤ, (ofInt n.toInt).toRat = m ∧
    m.natAbs < Decimal.limit ∧ (0 ≤ n.toInt → 0 ≤ m) := by
  have hrange := Integer.natAbs_toInt_le n
  have hnearest := isNearest_toInt n
  obtain ⟨m, hm, hvalue⟩ : ∃ m : ℤ, m.natAbs < Decimal.limit ∧ (ofInt n.toInt).toRat = m := by
    rcases Nat.le_total n.toInt.natAbs (2 ^ 53) with hsmall | hlarge
    · exact ⟨n.toInt, Decimal.natAbs_toInt_lt n, toRat_ofInt hsmall⟩
    · have hlow := le_abs_toRat_ofInt (c := 1) (e := 53) (hrange.trans (by norm_num))
        (by norm_num) (by norm_num) (by rwa [one_mul])
      have hhigh := abs_toRat_ofInt_le (c := 1) (e := 63) (hrange.trans (by norm_num))
        (by norm_num) (by norm_num) (by rwa [one_mul])
      obtain ⟨m, hm, hvalue, -⟩ := Decimal.ofBinary64?_of_large hnearest.isFinite
        (by exact_mod_cast hlow) (hhigh.trans_lt (by norm_num [Decimal.limit]))
      exact ⟨m, hm, hvalue⟩
  refine ⟨m, hvalue, hm, fun hn => ?_⟩
  have hnonneg := hnearest.nonneg (by exact_mod_cast hn)
  rw [hvalue] at hnonneg
  exact_mod_cast hnonneg

end Binary64

namespace Numeric

/-- The float of a whole number comes back whole below `9 * 10 ^ 15`. -/
theorem ofFloat_ofInt (n : Int64) : ofFloat (Binary64.ofInt n.toInt) =
    if n.toInt.natAbs < 9000000000000000 then int n else float (Binary64.ofInt n.toInt) := by
  have hfinite := (Binary64.isNearest_toInt n).isFinite
  have hroom : n.toInt.natAbs ≤ 2 ^ 96 := (Integer.natAbs_toInt_le n).trans (by norm_num)
  have hcut : (Binary64.ofInt 9000000000000000).toRat = 9000000000000000 := by
    exact_mod_cast Binary64.toRat_ofInt (n := 9000000000000000) (by norm_num)
  have hcutfinite : (Binary64.ofInt 9000000000000000).isFinite = true :=
    (Binary64.isNearest_ofInt (by norm_num)).isFinite
  have hlt : (Binary64.ofInt n.toInt).abs.lt (Binary64.ofInt 9000000000000000) = true ↔
      |(Binary64.ofInt n.toInt).toRat| < 9000000000000000 := by
    rw [Binary64.lt_iff (Binary64.isFinite_abs hfinite) hcutfinite, Binary64.toRat_abs, hcut]
  obtain ⟨m, hm, -, -⟩ := Binary64.exists_toRat_ofInt n
  rw [ofFloat, Binary64.isWhole_of_toRat_eq hfinite hm, Bool.true_and]
  by_cases hsmall : n.toInt.natAbs < 9000000000000000
  · have hvalue : (Binary64.ofInt n.toInt).toRat = n.toInt :=
      Binary64.toRat_ofInt (hsmall.le.trans (by norm_num))
    have hbelow : |(Binary64.ofInt n.toInt).toRat| < 9000000000000000 := by
      rw [hvalue, Binary64.abs_cast_int]
      exact_mod_cast hsmall
    have hrange : max Integer.least (min Integer.greatest n.toInt) = n.toInt := by
      simp only [Integer.least, Integer.greatest]
      omega
    rw [if_pos (hlt.2 hbelow), if_pos hsmall, Binary64.truncateTo_of_whole hfinite hvalue, hrange,
      Int64.ofInt_toInt]
  · have habove := Binary64.le_abs_toRat_ofInt (c := 9000000000000000) (e := 0) hroom
      (by norm_num) (by norm_num) (by omega)
    rw [if_neg hsmall, if_neg]
    rw [hlt, not_lt]
    exact_mod_cast habove

end Numeric

namespace Builtin

variable {x : Numeric} {n d : Int64}

/-- The count of places that rounding keeps: the argument as a float, cut to 64 bits and then to
32. -/
def placesOf (d : Int64) : Nat :=
  ((Binary64.ofInt d.toInt).truncateTo Integer.least Integer.greatest).toNat % 4294967296

theorem placesOf_of_lt (hd : 0 ≤ d.toInt) (h : d.toInt < 4294967296) :
    placesOf d = d.toInt.toNat := by
  have hvalue : (Binary64.ofInt d.toInt).toRat = d.toInt := Binary64.toRat_ofInt (by omega)
  have hrange : max Integer.least (min Integer.greatest d.toInt) = d.toInt := by
    simp only [Integer.least, Integer.greatest]
    omega
  rw [placesOf, Binary64.truncateTo_of_whole (Binary64.isNearest_toInt d).isFinite hvalue, hrange]
  omega

/-- A number with a decimal is rounded there. -/
theorem round_of_decimal {D : Decimal} (hx : Decimal.ofBinary64? x.toFloat = some D)
    (hd : 0 ≤ d.toInt) :
    round [x.toValue, .int d] = .ok (Numeric.ofDecimal (D.roundTo (placesOf d))).toValue := by
  obtain ⟨m, hm, -, hsign⟩ := Binary64.exists_toRat_ofInt d
  have hnonneg : 0 ≤ (Binary64.ofInt d.toInt).truncateTo Integer.least Integer.greatest := by
    have hm0 := hsign hd
    rw [Binary64.truncateTo_of_whole (Binary64.isNearest_toInt d).isFinite hm]
    simp only [Integer.least, Integer.greatest]
    omega
  have hnumber : Argument.number [x.toValue, .int d] 0 "ROUND" = .ok x.toFloat := by
    cases x with
    | int n => rfl
    | float y =>
      have hfinite : y.isFinite = true := by
        cases y with
        | nan => cases hx
        | infinite negative => cases hx
        | finite => rfl
      simp [Argument.number, Argument.nth, Numeric.toValue, Numeric.toFloat, Value.toNumber?,
        hfinite]
  have hinteger : Argument.integer [x.toValue, .int d] 1 0 "ROUND" =
      .ok ((Binary64.ofInt d.toInt).truncateTo Integer.least Integer.greatest) := rfl
  have hround : roundNumber x.toFloat ((Binary64.ofInt d.toInt).truncateTo Integer.least
      Integer.greatest) = .ofDecimal (D.roundTo (placesOf d)) := by
    rw [roundNumber, if_pos hnonneg, hx, placesOf]
  rw [round, hnumber, hinteger, ← hround]
  rfl

theorem floor_int (n : Int64) :
    floor [.int n] = .ok (Numeric.ofFloat (Binary64.ofInt n.toInt)).toValue := by
  obtain ⟨m, hm, -, -⟩ := Binary64.exists_toRat_ofInt n
  have hwhole := Binary64.floor_of_whole (Binary64.isNearest_toInt n).isFinite hm
  exact congrArg (fun y => Except.ok (Numeric.ofFloat y).toValue) hwhole

theorem ceiling_int (n : Int64) :
    ceiling [.int n] = .ok (Numeric.ofFloat (Binary64.ofInt n.toInt)).toValue := by
  obtain ⟨m, hm, -, -⟩ := Binary64.exists_toRat_ofInt n
  have hwhole := Binary64.ceil_of_whole (Binary64.isNearest_toInt n).isFinite hm
  exact congrArg (fun y => Except.ok (Numeric.ofFloat y).toValue) hwhole

theorem toValue_ofFloat_ofInt_eq_int_iff :
    (Numeric.ofFloat (Binary64.ofInt n.toInt)).toValue = .int n ↔
      n.toInt.natAbs < 9000000000000000 := by
  rw [Numeric.ofFloat_ofInt]
  split <;> simp [Numeric.toValue, *]

/-- Rounding a whole number to places gives the nearest float of the number as a whole one. -/
theorem round_int (n : Int64) (hd : 0 ≤ d.toInt) :
    ∃ (m : ℤ) (hm : m.natAbs < Decimal.limit), (Binary64.ofInt n.toInt).toRat = m ∧
      round [.int n, .int d] = .ok (Numeric.ofDecimal (.ofWhole m hm)).toValue := by
  obtain ⟨m, hvalue, hm, -⟩ := Binary64.exists_toRat_ofInt n
  refine ⟨m, hm, hvalue, ?_⟩
  have hdecimal := Decimal.ofBinary64?_of_whole (Binary64.isNearest_toInt n).isFinite hvalue hm
  have hplaces : (Decimal.ofWhole m hm).roundTo (placesOf d) = .ofWhole m hm :=
    if_pos (Nat.zero_le _)
  rw [← hplaces]
  exact round_of_decimal (x := .int n) hdecimal hd

/-! ## Whole numbers -/

/-- Rounding down and up leave a whole number alone below `9 * 10 ^ 15` and no other one, and show
its nearest float there. Rounding to places shows the whole number that the nearest float is, so it
leaves alone what is a float. -/
theorem rounding_int_iff (n : Int64) (hd : 0 ≤ d.toInt) :
    (floor [.int n] = .ok (.int n) ↔ n.toInt.natAbs < 9000000000000000) ∧
    (ceiling [.int n] = .ok (.int n) ↔ n.toInt.natAbs < 9000000000000000) ∧
    (9000000000000000 ≤ n.toInt.natAbs →
      floor [.int n] = .ok (.float (Binary64.ofInt n.toInt)) ∧
      ceiling [.int n] = .ok (.float (Binary64.ofInt n.toInt))) ∧
    (∃ (m : ℤ) (v : Value), (Binary64.ofInt n.toInt).toRat = m ∧ ShownAs m v ∧
      round [.int n, .int d] = .ok v) ∧
    (round [.int n, .int d] = .ok (.int n) ↔ (Binary64.ofInt n.toInt).toRat = n.toInt) ∧
    (n.toInt.natAbs ≤ 2 ^ 53 → round [.int n, .int d] = .ok (.int n)) := by
  obtain ⟨m, hm, hvalue, hround⟩ := round_int n hd
  have hiff : round [.int n, .int d] = .ok (.int n) ↔
      (Binary64.ofInt n.toInt).toRat = n.toInt := by
    rw [hround, hvalue, Int.cast_inj, eq_comm (a := m),
      ← Numeric.ofDecimal_ofWhole_eq_int_iff (h := hm)]
    cases Numeric.ofDecimal (.ofWhole m hm) <;> simp [Numeric.toValue]
  rw [floor_int, ceiling_int, Except.ok.injEq, toValue_ofFloat_ofInt_eq_int_iff]
  refine ⟨.rfl, .rfl, fun hlarge => ?_, ⟨m, _, hvalue, shownAs_ofDecimal hm, hround⟩, hiff,
    fun hsmall => hiff.2 (Binary64.toRat_ofInt hsmall)⟩
  rw [Numeric.ofFloat_ofInt, if_neg (not_lt.2 hlarge)]
  exact ⟨rfl, rfl⟩

theorem rounding_int_iff_of_two_pow :
    (0 : ℤ) ≤ (2 : Int64).toInt ∧
    floor [.int 9007199254740992] = .ok (.float (Binary64.ofInt 9007199254740992)) ∧
    round [.int 9007199254740992, .int 2] = .ok (.int 9007199254740992) := by
  obtain ⟨-, -, hfloat, -, -, hround⟩ :=
    @rounding_int_iff 2 9007199254740992 (by decide)
  exact ⟨by decide, (hfloat (by decide)).1, hround (by decide)⟩

/-- A whole number between two floats becomes the lower one. -/
theorem rounding_loses_unit :
    floor [.int 9007199254740993] = .ok (.float (Binary64.ofInt 9007199254740992)) ∧
    ceiling [.int 9007199254740993] = .ok (.float (Binary64.ofInt 9007199254740992)) ∧
    round [.int 9007199254740993, .int 0] = .ok (.int 9007199254740992) := by
  have hfloat : Numeric.ofFloat (Binary64.ofInt (9007199254740993 : Int64).toInt) =
      .float (Binary64.ofInt 9007199254740992) := by decide +kernel
  have hround : roundNumber (Binary64.ofInt (9007199254740993 : Int64).toInt)
      ((Binary64.ofInt (0 : Int64).toInt).truncateTo Integer.least Integer.greatest) =
      .int 9007199254740992 := by decide +kernel
  rw [floor_int, ceiling_int, hfloat]
  exact ⟨rfl, rfl, congrArg (fun y : Numeric => Except.ok y.toValue) hround⟩

/-! ## Places -/

/-- From `2 ^ 32` places on only some of them are kept, and the number is changed if and only if it
has more than these. -/
theorem isRounded_places_iff (D : Decimal) (hd : 0 ≤ d.toInt) :
    Decimal.IsRounded d.toInt.toNat D.toRat (D.roundTo (placesOf d)).toRat ↔
      d.toInt < 4294967296 ∨ ∃ k : ℤ, D.toRat = k / 10 ^ placesOf d := by
  have hkept := Decimal.isRounded_roundTo D (placesOf d)
  by_cases hlt : d.toInt < 4294967296
  · rw [← placesOf_of_lt hd hlt]
    exact iff_of_true hkept (.inl hlt)
  · have hall := Decimal.isRounded_roundTo D d.toInt.toNat
    rw [Decimal.roundTo_of_le (by omega)] at hall
    rw [or_iff_right hlt]
    constructor
    · intro h
      obtain ⟨k, hk⟩ := hkept.multiple
      exact ⟨k, (hall.unique h).trans hk⟩
    · intro h
      rwa [hkept.unique (.self h)]

/-- Rounding a number that has a decimal: the result is the decimal rounded to the places that are
kept. Under `2 ^ 32` places these are all places; then more places take the result no farther away,
and 28 places leave the decimal as it is. -/
theorem round_isRounded {D : Decimal} (hx : Decimal.ofBinary64? x.toFloat = some D) :
    (∀ d : Int64, 0 ≤ d.toInt →
      round [x.toValue, .int d] = .ok (Numeric.ofDecimal (D.roundTo (placesOf d))).toValue ∧
      Decimal.IsRounded (placesOf d) D.toRat (D.roundTo (placesOf d)).toRat ∧
      (Decimal.IsRounded d.toInt.toNat D.toRat (D.roundTo (placesOf d)).toRat ↔
        d.toInt < 4294967296 ∨ ∃ k : ℤ, D.toRat = k / 10 ^ placesOf d)) ∧
    (∀ d e : Int64, 0 ≤ d.toInt → d.toInt ≤ e.toInt → e.toInt < 4294967296 →
      |D.toRat - (D.roundTo (placesOf e)).toRat| ≤ |D.toRat - (D.roundTo (placesOf d)).toRat|) ∧
    (∀ d : Int64, 28 ≤ d.toInt → d.toInt < 4294967296 → D.roundTo (placesOf d) = D) := by
  refine ⟨fun d hd => ⟨round_of_decimal hx hd, Decimal.isRounded_roundTo D _,
    isRounded_places_iff D hd⟩, fun d e hd hle hlt => ?_, fun d hmany hlt => ?_⟩
  · refine (Decimal.isRounded_roundTo D _).mono (Decimal.isRounded_roundTo D _) ?_
    rw [placesOf_of_lt hd (hle.trans_lt hlt), placesOf_of_lt (hd.trans hle) hlt]
    omega
  · refine Decimal.roundTo_of_le ?_
    rw [placesOf_of_lt (by omega) hlt]
    omega

/-- The float one and a half. -/
def oneAndHalf : Binary64 := .finite false 6755399441055744 (-52) (by decide)

theorem round_isRounded_of_half :
    Decimal.ofBinary64? (Numeric.float oneAndHalf).toFloat = some ⟨15, 1, by decide, by decide⟩ ∧
    round [.float oneAndHalf, .int 0] = .ok (.int 2) := by
  have hx : Decimal.ofBinary64? (Numeric.float oneAndHalf).toFloat =
      some ⟨15, 1, by decide, by decide⟩ := by decide +kernel
  have hround := ((round_isRounded hx).1 0 (by decide)).1
  have hwhole : Numeric.ofDecimal (Decimal.roundTo ⟨15, 1, by decide, by decide⟩ (placesOf 0)) =
      .int 2 := by decide +kernel
  rw [hwhole] at hround
  exact ⟨hx, hround⟩

/-- `2 ^ 32` places are none, so they take the number farther away than one place does. -/
theorem round_wraps_places :
    Decimal.ofBinary64? oneAndHalf = some ⟨15, 1, by decide, by decide⟩ ∧
    round [.float oneAndHalf, .int 1] = .ok (.float oneAndHalf) ∧
    round [.float oneAndHalf, .int 4294967296] = .ok (.int 2) := by
  have hone : roundNumber oneAndHalf ((Binary64.ofInt (1 : Int64).toInt).truncateTo Integer.least
      Integer.greatest) = .float oneAndHalf := by decide +kernel
  have hmany : roundNumber oneAndHalf ((Binary64.ofInt (4294967296 : Int64).toInt).truncateTo
      Integer.least Integer.greatest) = .int 2 := by decide +kernel
  exact ⟨by decide +kernel, congrArg (fun y : Numeric => Except.ok y.toValue) hone,
    congrArg (fun y : Numeric => Except.ok y.toValue) hmany⟩

end Builtin

end FormulaPipeline
