import TileGrid.Proofs.Element
import TileGrid.Proofs.Number.Nearest

/-!
# Numbers as integers and as rationals

`x.IsInt z` says that `x` is the integer `z`, exactly. For an integer of at
least zero this is `IsWhole`, and every other integer compares as not
positive. The whole part that conversions keep is the rational value rounded
toward zero (`truncate_eq`).
-/

namespace TileGrid.Number

/-- The number is the integer `z`, exactly. Zero may have either sign. -/
def IsInt (x : Number) (z : Int) : Prop :=
  ∃ s m, x = finite s m ∧ signed s m.units = z * unitsPerOne

theorem isInt_natCast {x : Number} {n : Nat} : x.IsInt n ↔ x.IsWhole n := by
  constructor
  · rintro ⟨s, m, rfl, hm⟩
    have hm : signed s m.units = (n * unitsPerOne : Nat) := by
      rw [hm]; push_cast; rfl
    cases s with
    | false =>
        simp only [signed, Bool.false_eq_true, if_false] at hm
        exact ⟨false, m, rfl, Int.ofNat_inj.mp hm, by simp⟩
    | true =>
        -- only zero has a sign here
        simp only [signed, if_true] at hm
        have hzero : m.units = 0 ∧ n * unitsPerOne = 0 := by omega
        have hn : n = 0 := by simpa [unitsPerOne_pos.ne'] using hzero.2
        exact ⟨true, m, rfl, by rw [hzero.1, hzero.2], fun _ => hn⟩
  · intro h
    obtain ⟨s, m, rfl, -, -⟩ := id h
    exact ⟨s, m, rfl, by rw [h.signed_units]; push_cast; rfl⟩

theorem IsInt.isWhole {x : Number} {z : Int} (h : x.IsInt z) (hz : 0 ≤ z) :
    x.IsWhole z.toNat := by
  rw [← isInt_natCast, Int.toNat_of_nonneg hz]
  exact h

/-- An integer is at most zero as a number just when it is one. -/
theorem IsInt.le_zero {x : Number} {z : Int} (h : x.IsInt z) :
    x.le 0 = decide (z ≤ 0) := by
  have hu : (0 : Int) < unitsPerOne := by exact_mod_cast unitsPerOne_pos
  obtain ⟨s, m, rfl, hm⟩ := h
  obtain ⟨t, m₀, h0, -, -⟩ := id isWhole_zero
  have hzero : signed t m₀.units = 0 := by
    have := IsWhole.signed_units (h0 ▸ isWhole_zero)
    simpa using this
  have hiff : 0 < signed s m.units ↔ 0 < z := by
    rw [hm]; exact mul_pos_iff_of_pos_right hu
  rw [h0]
  simp only [Number.le, isNaN, counted_finite, lt_finite, hzero, Bool.not_false,
    Bool.true_and, hiff, ← decide_not, Int.not_lt]

/-- Integers up to the limit are numbers. -/
theorem isInt_ofInt {z : Int} (h : z.natAbs ≤ safeLimit) :
    (ofInt z).IsInt z := by
  refine ⟨_, _, ofInt_eq h, ?_⟩
  by_cases hz : z < 0
  · simp only [signed, decide_eq_true hz, if_true]
    push_cast
    rw [abs_of_neg hz]
    ring
  · simp only [signed, decide_eq_false hz, Bool.false_eq_true, if_false]
    push_cast
    rw [abs_of_nonneg (by omega)]

/-! ## Toward zero -/

/-- The rational that a finite number stands for. -/
def value? : Number → Option ℚ
  | finite s m => some (if s then -m.value else m.value)
  | _ => none

theorem IsInt.value? {x : Number} {z : Int} (h : x.IsInt z) :
    x.value? = some (z : ℚ) := by
  have hu : (unitsPerOne : ℚ) ≠ 0 := unitsPerOne_cast_ne_zero
  obtain ⟨s, m, rfl, hm⟩ := h
  have hm : ((signed s m.units : Int) : ℚ) / unitsPerOne = z := by
    rw [hm]
    push_cast
    exact mul_div_cancel_right₀ _ hu
  rw [Number.value?, ← hm]
  cases s with
  | false => simp [signed, Magnitude.value]
  | true => simp [signed, Magnitude.value, neg_div]

/-- The integer that is left of a rational without its fraction. -/
def towardZero (q : ℚ) : Int := if 0 ≤ q then ⌊q⌋ else ⌈q⌉

@[simp] theorem towardZero_intCast (z : Int) : towardZero z = z := by
  simp [towardZero]

theorem towardZero_neg (q : ℚ) : towardZero (-q) = -towardZero q := by
  rcases lt_trichotomy q 0 with hq | rfl | hq
  · simp [towardZero, hq.le, hq.not_ge, Int.floor_neg]
  · simp [towardZero]
  · simp [towardZero, hq.le, hq.not_ge, Int.ceil_neg]

theorem towardZero_value (m : Magnitude) :
    towardZero m.value = (m.units / unitsPerOne : Nat) := by
  have hu : (0 : ℚ) < unitsPerOne := by exact_mod_cast unitsPerOne_pos
  have hnonneg : 0 ≤ m.value := div_nonneg (Nat.cast_nonneg _) hu.le
  rw [towardZero, if_pos hnonneg, Magnitude.value,
    Rat.floor_natCast_div_natCast]
  norm_cast

/-- **The whole part is the value rounded toward zero.** What has no value
counts as zero. -/
theorem truncate_eq (x : Number) :
    x.truncate = (x.value?.map towardZero).getD 0 := by
  cases x with
  | nan => rfl
  | infinite s => rfl
  | stray s => rfl
  | finite s m =>
      simp only [truncate, value?, Option.map_some, Option.getD_some]
      cases s with
      | false => simp [signed, towardZero_value]
      | true => simp [signed, towardZero_neg, towardZero_value]

end TileGrid.Number
