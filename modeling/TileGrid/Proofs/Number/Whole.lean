import TileGrid.Number.Arithmetic
import TileGrid.Proofs.Number.Rounding

/-!
# Whole numbers among the numbers

`x.IsWhole n` says that `x` is the whole number `n`, exactly. Comparison of such
numbers is that of the naturals, and so is arithmetic on them as long as the
result is at most `safeLimit`. Above that only what is held is exact; extents of
a tile may lie there, so the lemmas ask for no more than they need.
-/

namespace TileGrid

theorem Magnitude.eq_of_units {m n : Magnitude}
    (h : m.units = n.units) : m = n := by
  cases m
  cases n
  cases h
  rfl

theorem unitsPerOne_eq : unitsPerOne = 2 ^ unitHalvings := by
  simp only [unitsPerOne, Nat.shiftLeft_eq, Nat.one_mul]

namespace Number

theorem safeLimit_eq : safeLimit = 2 ^ 53 := rfl

/-- A whole number up to `safeLimit` is held. -/
theorem holds_whole {n : Nat} (h : n ≤ safeLimit) :
    Format.binary64.Holds (n * unitsPerOne) := by
  have hlim : n * unitsPerOne < 1 <<< Format.binary64.limit := by
    calc n * unitsPerOne ≤ 2 ^ 53 * 2 ^ unitHalvings := by
          rw [unitsPerOne_eq]
          exact Nat.mul_le_mul_right _ h
      _ < 1 <<< Format.binary64.limit := by
          rw [← pow_add, Nat.shiftLeft_eq, Nat.one_mul]
          exact Nat.pow_lt_pow_right (by decide) (by decide)
  rcases Nat.lt_or_ge n safeLimit with hlt | hge
  · exact ⟨⟨n, unitHalvings, hlt,
      Nat.zero_le _, by rw [unitsPerOne_eq, Nat.shiftLeft_eq]⟩, hlim⟩
  · -- the limit itself is a single bit, one place further up
    have heq : n = 2 ^ 53 := Nat.le_antisymm h hge
    refine ⟨⟨1, 53 + unitHalvings, by decide, Nat.zero_le _, ?_⟩, hlim⟩
    rw [heq, unitsPerOne_eq, ← pow_add, Nat.shiftLeft_eq, Nat.one_mul]

theorem round_eq_finite {v den : Nat} (hd : 0 < den)
    (hv : Format.binary64.Holds v) (s : Bool) :
    round .binary64 s (v * den) den = finite s ⟨v, hv⟩ := by
  have hn : Format.binary64.nearest (v * den) den = v := hv.nearest_mul hd
  unfold round
  rw [dif_pos (by rw [hn]; exact hv.2)]
  congr 1
  exact Magnitude.eq_of_units hn

/-- As `round_eq_finite`, where nothing is divided. -/
theorem round_one {v : Nat} (hv : Format.binary64.Holds v) (s : Bool) :
    round .binary64 s v 1 = finite s ⟨v, hv⟩ := by
  simpa using round_eq_finite Nat.one_pos hv s

theorem ofNat_eq {n : Nat} (h : Format.binary64.Holds (n * unitsPerOne)) :
    ofNat n = finite false ⟨n * unitsPerOne, h⟩ :=
  round_one h false

/-! ## Exact whole numbers -/

/-- The number is the whole number `n`, exactly. Zero may have either sign. -/
def IsWhole (x : Number) (n : Nat) : Prop :=
  ∃ s m, x = finite s m ∧ m.units = n * unitsPerOne ∧ (s = true → n = 0)

theorem isWhole_ofNat_of_holds {n : Nat}
    (h : Format.binary64.Holds (n * unitsPerOne)) :
    (ofNat n).IsWhole n :=
  ⟨false, _, ofNat_eq h, rfl, by simp⟩

theorem isWhole_ofNat {n : Nat} (h : n ≤ safeLimit) : (ofNat n).IsWhole n :=
  isWhole_ofNat_of_holds (holds_whole h)

theorem isWhole_zero : (0 : Number).IsWhole 0 := isWhole_ofNat (Nat.zero_le _)

theorem isWhole_one : (1 : Number).IsWhole 1 := isWhole_ofNat (by decide)

theorem IsWhole.holds {x : Number} {n : Nat} (h : x.IsWhole n) :
    Format.binary64.Holds (n * unitsPerOne) := by
  obtain ⟨s, m, rfl, hm, -⟩ := h
  exact hm ▸ m.held

/-- A positive whole number has one form only. -/
theorem IsWhole.eq_ofNat {x : Number} {n : Nat} (h : x.IsWhole n) (hn : 0 < n) :
    x = ofNat n := by
  have hheld := h.holds
  obtain ⟨s, m, rfl, hm, hs⟩ := h
  have hs' : s = false := by
    cases s
    · rfl
    · have := hs rfl
      omega
  rw [ofNat_eq hheld, hs',
    Magnitude.eq_of_units (n := ⟨n * unitsPerOne, hheld⟩) hm]

theorem IsWhole.counted {x : Number} {n : Nat} (h : x.IsWhole n) :
    x.counted = x := by
  obtain ⟨s, m, rfl, -, -⟩ := h
  rfl

theorem IsWhole.isNaN {x : Number} {n : Nat} (h : x.IsWhole n) :
    x.isNaN = false := by
  obtain ⟨s, m, rfl, -, -⟩ := h
  rfl

theorem IsWhole.isInteger {x : Number} {n : Nat} (h : x.IsWhole n) :
    x.isInteger = true := by
  obtain ⟨s, m, rfl, hm, -⟩ := h
  simp [Number.isInteger, hm]

/-- The units of a whole number, with their sign. -/
theorem IsWhole.signed_units {s : Bool} {m : Magnitude} {n : Nat}
    (h : (finite s m).IsWhole n) :
    signed s m.units = (n * unitsPerOne : Nat) := by
  obtain ⟨s', m', heq, hm, hs⟩ := h
  cases heq
  cases s
  · simp [signed, hm]
  · simp [signed, hm, hs rfl]

theorem IsWhole.truncate {x : Number} {n : Nat} (h : x.IsWhole n) :
    x.truncate = n := by
  have hu := unitsPerOne_pos
  obtain ⟨s, m, rfl, hm, hs⟩ := h
  have hq : m.units / unitsPerOne = n := by rw [hm, Nat.mul_div_cancel _ hu]
  cases s
  · simp [Number.truncate, signed, hq]
  · simp [Number.truncate, signed, hq, hs rfl]

theorem IsWhole.toNat {x : Number} {n : Nat} (h : x.IsWhole n) :
    x.toNat = n := by
  rw [Number.toNat, h.truncate, Int.toNat_natCast]

theorem IsWhole.unique {x : Number} {m n : Nat} (hm : x.IsWhole m)
    (hn : x.IsWhole n) : m = n := by
  rw [← hm.toNat, hn.toNat]

/-! ## Order -/

theorem lt_finite (s t : Bool) (m n : Magnitude) :
    (finite s m).lt (finite t n) =
      decide (signed s m.units < signed t n.units) := rfl

theorem IsWhole.lt {x y : Number} {m n : Nat} (hx : x.IsWhole m)
    (hy : y.IsWhole n) :
    x.lt y = decide (m < n) := by
  have hx' := hx
  have hy' := hy
  obtain ⟨s, a, rfl, -, -⟩ := hx'
  obtain ⟨t, b, rfl, -, -⟩ := hy'
  rw [lt_finite, hx.signed_units, hy.signed_units]
  have hiff : ((m * unitsPerOne : Nat) : Int) <
      (n * unitsPerOne : Nat) ↔ m < n := by
    rw [Int.ofNat_lt]
    exact Nat.mul_lt_mul_right unitsPerOne_pos
  simp only [hiff]

theorem IsWhole.le {x y : Number} {m n : Nat} (hx : x.IsWhole m)
    (hy : y.IsWhole n) :
    x.le y = decide (m ≤ n) := by
  simp only [Number.le, hx.isNaN, hy.isNaN, hy.lt hx, Bool.not_false,
    Bool.true_and, ← decide_not, Nat.not_lt]

theorem IsWhole.eqv {x y : Number} {m n : Nat} (hx : x.IsWhole m)
    (hy : y.IsWhole n) :
    x.eqv y = decide (m = n) := by
  simp only [Number.eqv, hx.le hy, hy.le hx, ← Bool.decide_and]
  congr 1
  exact propext ⟨fun h => Nat.le_antisymm h.1 h.2, fun h => ⟨h.le, h.ge⟩⟩

theorem IsWhole.le_zero {x : Number} {n : Nat} (h : x.IsWhole n) :
    Number.le 0 x = true := by
  rw [isWhole_zero.le h]
  simp

theorem isExtent_iff {x : Number} : x.isExtent = true ↔ ∃ n, x.IsWhole n := by
  constructor
  · intro h
    simp only [isExtent, Bool.and_eq_true] at h
    obtain ⟨hi, hle⟩ := h
    cases x with
    | finite s m =>
      have hmod : m.units % unitsPerOne = 0 := by simpa [isInteger] using hi
      have hm : m.units = m.units / unitsPerOne * unitsPerOne := by
        have := Nat.div_add_mod m.units unitsPerOne
        rw [Nat.mul_comm]
        omega
      refine ⟨m.units / unitsPerOne, s, m, rfl, hm, ?_⟩
      rintro rfl
      -- a negative sign is let through on zero only
      have hz : (0 : Number) = finite false ⟨0 * unitsPerOne, _⟩ :=
        ofNat_eq (holds_whole (Nat.zero_le _))
      rw [hz] at hle
      simp only [Number.le, lt_finite, Bool.and_eq_true, Bool.not_eq_true',
        decide_eq_false_iff_not] at hle
      have h0 : m.units = 0 := by
        have := hle.2
        simp only [signed] at this
        simp only [Nat.zero_mul] at this
        simp at this
        omega
      simp [h0]
    | nan => simp [isInteger] at hi
    | infinite s => simp [isInteger] at hi
    | stray s => simp [isInteger] at hi
  · rintro ⟨n, hn⟩
    simp [isExtent, hn.isInteger, hn.le_zero]

end Number

end TileGrid
