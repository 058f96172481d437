import TileGrid.Element
import TileGrid.Proofs.Number.Whole

/-!
# What a cell holds stays as it is

Writing back what a cell holds changes nothing: the conversion of a kind is
idempotent. A cell of a whole or a wide kind holds an integer of the kind's
range. A cell takes every value of its sort: an integer for the 64-bit kinds, a
number for the others.
-/

namespace TileGrid

namespace Number

/-- A magnitude that the format holds is its own nearest one. -/
theorem round_held {f : Format} {v : Nat} (hv : f.Holds v) (s : Bool) :
    round f s v 1 = finite s ⟨v, hv.binary64⟩ := by
  have hn : f.nearest v 1 = v := by simpa using hv.nearest_mul Nat.one_pos
  unfold round
  rw [dif_pos (by rw [hn]; exact hv.2)]
  congr 1
  exact Magnitude.eq_of_units hn

theorem ofInt_eq {z : Int} (h : z.natAbs ≤ safeLimit) :
    ofInt z = finite (decide (z < 0)) ⟨z.natAbs * unitsPerOne, holds_whole h⟩ :=
  round_one (holds_whole h) _

/-- Integers up to the limit are numbers, and lose nothing there. -/
theorem truncate_ofInt {z : Int} (h : z.natAbs ≤ safeLimit) :
    (ofInt z).truncate = z := by
  rw [ofInt_eq h, truncate]
  simp only [Nat.mul_div_cancel _ unitsPerOne_pos, signed]
  by_cases hz : z < 0
  · rw [decide_eq_true hz, if_pos rfl]
    omega
  · rw [decide_eq_false hz, if_neg (by simp)]
    omega

end Number

namespace Kind

/-! ## Integers of so many bits -/

/-- The integers that a kind of so many bits holds. -/
def InRange (bits : Nat) (isSigned : Bool) (z : Int) : Prop :=
  if isSigned then -((2 ^ (bits - 1) : Nat) : Int) ≤ z ∧
    z < (2 ^ (bits - 1) : Nat)
  else 0 ≤ z ∧ z < (2 ^ bits : Nat)

theorem inRange_wrap {bits : Nat} (hb : 0 < bits) (isSigned : Bool) (n : Int) :
    InRange bits isSigned (wrap bits isSigned n) := by
  have hpow : 0 < 2 ^ bits := Nat.two_pow_pos bits
  cases isSigned with
  | false =>
      simp only [InRange, wrap, Bool.false_eq_true, if_false, Nat.one_shiftLeft]
      exact ⟨Int.emod_nonneg _ (by omega), Int.emod_lt_of_pos _ (by omega)⟩
  | true =>
      have hhalf : 2 ^ bits = 2 * 2 ^ (bits - 1) := by
        rw [← Nat.pow_succ']
        congr 1
        omega
      have hlow := Int.le_bmod (x := n) hpow
      have hhigh := Int.bmod_lt (x := n) hpow
      simp only [InRange, wrap, if_true, Nat.one_shiftLeft]
      rw [hhalf] at hlow hhigh ⊢
      omega

theorem wrap_wrap (bits : Nat) (isSigned : Bool) (n : Int) :
    wrap bits isSigned (wrap bits isSigned n) = wrap bits isSigned n := by
  cases isSigned with
  | false => simp [wrap]
  | true => simp [wrap]

theorem natAbs_le_of_inRange {bits : Nat} (hb : bits ≤ 53)
    {isSigned : Bool} {z : Int} (hz : InRange bits isSigned z) :
    z.natAbs ≤ Number.safeLimit := by
  have hpow : 2 ^ bits ≤ 2 ^ 53 := Nat.pow_le_pow_right (by decide) hb
  have hhalf : 2 ^ (bits - 1) ≤ 2 ^ bits :=
    Nat.pow_le_pow_right (by decide) (by omega)
  rw [Number.safeLimit_eq]
  cases isSigned with
  | false =>
      simp only [InRange, Bool.false_eq_true, if_false] at hz
      omega
  | true =>
      simp only [InRange, if_true] at hz
      omega

theorem named_name (kind : Kind) : named kind.name = .ok kind := by
  cases kind <;> rfl

/-! ## What a cell holds -/

/-- What cells of the kind hold: what writing it leaves as it is. -/
def Holds (kind : Kind) (e : Element) : Prop := kind.convert e = .ok e

theorem roundTo_roundTo (f : Format) (x : Number) :
    roundTo f (roundTo f x) = roundTo f x := by
  cases x with
  | nan => rfl
  | stray s => rfl
  | infinite s => rfl
  | finite s m =>
      by_cases h : f.nearest m.units 1 < 1 <<< f.limit
      · have hround : roundTo f (.finite s m) =
            .finite s ⟨f.nearest m.units 1, _⟩ := dif_pos h
        rw [hround]
        exact Number.round_held (f.holds_nearest m.units 1 h) s
      · have hround : roundTo f (.finite s m) = .infinite s := dif_neg h
        rw [hround]
        rfl

theorem counted_roundTo (f : Format) (x : Number) :
    (roundTo f x).counted = roundTo f x := by
  cases x with
  | nan => rfl
  | stray s => rfl
  | infinite s => rfl
  | finite s m =>
      simp only [roundTo, Number.round]
      split <;> rfl

theorem bits_of_rule {kind : Kind} {bits : Nat} {isSigned : Bool}
    (h : kind.rule = .whole bits isSigned) : 0 < bits ∧ bits ≤ 53 := by
  cases kind <;> cases h <;> decide

/-- A whole kind keeps the integers of its range. -/
theorem convert_ofInt {kind : Kind} {bits : Nat} {isSigned : Bool}
    (h : kind.rule = .whole bits isSigned) {z : Int}
    (hz : InRange bits isSigned z) :
    kind.convert (.number (.ofInt z)) =
      .ok (.number (.ofInt (wrap bits isSigned z))) := by
  have hle := natAbs_le_of_inRange (bits_of_rule h).2 hz
  have hcounted : (Number.ofInt z).counted = Number.ofInt z := by
    rw [Number.ofInt_eq hle]
    rfl
  simp only [convert, h, hcounted, Number.truncate_ofInt hle]

/-- What a write leaves in a cell, by the rule of the kind. -/
theorem convert_cases {kind : Kind} {v e : Element}
    (h : kind.convert v = .ok e) :
    (∃ bits isSigned n, kind.rule = .whole bits isSigned ∧
      e = .number (.ofInt (wrap bits isSigned n))) ∨
    (∃ isSigned n, kind.rule = .wide isSigned ∧
      e = .integer (wrap 64 isSigned n)) ∨
    (∃ f x, kind.rule = .rounded f ∧ e = .number (roundTo f x)) := by
  cases hrule : kind.rule with
  | whole bits isSigned =>
      cases v with
      | number x =>
          simp only [convert, hrule, Except.ok.injEq] at h
          exact .inl ⟨bits, isSigned, _, rfl, h.symm⟩
      | integer n => simp [convert, hrule] at h
  | wide isSigned =>
      cases v with
      | number x =>
          simp only [convert, hrule] at h
          cases hread : readWide x with
          | error fault =>
              rw [hread] at h
              cases h
          | ok n =>
              rw [hread] at h
              cases h
              exact .inr (.inl ⟨isSigned, n, rfl, rfl⟩)
      | integer n =>
          simp only [convert, hrule, Except.ok.injEq] at h
          exact .inr (.inl ⟨isSigned, n, rfl, h.symm⟩)
  | rounded f =>
      cases v with
      | number x =>
          simp only [convert, hrule, Except.ok.injEq] at h
          exact .inr (.inr ⟨f, _, rfl, h.symm⟩)
      | integer n => simp [convert, hrule] at h

/-- **Writing back what a write left changes nothing.** -/
theorem holds_of_convert {kind : Kind} {v e : Element}
    (h : kind.convert v = .ok e) :
    kind.Holds e := by
  rcases convert_cases h with ⟨bits, isSigned, n, hrule, rfl⟩ | ⟨isSigned, n,
    hrule, rfl⟩ |
    ⟨f, x, hrule, rfl⟩
  · have hin := inRange_wrap (bits_of_rule hrule).1 isSigned n
    rw [Holds, convert_ofInt hrule hin, wrap_wrap]
  · simp only [Holds, convert, hrule, wrap_wrap]
  · simp only [Holds, convert, hrule, counted_roundTo, roundTo_roundTo]

theorem wrap_zero (bits : Nat) (isSigned : Bool) :
    wrap bits isSigned 0 = 0 := by
  cases isSigned <;> simp [wrap]

theorem roundTo_zero (f : Format) : roundTo f 0 = 0 := by
  have hzero : Format.Holds f 0 := by
    refine ⟨⟨0, f.finest, ?_, le_rfl, by simp⟩, ?_⟩ <;>
      exact Nat.lt_of_lt_of_le Nat.one_pos (one_shiftLeft_le (Nat.zero_le _))
  have hnat : (0 : Number) = .finite false ⟨0, hzero.binary64⟩ := by
    show Number.ofNat 0 = _
    rw [Number.ofNat_eq (Number.holds_whole (Nat.zero_le _))]
    simp
  rw [hnat]
  exact Number.round_held hzero false

/-- A fresh cell holds what a write of it would leave. -/
theorem holds_zero (kind : Kind) : kind.Holds kind.zero := by
  cases hrule : kind.rule with
  | whole bits isSigned =>
      have hzero : kind.zero = .number (.ofInt 0) := by
        simp [zero, isWide, hrule, Number.ofInt]
        rfl
      have hin := inRange_wrap (bits_of_rule hrule).1 isSigned 0
      rw [wrap_zero] at hin
      rw [Holds, hzero, convert_ofInt hrule hin, wrap_zero]
  | wide isSigned => simp [Holds, zero, isWide, convert, hrule, wrap_zero]
  | rounded f =>
      have hcounted : (0 : Number).counted = 0 := Number.isWhole_zero.counted
      simp [Holds, zero, isWide, convert, hrule, hcounted, roundTo_zero]

/-- A cell of a whole or a wide kind holds an integer of its range. -/
theorem Holds.inRange {kind : Kind} {e : Element} (h : kind.Holds e) :
    match kind.rule with
    | .whole bits isSigned =>
      ∃ z, e = .number (.ofInt z) ∧ InRange bits isSigned z
    | .wide isSigned => ∃ z, e = .integer z ∧ InRange 64 isSigned z
    | .rounded _ => True := by
  rcases convert_cases h with ⟨bits, isSigned, n, hrule, rfl⟩ | ⟨isSigned, n,
    hrule, rfl⟩ |
    ⟨f, x, hrule, rfl⟩
  · rw [hrule]
    exact ⟨_, rfl, inRange_wrap (bits_of_rule hrule).1 isSigned n⟩
  · rw [hrule]
    exact ⟨_, rfl, inRange_wrap (by decide) isSigned n⟩
  · rw [hrule]
    trivial

/-- A cell of a 64-bit kind holds an integer, and any other cell a number. -/
theorem Holds.cases {kind : Kind} {e : Element} (h : kind.Holds e) :
    (kind.isWide = true ∧ ∃ z, e = .integer z) ∨
      kind.isWide = false ∧ ∃ x : Number, e = .number x ∧
      ∀ s, x ≠ .stray s := by
  rcases convert_cases h with ⟨bits, isSigned, n, hrule, rfl⟩ | ⟨isSigned, n,
    hrule, rfl⟩ |
    ⟨f, x, hrule, rfl⟩
  · refine .inr ⟨by simp [isWide, hrule], _, rfl, fun s => ?_⟩
    have hin := inRange_wrap (bits_of_rule hrule).1 isSigned n
    rw [Number.ofInt_eq (natAbs_le_of_inRange (bits_of_rule hrule).2 hin)]
    simp
  · exact .inl ⟨by simp [isWide, hrule], _, rfl⟩
  · refine .inr ⟨by simp [isWide, hrule], _, rfl, fun s => ?_⟩
    cases x with
    | finite t m =>
        simp only [roundTo, Number.round]
        split <;> simp
    | nan => simp [roundTo]
    | infinite t => simp [roundTo]
    | stray t => simp [roundTo]

/-! ## Values of the right sort -/

/-- What a cell of the kind holds after a write of `v`, where it takes it. -/
def written (kind : Kind) (v : Element) : Element :=
  match kind.convert v with
  | .ok e => e
  | .error _ => v

/-- Of the sort that the kind holds: integers for the 64-bit kinds, numbers
for the others. -/
def Suits (kind : Kind) : Element → Prop
  | .number _ => kind.isWide = false
  | .integer _ => kind.isWide = true

theorem Holds.suits {kind : Kind} {e : Element} (h : kind.Holds e) :
    kind.Suits e := by
  rcases h.cases with ⟨hk, z, rfl⟩ | ⟨hk, x, rfl, -⟩ <;> exact hk

/-- Cells take every value of their sort. -/
theorem Suits.convert {kind : Kind} {v : Element} (h : kind.Suits v) :
    kind.convert v = .ok (kind.written v) := by
  cases v with
  | number x =>
      cases hrule : kind.rule with
      | wide isSigned => simp [Suits, isWide, hrule] at h
      | whole bits isSigned => simp only [written, Kind.convert, hrule]
      | rounded f => simp only [written, Kind.convert, hrule]
  | integer n =>
      cases hrule : kind.rule with
      | wide isSigned => simp only [written, Kind.convert, hrule]
      | whole bits isSigned => simp [Suits, isWide, hrule] at h
      | rounded f => simp [Suits, isWide, hrule] at h

/-- What a cell holds can be written to every kind that agrees on whether it
holds integers. -/
theorem Holds.convert_of_isWide_eq {kind other : Kind} {e : Element}
    (h : kind.Holds e) (hwide : kind.isWide = other.isWide) :
    ∃ r, other.convert e = .ok r := by
  have hsuits : other.Suits e := by
    cases e <;> exact hwide.symm.trans h.suits
  exact ⟨_, hsuits.convert⟩

/-- It can be written to no other. -/
theorem Holds.convert_of_isWide_ne {kind other : Kind} {e : Element}
    (h : kind.Holds e) (hwide : kind.isWide ≠ other.isWide) :
    other.convert e = .error .mixedElements := by
  rcases h.cases with ⟨hk, z, rfl⟩ | ⟨hk, x, rfl, hplain⟩
  · have hother : other.isWide = false := by simpa [hk] using hwide.symm
    cases hrule : other.rule with
    | wide isSigned => simp [isWide, hrule] at hother
    | whole bits isSigned => simp only [convert, hrule]
    | rounded f => simp only [convert, hrule]
  · have hother : other.isWide = true := by simpa [hk] using hwide.symm
    have hread : readWide x = .error .mixedElements := by
      cases x with
      | stray s => exact absurd rfl (hplain s)
      | nan => rfl
      | infinite s => rfl
      | finite s m => rfl
    cases hrule : other.rule with
    | wide isSigned =>
        simp only [convert, hrule, hread]
        rfl
    | whole bits isSigned => simp [isWide, hrule] at hother
    | rounded f => simp [isWide, hrule] at hother

end Kind

end TileGrid
