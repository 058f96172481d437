/-!
Binary formats over one unit, and rounding to them.

Every finite binary64 number is a whole number of units of 2^-1074, the least
positive one, so a magnitude is a natural number here and rounding is integer
arithmetic. Main statement: what `Format.nearest` returns is held by the format,
unless it is past the format's limit.
-/

namespace TileGrid

/-- The whole number nearest to `num / den`. A half goes to the even
neighbour. -/
def halfEven (num den : Nat) : Nat :=
  if 2 * (num % den) < den ∨ (2 * (num % den) = den ∧ num / den % 2 = 0) then
    num / den
  else num / den + 1

theorem halfEven_le (num den : Nat) : halfEven num den ≤ num / den + 1 := by
  unfold halfEven
  split <;> omega

/-- A binary format no wider than binary64: `precision` significant
bits, spacing never below `1 <<< finest` units, magnitudes below
`1 <<< limit` units. -/
structure Format where
  precision : Nat
  finest : Nat
  limit : Nat
  precision_pos : 0 < precision := by decide
  precision_le : precision ≤ 53 := by decide
  limit_le : limit ≤ 2098 := by decide

theorem one_shiftLeft_le {m n : Nat} (h : m ≤ n) : 1 <<< m ≤ 1 <<< n := by
  simp only [Nat.shiftLeft_eq, Nat.one_mul]
  exact Nat.pow_le_pow_right (by decide) h

namespace Format

def binary64 : Format where
  precision := 53
  finest := 0
  limit := 2098

def binary32 : Format where
  precision := 24
  finest := 925
  limit := 1202

/-- The format holds a magnitude of `n` units. -/
def Holds (f : Format) (n : Nat) : Prop :=
  (∃ c e, c < 1 <<< f.precision ∧ f.finest ≤ e ∧ n = c <<< e) ∧
    n < 1 <<< f.limit

/-- The binary exponent of the format's spacing at magnitude `n`. -/
def spacing (f : Format) (n : Nat) : Nat :=
  if n.log2 + 1 - f.precision ≤ f.finest then f.finest
    else n.log2 + 1 - f.precision

/-- The multiple of the spacing at `num / den` that is nearest to it, ties to
even. Nothing is refused here for being too large. -/
def nearest (f : Format) (num den : Nat) : Nat :=
  halfEven num (den <<< f.spacing (num / den)) <<< f.spacing (num / den)

theorem finest_le_spacing (f : Format) (n : Nat) : f.finest ≤ f.spacing n := by
  unfold spacing
  split <;> omega

theorem lt_shiftLeft_spacing (f : Format) (n : Nat) :
    n < 1 <<< (f.precision + f.spacing n) := by
  have h : n.log2 + 1 ≤ f.precision + f.spacing n := by
    unfold spacing
    split <;> omega
  refine Nat.lt_of_lt_of_le ?_ (one_shiftLeft_le h)
  simpa only [Nat.shiftLeft_eq, Nat.one_mul] using Nat.lt_log2_self

theorem nearest_eq (f : Format) (num den : Nat) :
    ∃ c e, c < 1 <<< f.precision ∧ f.finest ≤ e ∧
      f.nearest num den = c <<< e := by
  have hq : num / (den <<< f.spacing (num / den)) < 1 <<< f.precision := by
    have h := f.lt_shiftLeft_spacing (num / den)
    simp only [Nat.shiftLeft_eq, Nat.one_mul] at h ⊢
    rw [← Nat.div_div_eq_div_mul]
    apply Nat.div_lt_of_lt_mul
    rw [← Nat.pow_add, Nat.add_comm]
    exact h
  have hc := halfEven_le num (den <<< f.spacing (num / den))
  have he := f.finest_le_spacing (num / den)
  by_cases h : halfEven num (den <<< f.spacing (num / den)) < 1 <<< f.precision
  · exact ⟨_, _, h, he, rfl⟩
  · -- The rounding carried into one more bit.
    refine ⟨1, f.precision + f.spacing (num / den), ?_, by omega, ?_⟩
    · have hp := one_shiftLeft_le f.precision_pos
      exact Nat.lt_of_lt_of_le (by decide) hp
    · have heq : halfEven num (den <<< f.spacing (num / den)) =
          1 <<< f.precision := by omega
      rw [nearest, heq, Nat.shiftLeft_add]

theorem holds_nearest (f : Format) (num den : Nat)
    (h : f.nearest num den < 1 <<< f.limit) :
    f.Holds (f.nearest num den) :=
  ⟨f.nearest_eq num den, h⟩

/-- No format holds a magnitude that binary64 does not. -/
theorem Holds.binary64 {f : Format} {n : Nat} (h : f.Holds n) :
    Format.binary64.Holds n := by
  obtain ⟨⟨c, e, hc, _, hn⟩, hlim⟩ := h
  exact ⟨⟨c, e, Nat.lt_of_lt_of_le hc (one_shiftLeft_le f.precision_le),
    Nat.zero_le e, hn⟩, Nat.lt_of_lt_of_le hlim (one_shiftLeft_le f.limit_le)⟩

end Format

end TileGrid
