import Mathlib.Tactic.Ring
import Mathlib.Tactic.Linarith
import Mathlib.Tactic.Positivity
import TileGrid.Number.Format

/-!
# Rounding to a binary format

What `Format.nearest` does to a quotient `num / den` of units, in four facts
that later proofs use and that hide how it is computed: it never passes a
magnitude that the format holds (`Holds.le_nearest`, `Holds.nearest_le`), so it
fixes those (`Holds.nearest_mul`); it keeps the order of quotients
(`nearest_mono`); and more than half a spacing above a multiple of the spacing
it has left that multiple (`lt_nearest`).
-/

namespace TileGrid

/-! ## Nearest whole numbers -/

theorem le_halfEven {a num den : Nat} (hd : 0 < den) (h : a * den ≤ num) :
    a ≤ halfEven num den := by
  have hq : a ≤ num / den := (Nat.le_div_iff_mul_le hd).mpr h
  unfold halfEven
  split <;> omega

theorem halfEven_le_of_le_mul {a num den : Nat} (hd : 0 < den)
    (h : num ≤ a * den) :
    halfEven num den ≤ a := by
  have hq : num / den ≤ a := Nat.div_le_of_le_mul (by rwa [Nat.mul_comm])
  rcases Nat.lt_or_ge (num / den) a with hlt | hge
  · exact Nat.le_trans (halfEven_le num den) hlt
  · -- the quotient is `a` itself, so nothing is left over
    have heq : num / den = a := by omega
    have hdm := Nat.div_add_mod num den
    have hr : num % den = 0 := by
      rw [heq, Nat.mul_comm] at hdm
      omega
    simp [halfEven, hr, hd, heq]

theorem lt_halfEven {a num den : Nat} (hd : 0 < den)
    (h : (2 * a + 1) * den < 2 * num) :
    a < halfEven num den := by
  have hdm := Nat.div_add_mod num den
  have hr := Nat.mod_lt num hd
  rcases Nat.lt_or_ge a (num / den) with hlt | hge
  · unfold halfEven
    split <;> omega
  · have hexp : (2 * a + 1) * den = 2 * (den * a) + den := by ring
    have hmul : den * (num / den) ≤ den * a := Nat.mul_le_mul_left den hge
    have heq : num / den = a := by
      by_contra hne
      have hstep : den * (num / den + 1) ≤ den * a :=
        Nat.mul_le_mul_left den (by omega)
      rw [Nat.mul_succ] at hstep
      omega
    have hrem : den < 2 * (num % den) := by omega
    unfold halfEven
    rw [if_neg (by omega)]
    omega

theorem halfEven_mono {num num' den : Nat} (h : num ≤ num') :
    halfEven num den ≤ halfEven num' den := by
  rcases Nat.lt_or_eq_of_le (Nat.div_le_div_right (c := den) h) with hlt | heq
  · have hup := halfEven_le num den
    have hdown : num' / den ≤ halfEven num' den := by
      unfold halfEven
      split <;> omega
    omega
  · -- with the same whole part the remainders decide
    have hdm := Nat.div_add_mod num den
    have hdm' := Nat.div_add_mod num' den
    rw [heq] at hdm
    have hrem : num % den ≤ num' % den := by omega
    unfold halfEven
    rw [heq]
    split <;> split <;> omega

namespace Format

/-! ## The spacing -/

/-- The spacing is the finest one, or the magnitude has its leading bit at the
top of the precision. -/
theorem spacing_cases (f : Format) (n : Nat) :
    f.spacing n = f.finest ∨
      f.finest < f.spacing n ∧ 2 ^ (f.precision - 1 + f.spacing n) ≤ n := by
  by_cases h : n.log2 + 1 - f.precision ≤ f.finest
  · exact .inl (by simp [spacing, h])
  · right
    have hsp : f.spacing n = n.log2 + 1 - f.precision := by simp [spacing, h]
    have hn : n ≠ 0 := by
      rintro rfl
      have := f.precision_pos
      simp at h
      omega
    refine ⟨by omega, ?_⟩
    have hexp : f.precision - 1 + f.spacing n = n.log2 := by
      have := f.precision_pos
      omega
    rw [hexp]
    exact Nat.log2_self_le hn

theorem nearest_eq_mul (f : Format) (num den : Nat) :
    f.nearest num den =
      halfEven num (den * 2 ^ f.spacing (num / den)) *
        2 ^ f.spacing (num / den) := by
  simp only [nearest, Nat.shiftLeft_eq]

/-- A magnitude that the format holds lies on the grid of any spacing it is met
with, or below its first binade. -/
theorem Holds.grid {f : Format} {v : Nat} (hv : f.Holds v) {sp : Nat}
    (hsp : f.finest ≤ sp) :
    (∃ a, v = a * 2 ^ sp) ∨
      (f.finest < sp ∧ v < 2 ^ (f.precision - 1 + sp)) := by
  obtain ⟨⟨c, e, hc, he, rfl⟩, -⟩ := hv
  simp only [Nat.shiftLeft_eq, Nat.one_mul] at hc ⊢
  rcases Nat.lt_or_ge e sp with hlt | hge
  · right
    refine ⟨by omega, ?_⟩
    calc c * 2 ^ e < 2 ^ f.precision * 2 ^ e :=
        Nat.mul_lt_mul_of_pos_right hc (by positivity)
      _ = 2 ^ (f.precision + e) := by rw [pow_add]
      _ ≤ 2 ^ (f.precision - 1 + sp) :=
        Nat.pow_le_pow_right (by decide) (by omega)
  · left
    refine ⟨c * 2 ^ (e - sp), ?_⟩
    rw [Nat.mul_assoc, ← pow_add]
    congr 2
    omega

/-! ## The nearest magnitude -/

theorem Holds.le_nearest {f : Format} {v num den : Nat} (hd : 0 < den)
    (hv : f.Holds v) (h : v * den ≤ num) : v ≤ f.nearest num den := by
  rw [nearest_eq_mul]
  have hpos : 0 < den * 2 ^ f.spacing (num / den) := by positivity
  rcases hv.grid (f.finest_le_spacing (num / den)) with ⟨a, rfl⟩ | ⟨hfine, hlt⟩
  · refine Nat.mul_le_mul_right _ (le_halfEven hpos ?_)
    calc a * (den * 2 ^ f.spacing (num / den)) =
        a * 2 ^ f.spacing (num / den) * den := by ring
      _ ≤ num := h
  · -- `v` is below the binade of the quotient, whose least number is on
    -- the grid
    rcases f.spacing_cases (num / den) with heq | ⟨-, hle⟩
    · omega
    · have hbin : 2 ^ (f.precision - 1) ≤
          halfEven num (den * 2 ^ f.spacing (num / den)) := by
        refine le_halfEven hpos ?_
        calc 2 ^ (f.precision - 1) * (den * 2 ^ f.spacing (num / den))
            = 2 ^ (f.precision - 1 + f.spacing (num / den)) * den := by ring
          _ ≤ num / den * den := Nat.mul_le_mul_right den hle
          _ ≤ num := Nat.div_mul_le_self num den
      calc v ≤ 2 ^ (f.precision - 1) * 2 ^ f.spacing (num / den) := by
            rw [← pow_add]
            exact Nat.le_of_lt hlt
        _ ≤ _ := Nat.mul_le_mul_right _ hbin

theorem Holds.nearest_le {f : Format} {v num den : Nat} (hd : 0 < den)
    (hv : f.Holds v) (h : num ≤ v * den) : f.nearest num den ≤ v := by
  rw [nearest_eq_mul]
  have hpos : 0 < den * 2 ^ f.spacing (num / den) := by positivity
  rcases hv.grid (f.finest_le_spacing (num / den)) with ⟨a, ha⟩ | ⟨hfine, hlt⟩
  · rw [ha]
    refine Nat.mul_le_mul_right _ (halfEven_le_of_le_mul hpos ?_)
    calc num ≤ v * den := h
      _ = a * (den * 2 ^ f.spacing (num / den)) := by rw [ha]; ring
  · exfalso
    rcases f.spacing_cases (num / den) with heq | ⟨-, hle⟩
    · omega
    · have hq : num / den ≤ v := Nat.div_le_of_le_mul (by rwa [Nat.mul_comm])
      omega

/-- Rounding fixes what the format holds. -/
theorem Holds.nearest_mul {f : Format} {v den : Nat} (hd : 0 < den)
    (hv : f.Holds v) :
    f.nearest (v * den) den = v :=
  Nat.le_antisymm (hv.nearest_le hd le_rfl) (hv.le_nearest hd le_rfl)

/-- Rounding keeps the order. -/
theorem nearest_mono (f : Format) {num num' den : Nat} (hd : 0 < den)
    (h : num ≤ num') :
    f.nearest num den ≤ f.nearest num' den := by
  have hq : num / den ≤ num' / den := Nat.div_le_div_right h
  have hbelow := f.lt_shiftLeft_spacing (num / den)
  have hbelow' := f.lt_shiftLeft_spacing (num' / den)
  simp only [Nat.shiftLeft_eq, Nat.one_mul] at hbelow hbelow'
  have hprec := f.precision_pos
  rw [nearest_eq_mul, nearest_eq_mul]
  rcases Nat.lt_trichotomy (f.spacing (num / den))
    (f.spacing (num' / den)) with hlt | heq | hgt
  · -- the least magnitude of the wider binade lies between the two
    have hfine := f.finest_le_spacing (num / den)
    rcases f.spacing_cases (num' / den) with heq | ⟨-, hle⟩
    · omega
    · have hpow : 2 ^ (f.precision + f.spacing (num / den)) ≤
          2 ^ (f.precision - 1 + f.spacing (num' / den)) :=
        Nat.pow_le_pow_right (by decide) (by omega)
      have hnum : num ≤
          2 ^ f.precision * (den * 2 ^ f.spacing (num / den)) := by
        calc num ≤ 2 ^ (f.precision + f.spacing (num / den)) * den :=
              Nat.le_of_lt ((Nat.div_lt_iff_lt_mul hd).mp hbelow)
          _ = 2 ^ f.precision * (den * 2 ^ f.spacing (num / den)) := by ring
      have hnum' :
          2 ^ (f.precision - 1) * (den * 2 ^ f.spacing (num' / den)) ≤
            num' := by
        calc 2 ^ (f.precision - 1) * (den * 2 ^ f.spacing (num' / den))
            = 2 ^ (f.precision - 1 + f.spacing (num' / den)) * den := by ring
          _ ≤ num' / den * den := Nat.mul_le_mul_right den hle
          _ ≤ num' := Nat.div_mul_le_self num' den
      calc halfEven num (den * 2 ^ f.spacing (num / den)) *
          2 ^ f.spacing (num / den)
          ≤ 2 ^ f.precision * 2 ^ f.spacing (num / den) :=
            Nat.mul_le_mul_right _ (halfEven_le_of_le_mul (by positivity) hnum)
        _ ≤ 2 ^ (f.precision - 1) * 2 ^ f.spacing (num' / den) := by
          rwa [← pow_add, ← pow_add]
        _ ≤ _ := Nat.mul_le_mul_right _ (le_halfEven (by positivity) hnum')
  · rw [heq]
    exact Nat.mul_le_mul_right _ (halfEven_mono h)
  · -- the spacing never shrinks
    exfalso
    have hfine := f.finest_le_spacing (num' / den)
    rcases f.spacing_cases (num / den) with heq | ⟨-, hle⟩
    · omega
    · have hpow : 2 ^ (f.precision + f.spacing (num' / den)) ≤
          2 ^ (f.precision - 1 + f.spacing (num / den)) :=
        Nat.pow_le_pow_right (by decide) (by omega)
      omega

/-- Past the middle between two multiples of the spacing, rounding
leaves the lower one. -/
theorem lt_nearest {f : Format} {num den a : Nat} (hd : 0 < den)
    (h : (2 * a + 1) * (den * 2 ^ f.spacing (num / den)) < 2 * num) :
    a * 2 ^ f.spacing (num / den) < f.nearest num den := by
  rw [nearest_eq_mul]
  exact Nat.mul_lt_mul_of_pos_right (lt_halfEven (by positivity) h)
    (by positivity)

end Format

end TileGrid
