import Mathlib.Algebra.Order.Floor.Semiring
import Mathlib.Data.Rat.Floor
import Mathlib.Tactic.FieldSimp
import TileGrid.Number.Bits
import TileGrid.Proofs.Number.Exact

/-!
# Rounding to nearest, said without its computation

`Format.nearest` works with whole parts and remainders of units. What it is for
is said here over the rationals: no other magnitude is closer to the exact
result, and where another is as close, the last bit of the one that is taken is
zero (`Magnitude.Nearest`). There is one such magnitude, and quotients and
products of whole numbers are it (`IsWhole.div_nearest`, `IsWhole.mul_nearest`).
-/

namespace TileGrid

/-! ## Distances in units -/

/-- How far `v` lies from `num / den`, in parts of `den`. -/
def distance (num den v : Nat) : Nat := ((v * den : Nat) - num : Int).natAbs

theorem distance_mul (num den a s : Nat) :
    distance num den (a * s) = distance num (den * s) a := by
  have hmul : a * s * den = a * (den * s) := by ring
  rw [distance, distance, hmul]

theorem halfEven_cases (num den : Nat) :
    (halfEven num den = num / den ∧
      (2 * (num % den) < den ∨ 2 * (num % den) = den ∧ num / den % 2 = 0)) ∨
    (halfEven num den = num / den + 1 ∧
      (den < 2 * (num % den) ∨ 2 * (num % den) = den ∧ num / den % 2 = 1)) := by
  unfold halfEven
  split
  · rename_i hdown
    exact .inl ⟨rfl, hdown⟩
  · rename_i hup
    exact .inr ⟨rfl, by omega⟩

/-- The nearest whole number is at most one half away. Where it is one half
away, it is even. -/
theorem distance_halfEven (num : Nat) {den : Nat} (hd : 0 < den) :
    2 * distance num den (halfEven num den) ≤ den ∧
      (2 * distance num den (halfEven num den) = den →
        halfEven num den % 2 = 0) := by
  have hdm := Nat.div_add_mod num den
  have hr := Nat.mod_lt num hd
  have hdown : num / den * den = den * (num / den) := Nat.mul_comm _ _
  have hup : (num / den + 1) * den = den * (num / den) + den := by ring
  unfold distance
  rcases halfEven_cases num den with ⟨heq, h⟩ | ⟨heq, h⟩
  · rw [heq, hdown]
    omega
  · rw [heq, hup]
    omega

theorem distance_halfEven_le {num den : Nat} (hd : 0 < den) (a : Nat) :
    distance num den (halfEven num den) ≤ distance num den a := by
  have hhalf := (distance_halfEven num hd).1
  generalize halfEven num den = b at hhalf ⊢
  unfold distance at hhalf ⊢
  rcases Nat.lt_trichotomy a b with hlt | rfl | hgt
  · have hstep := Nat.mul_le_mul_right den (Nat.succ_le_of_lt hlt)
    rw [Nat.succ_mul] at hstep
    omega
  · exact le_rfl
  · have hstep := Nat.mul_le_mul_right den (Nat.succ_le_of_lt hgt)
    rw [Nat.succ_mul] at hstep
    omega

/-- Another whole number that is as near is its neighbour, on the other side
of the quotient. -/
theorem neighbour_of_distance_eq {num den a : Nat} (hd : 0 < den)
    (hne : a ≠ halfEven num den)
    (heq : distance num den a = distance num den (halfEven num den)) :
    halfEven num den % 2 = 0 ∧
      (a + 1 = halfEven num den ∧ a * den < num ∧ num < halfEven num den * den ∨
        a = halfEven num den + 1 ∧ halfEven num den * den < num ∧
        num < a * den) := by
  obtain ⟨hhalf, heven⟩ := distance_halfEven num hd
  generalize halfEven num den = b at hne heq hhalf heven ⊢
  unfold distance at heq hhalf heven
  rcases Nat.lt_or_gt_of_ne hne with hlt | hgt
  · have hstep := Nat.mul_le_mul_right den (Nat.succ_le_of_lt hlt)
    have hcancel : b * den ≤ (a + 1) * den → b ≤ a + 1 :=
      fun h => Nat.le_of_mul_le_mul_right h hd
    rw [Nat.succ_mul] at hstep hcancel
    exact ⟨heven (by omega), .inl ⟨by omega, by omega, by omega⟩⟩
  · have hstep := Nat.mul_le_mul_right den (Nat.succ_le_of_lt hgt)
    have hcancel : a * den ≤ (b + 1) * den → a ≤ b + 1 :=
      fun h => Nat.le_of_mul_le_mul_right h hd
    rw [Nat.succ_mul] at hstep hcancel
    exact ⟨heven (by omega), .inr ⟨by omega, by omega, by omega⟩⟩

namespace Format

variable {f : Format} {v num den : Nat}

/-- A magnitude below the binade of the quotient is farther away than the
least of the binade. -/
theorem distance_lt_of_below (hd : 0 < den)
    (hfine : f.finest < f.spacing (num / den))
    (hv : v < 2 ^ (f.precision - 1 + f.spacing (num / den))) :
    distance num den (f.nearest num den) < distance num den v := by
  rcases f.spacing_cases (num / den) with heq | ⟨-, hle⟩
  · omega
  · have hleast : 2 ^ (f.precision - 1 + f.spacing (num / den)) * den ≤ num :=
      (Nat.mul_le_mul_right den hle).trans (Nat.div_mul_le_self num den)
    have hbelow := Nat.mul_lt_mul_of_pos_right hv hd
    have hnear : distance num den (f.nearest num den) ≤
        distance num den (2 ^ (f.precision - 1 + f.spacing (num / den))) := by
      rw [nearest_eq_mul, pow_add, distance_mul, distance_mul]
      exact distance_halfEven_le (by positivity) _
    refine hnear.trans_lt ?_
    unfold distance
    omega

/-- **No magnitude of the format is nearer.** -/
theorem Holds.distance_nearest_le (hd : 0 < den) (hv : f.Holds v) :
    distance num den (f.nearest num den) ≤ distance num den v := by
  rcases hv.grid (f.finest_le_spacing (num / den)) with ⟨a, rfl⟩ | ⟨hfine, hlt⟩
  · rw [nearest_eq_mul, distance_mul, distance_mul]
    exact distance_halfEven_le (by positivity) a
  · exact (distance_lt_of_below hd hfine hlt).le

/-- A magnitude that is as near is a neighbour on the same grid. -/
theorem Holds.neighbour_of_distance_eq (hd : 0 < den) (hv : f.Holds v)
    (hne : v ≠ f.nearest num den)
    (heq : distance num den v = distance num den (f.nearest num den)) :
    ∃ a b d, d = den * 2 ^ f.spacing (num / den) ∧ b = halfEven num d ∧
      v = a * 2 ^ f.spacing (num / den) ∧ b % 2 = 0 ∧
      (a + 1 = b ∧ a * d < num ∧ num < b * d ∨
        a = b + 1 ∧ b * d < num ∧ num < a * d) := by
  rcases hv.grid (f.finest_le_spacing (num / den)) with ⟨a, rfl⟩ | ⟨hfine, hlt⟩
  · rw [nearest_eq_mul, distance_mul, distance_mul] at heq
    refine ⟨a, _, _, rfl, rfl, rfl,
      TileGrid.neighbour_of_distance_eq (by positivity) ?_ heq⟩
    rintro rfl
    exact hne (nearest_eq_mul f num den).symm
  · have hlt := distance_lt_of_below hd hfine hlt
    omega

end Format

/-! ## The last bit -/

namespace Number

/-- A magnitude with its leading bit at the top of the precision, or with the
finest spacing, has the last bit of its significand. -/
theorem magnitudeBits_mod_two {c e : Nat} (hc : c < 2 ^ 53)
    (h : 2 ^ 52 ≤ c ∨ e = 0) :
    magnitudeBits (c * 2 ^ e) % 2 = c % 2 := by
  have h52 : 1 <<< 52 = 2 ^ 52 := by decide
  by_cases hnormal : 2 ^ 52 ≤ c
  · have hge : 2 ^ 52 ≤ c * 2 ^ e :=
      hnormal.trans (Nat.le_mul_of_pos_right c (by positivity))
    have hlog : (c * 2 ^ e).log2 = 52 + e := by
      rw [Nat.log2_eq_iff (by omega), pow_add, Nat.add_right_comm, pow_add]
      exact ⟨Nat.mul_le_mul_right _ hnormal,
        Nat.mul_lt_mul_of_pos_right hc (by positivity)⟩
    have hshift : (c * 2 ^ e) >>> e = c := by
      rw [Nat.shiftRight_eq_div_pow, Nat.mul_div_cancel _ (by positivity)]
    rw [magnitudeBits, h52, if_neg (by omega), hlog, Nat.add_sub_cancel_left]
    dsimp only
    rw [hshift, Nat.shiftLeft_eq]
    omega
  · have he : e = 0 := by omega
    rw [he, pow_zero, Nat.mul_one, magnitudeBits, h52, if_pos (by omega)]

/-- The last bit is zero where the rounding carried into one more bit. -/
theorem magnitudeBits_carried (e : Nat) :
    magnitudeBits (2 ^ 53 * 2 ^ e) % 2 = 0 := by
  have h : 2 ^ 53 * 2 ^ e = 2 ^ 52 * 2 ^ (e + 1) := by ring
  rw [h, magnitudeBits_mod_two (by decide) (.inl le_rfl)]
  decide

end Number

namespace Format

variable {num den : Nat}

/-- What the format rounds to has a significand of its precision, or carried
into one more bit. -/
theorem halfEven_bounds (num : Nat) (hd : 0 < den) :
    halfEven num (den * 2 ^ binary64.spacing (num / den)) ≤ 2 ^ 53 ∧
      (2 ^ 52 * (den * 2 ^ binary64.spacing (num / den)) ≤ num ∨
        binary64.spacing (num / den) = 0) ∧
      num < 2 ^ 53 * (den * 2 ^ binary64.spacing (num / den)) := by
  have hpos : 0 < den * 2 ^ binary64.spacing (num / den) := by positivity
  have hbelow := binary64.lt_shiftLeft_spacing (num / den)
  rw [Nat.shiftLeft_eq, Nat.one_mul, Nat.div_lt_iff_lt_mul hd] at hbelow
  have htop : num < 2 ^ 53 * (den * 2 ^ binary64.spacing (num / den)) := by
    calc num < 2 ^ (binary64.precision + binary64.spacing (num / den)) * den :=
        hbelow
      _ = 2 ^ 53 * (den * 2 ^ binary64.spacing (num / den)) := by
          rw [pow_add, show binary64.precision = 53 from rfl]
          ring
  refine ⟨halfEven_le_of_le_mul hpos htop.le, ?_, htop⟩
  rcases binary64.spacing_cases (num / den) with hfine | ⟨-, hle⟩
  · exact .inr hfine
  · left
    calc 2 ^ 52 * (den * 2 ^ binary64.spacing (num / den))
        = 2 ^ (binary64.precision - 1 +
          binary64.spacing (num / den)) * den := by
          rw [pow_add, show binary64.precision - 1 = 52 from rfl]
          ring
      _ ≤ num / den * den := Nat.mul_le_mul_right den hle
      _ ≤ num := Nat.div_mul_le_self num den

/-- An even significand shows in the last bit. -/
theorem magnitudeBits_nearest (hd : 0 < den)
    (heven : halfEven num (den * 2 ^ binary64.spacing (num / den)) % 2 = 0) :
    Number.magnitudeBits (binary64.nearest num den) % 2 = 0 := by
  obtain ⟨hle, hbin, -⟩ := halfEven_bounds num hd
  have hnormal :
      2 ^ 52 ≤ halfEven num (den * 2 ^ binary64.spacing (num / den)) ∨
      binary64.spacing (num / den) = 0 :=
    hbin.imp_left (le_halfEven (by positivity))
  rw [nearest_eq_mul]
  rcases Nat.lt_or_eq_of_le hle with hlt | heq
  · rw [Number.magnitudeBits_mod_two hlt hnormal, heven]
  · rw [heq, Number.magnitudeBits_carried]

/-- On a tie, what the format rounds to has the last bit zero. -/
theorem Holds.magnitudeBits_nearest_of_tie {v : Nat} (hd : 0 < den)
    (hv : Format.binary64.Holds v) (hne : v ≠ Format.binary64.nearest num den)
    (heq : distance num den v =
      distance num den (Format.binary64.nearest num den)) :
    Number.magnitudeBits (Format.binary64.nearest num den) % 2 = 0 := by
  obtain ⟨a, b, d, rfl, rfl, -, heven, -⟩ :=
    hv.neighbour_of_distance_eq hd hne heq
  exact magnitudeBits_nearest hd heven

/-- The other one has the last bit set: its significand is next to an
even one. -/
theorem Holds.magnitudeBits_of_tie {v : Nat} (hd : 0 < den)
    (hv : Format.binary64.Holds v) (hne : v ≠ Format.binary64.nearest num den)
    (heq : distance num den v =
      distance num den (Format.binary64.nearest num den)) :
    Number.magnitudeBits v % 2 = 1 := by
  obtain ⟨a, b, d, hdef, hb, ha, heven, hside⟩ :=
    hv.neighbour_of_distance_eq hd hne heq
  obtain ⟨hle, hbin, htop⟩ := halfEven_bounds num hd
  rw [← hdef] at hle hbin htop
  rw [← hb] at hle
  have hsmall : a < 2 ^ 53 := by
    rcases hside with ⟨hup, -, -⟩ | ⟨hdown, hlt, -⟩
    · omega
    · have hlt := Nat.lt_of_mul_lt_mul_right (hlt.trans htop)
      omega
  have hnormal : 2 ^ 52 ≤ a ∨ Format.binary64.spacing (num / den) = 0 := by
    refine hbin.imp_left fun hbin => ?_
    rcases hside with ⟨hup, -, hlt⟩ | ⟨hdown, -, hlt⟩
    · have hlt := Nat.lt_of_mul_lt_mul_right (hbin.trans_lt hlt)
      omega
    · exact (Nat.lt_of_mul_lt_mul_right (hbin.trans_lt hlt)).le
  rw [ha, Number.magnitudeBits_mod_two hsmall hnormal]
  omega

end Format

/-! ## The nearest magnitude -/

theorem unitsPerOne_cast_ne_zero : (unitsPerOne : ℚ) ≠ 0 :=
  Nat.cast_ne_zero.mpr unitsPerOne_pos.ne'

namespace Magnitude

/-- The rational that a magnitude stands for. -/
def value (m : Magnitude) : ℚ := m.units / unitsPerOne

theorem value_eq_iff {m : Magnitude} {n : Nat} :
    m.value = n ↔ m.units = n * unitsPerOne := by
  rw [value, div_eq_iff unitsPerOne_cast_ne_zero]
  norm_cast

/-- The magnitude nearest to a rational. Of two that are as near, it is the one
whose last bit is zero. -/
structure Nearest (m : Magnitude) (q : ℚ) : Prop where
  closest : ∀ v : Magnitude, |m.value - q| ≤ |v.value - q|
  even : ∀ v : Magnitude, v ≠ m → |v.value - q| = |m.value - q| →
    Number.magnitudeBits m.units % 2 = 0

variable {num den : Nat}

theorem abs_value_sub (hd : 0 < den) (m : Magnitude) :
    |m.value - num / (den * unitsPerOne)| =
      (distance num den m.units : ℚ) / (den * unitsPerOne) := by
  have hd' : (0 : ℚ) < den := by exact_mod_cast hd
  have hu : (0 : ℚ) < unitsPerOne := by exact_mod_cast unitsPerOne_pos
  have hsub : m.value - num / (den * unitsPerOne) =
      ((m.units : ℚ) * den - num) / (den * unitsPerOne) := by
    rw [value]
    field_simp
  rw [hsub, abs_div, abs_of_pos (mul_pos hd' hu), distance, Nat.cast_natAbs]
  push_cast
  rfl

theorem abs_value_sub_le_iff (hd : 0 < den) (m v : Magnitude) :
    |m.value - num / (den * unitsPerOne)| ≤ |v.value - num /
      (den * unitsPerOne)| ↔
      distance num den m.units ≤ distance num den v.units := by
  have hd' : (0 : ℚ) < den := by exact_mod_cast hd
  have hu : (0 : ℚ) < unitsPerOne := by exact_mod_cast unitsPerOne_pos
  rw [abs_value_sub hd, abs_value_sub hd,
    div_le_div_iff_of_pos_right (mul_pos hd' hu), Nat.cast_le]

theorem abs_value_sub_eq_iff (hd : 0 < den) (m v : Magnitude) :
    |m.value - num / (den * unitsPerOne)| = |v.value - num /
      (den * unitsPerOne)| ↔
      distance num den m.units = distance num den v.units := by
  rw [le_antisymm_iff, abs_value_sub_le_iff hd, abs_value_sub_le_iff hd,
    ← le_antisymm_iff]

/-- **Rounding gives the nearest magnitude, and there is no other.** -/
theorem nearest_iff (hd : 0 < den)
    (hlim : Format.binary64.nearest num den < 1 <<< 2098) {m : Magnitude} :
    m.Nearest (num / (den * unitsPerOne)) ↔
      m.units = Format.binary64.nearest num den := by
  have hheld := Format.binary64.holds_nearest num den hlim
  constructor
  · intro h
    by_contra hne
    have hnear := h.closest ⟨_, hheld⟩
    rw [abs_value_sub_le_iff hd] at hnear
    have heq := Nat.le_antisymm hnear (m.held.distance_nearest_le hd)
    -- of two that are as near, the one that rounding does not give is odd
    have hodd := m.held.magnitudeBits_of_tie hd hne heq
    have heven := h.even ⟨_, hheld⟩ (fun hm => hne (congrArg units hm).symm)
      ((abs_value_sub_eq_iff hd _ _).mpr heq.symm)
    omega
  · intro h
    have hm : m = ⟨_, hheld⟩ := Magnitude.eq_of_units h
    rw [hm]
    constructor
    · intro v
      rw [abs_value_sub_le_iff hd]
      exact v.held.distance_nearest_le hd
    · intro v hne heq
      rw [abs_value_sub_eq_iff hd] at heq
      exact v.held.magnitudeBits_nearest_of_tie hd
        (fun hv => hne (Magnitude.eq_of_units hv)) heq

/-- Rounding a quotient that is not above a held magnitude does not overflow,
and gives the nearest. -/
theorem exists_nearest {v : Nat} (hd : 0 < den) (hv : Format.binary64.Holds v)
    (h : num ≤ v * den) :
    ∃ q : Magnitude, q.units = Format.binary64.nearest num den ∧
      (∀ s, Number.round .binary64 s num den = .finite s q) ∧
      ∀ p : Magnitude, p.Nearest (num / (den * unitsPerOne)) ↔ p = q := by
  have hlim := Nat.lt_of_le_of_lt (hv.nearest_le hd h) hv.2
  refine ⟨⟨_, Format.binary64.holds_nearest num den hlim⟩, rfl, fun s => ?_,
    fun p => ?_⟩
  · rw [Number.round, dif_pos hlim]
  · rw [nearest_iff hd hlim]
    exact ⟨fun hp => Magnitude.eq_of_units hp, congrArg units⟩

end Magnitude

namespace Number

/-- **A quotient of whole numbers is the magnitude nearest to the
exact one.** -/
theorem IsWhole.div_nearest {x y : Number} {g l : Nat} (hx : x.IsWhole g)
    (hy : y.IsWhole l) (hg : 0 < g) (hl : 0 < l) :
    ∃ q : Magnitude,
      q.units = Format.binary64.nearest (g * unitsPerOne * unitsPerOne)
        (l * unitsPerOne) ∧
      x / y = finite false q ∧ ∀ p : Magnitude,
        p.Nearest ((g : ℚ) / l) ↔ p = q := by
  have hden : 0 < l * unitsPerOne := Nat.mul_pos hl unitsPerOne_pos
  have hle : g * unitsPerOne * unitsPerOne ≤
      g * unitsPerOne * (l * unitsPerOne) :=
    Nat.mul_le_mul_left _ (Nat.le_mul_of_pos_left _ hl)
  obtain ⟨q, hunits, hround, hnear⟩ :=
    Magnitude.exists_nearest hden hx.holds hle
  have hl' : (l : ℚ) ≠ 0 := Nat.cast_ne_zero.mpr hl.ne'
  have hu := unitsPerOne_cast_ne_zero
  have hexact : ((g * unitsPerOne * unitsPerOne : Nat) : ℚ) /
      ((l * unitsPerOne : Nat) * unitsPerOne) =
      (g : ℚ) / l := by
    push_cast
    field_simp
  rw [hexact] at hnear
  refine ⟨q, hunits, ?_, hnear⟩
  rw [hx.eq_ofNat hg, hy.eq_ofNat hl, ofNat_eq hx.holds, ofNat_eq hy.holds,
    div_finite _ _ _ _ hden.ne']
  exact hround false

/-- A product of whole numbers rounds to a whole number. -/
theorem exists_whole_nearest (n : Nat) {q : Magnitude}
    (hq : q.units = Format.binary64.nearest (n * unitsPerOne * unitsPerOne)
      unitsPerOne) :
    ∃ o, q.units = o * unitsPerOne ∧ (n = 0 → o = 0) := by
  rcases Nat.le_total n safeLimit with hle | hge
  · exact ⟨n, by rw [hq, (holds_whole hle).nearest_mul unitsPerOne_pos], id⟩
  · have hlarge : safeLimit * unitsPerOne ≤ q.units := by
      rw [hq]
      refine (holds_whole le_rfl).le_nearest unitsPerOne_pos ?_
      exact Nat.mul_le_mul_right _ (Nat.mul_le_mul_right _ hge)
    obtain ⟨o, ho⟩ := exists_whole_of_holds q.held hlarge
    have hpos : 0 < safeLimit := by decide
    exact ⟨o, ho, by omega⟩

/-- **A product of whole numbers is the whole number nearest to the exact one**,
where that is not above a whole number of the format. -/
theorem IsWhole.mul_nearest {x y z : Number} {m n k : Nat} (hx : x.IsWhole m)
    (hy : y.IsWhole n) (hz : z.IsWhole k) (h : m * n ≤ k) :
    ∃ o ≤ k, (x * y).IsWhole o ∧ ∀ p : Magnitude, p.Nearest ((m : ℚ) * n) ↔
      p.value = o := by
  have hle : m * n * unitsPerOne * unitsPerOne ≤
      k * unitsPerOne * unitsPerOne :=
    Nat.mul_le_mul_right _ (Nat.mul_le_mul_right _ h)
  obtain ⟨q, hunits, hround, hnear⟩ :=
    Magnitude.exists_nearest unitsPerOne_pos hz.holds hle
  obtain ⟨o, ho, hzero⟩ := exists_whole_nearest _ hunits
  have htop := hz.holds.nearest_le unitsPerOne_pos hle
  rw [← hunits, ho] at htop
  refine ⟨o, Nat.le_of_mul_le_mul_right htop unitsPerOne_pos, ?_, fun p => ?_⟩
  · obtain ⟨s, a, rfl, ha, hs⟩ := hx
    obtain ⟨t, b, rfl, hb, ht⟩ := hy
    have hprod : a.units * b.units = m * n * unitsPerOne * unitsPerOne := by
      rw [ha, hb]
      ring
    rw [mul_finite, hprod, hround]
    refine ⟨_, _, rfl, ho, fun hst => hzero ?_⟩
    cases s
    · cases t
      · simp at hst
      · rw [ht rfl, Nat.mul_zero]
    · rw [hs rfl, Nat.zero_mul]
  · have hu := unitsPerOne_cast_ne_zero
    have hexact : ((m * n * unitsPerOne * unitsPerOne : Nat) : ℚ) /
        (unitsPerOne * unitsPerOne) =
        (m : ℚ) * n := by
      push_cast
      field_simp
    rw [← hexact, hnear, Magnitude.value_eq_iff, ← ho]
    exact ⟨congrArg Magnitude.units, Magnitude.eq_of_units⟩

end Number

end TileGrid
