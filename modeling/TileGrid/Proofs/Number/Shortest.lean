import Mathlib.Algebra.Order.Field.Power
import Mathlib.Data.Nat.Cast.Order.Field
import TileGrid.Number.Decimal
import TileGrid.Proofs.Number.Nearest

/-!
# Seventeen digits read back

`Decimal.shortest` tries the two neighbours of a number on one decimal grid
after the other. With seventeen digits the grid is finer than the numbers are
dense: a neighbour on it is nearer to the number than half of the way to the
next one (`Format.Holds.nearest_of_close`), so the search comes to an end, and
what it finds reads back (`read_shortest`).
-/

namespace TileGrid

/-! ## Quotients that are equal -/

theorem halfEven_mul_mul (num den : Nat) {k : Nat} (hk : 0 < k) :
    halfEven (num * k) (den * k) = halfEven num den := by
  have hlt : 2 * (num % den * k) < den * k ↔ 2 * (num % den) < den := by
    rw [← Nat.mul_assoc]
    exact Nat.mul_lt_mul_right hk
  have heq : 2 * (num % den * k) = den * k ↔ 2 * (num % den) = den := by
    rw [← Nat.mul_assoc]
    exact Nat.mul_left_inj hk.ne'
  unfold halfEven
  simp only [Nat.mul_mod_mul_right, Nat.mul_div_mul_right _ _ hk, hlt, heq]

namespace Format

theorem nearest_mul_mul (f : Format) (num den : Nat) {k : Nat} (hk : 0 < k) :
    f.nearest (num * k) (den * k) = f.nearest num den := by
  have hscale : ∀ s, (den * k) <<< s = den <<< s * k := by
    intro s
    rw [Nat.shiftLeft_eq, Nat.shiftLeft_eq, Nat.mul_right_comm]
  unfold nearest
  rw [Nat.mul_div_mul_right _ _ hk, hscale, halfEven_mul_mul _ _ hk]

/-- Rounding depends on the quotient alone. -/
theorem nearest_congr (f : Format) {num den num' den' : Nat} (hd : 0 < den)
    (hd' : 0 < den') (h : num * den' = num' * den) :
    f.nearest num den = f.nearest num' den' := by
  rw [← f.nearest_mul_mul num den hd', h, Nat.mul_comm den den',
    f.nearest_mul_mul num' den' hd]

/-! ## Rounding near a magnitude -/

theorem two_pow_le_of_dvd {k v w : Nat} (hv : 2 ^ k ∣ v) (hw : 2 ^ k ∣ w)
    (hlt : w < v) : 2 ^ k ≤ v - w :=
  Nat.le_of_dvd (Nat.sub_pos_of_lt hlt) (Nat.dvd_sub hv hw)

/-- Significands of `p` bits put numbers apart by no less than the
`2 ^ p`-th part of either. -/
theorem le_gap_mul {p c e c' e' v w : Nat} (hp : 0 < p) (hc : c < 2 ^ p)
    (hc' : c' < 2 ^ p) (hv : v = c * 2 ^ e) (hw : w = c' * 2 ^ e') :
    (w < v → v ≤ (v - w) * 2 ^ p) ∧ (v < w → v ≤ (w - v) * 2 ^ p) := by
  have hvlt : v < 2 ^ (p + e) := by
    rw [hv, pow_add]
    exact Nat.mul_lt_mul_of_pos_right hc (by positivity)
  have hwlt : w < 2 ^ (p + e') := by
    rw [hw, pow_add]
    exact Nat.mul_lt_mul_of_pos_right hc' (by positivity)
  have hdvd : ∀ k, k ≤ e → 2 ^ k ∣ v := fun k hk =>
    hv ▸ (pow_dvd_pow 2 hk).mul_left c
  have hdvd' : ∀ k, k ≤ e' → 2 ^ k ∣ w := fun k hk =>
    hw ▸ (pow_dvd_pow 2 hk).mul_left c'
  -- one step of the finer of the two grids is enough below `2 ^ (p + k)`
  have hstep : ∀ k d, v ≤ 2 ^ (p + k) → 2 ^ k ≤ d → v ≤ d * 2 ^ p := by
    intro k d hle hd
    calc v ≤ 2 ^ (p + k) := hle
      _ = 2 ^ k * 2 ^ p := by rw [pow_add, Nat.mul_comm]
      _ ≤ d * 2 ^ p := Nat.mul_le_mul_right _ hd
  constructor
  · intro hlt
    rcases Nat.le_total e e' with hle | hle
    · exact hstep e _ hvlt.le
        (two_pow_le_of_dvd (hdvd e le_rfl) (hdvd' e hle) hlt)
    · rcases Nat.lt_or_ge (2 ^ (p + e')) v with htop | htop
      · -- `w` lies below `2 ^ (p + e')`, and `v` one step or more above
        have hgap : v - 2 ^ (p + e') ≤ v - w := by omega
        rcases Nat.le_total e (p + e') with he | he
        · have hmid := two_pow_le_of_dvd (hdvd e le_rfl) (pow_dvd_pow 2 he) htop
          exact hstep e _ hvlt.le (hmid.trans hgap)
        · have hmid := two_pow_le_of_dvd (hdvd _ he) dvd_rfl htop
          have htwo : 2 ≤ 2 ^ p := Nat.le_self_pow hp.ne' 2
          calc v ≤ (v - w) * 2 := by omega
            _ ≤ (v - w) * 2 ^ p := Nat.mul_le_mul_left _ htwo
      · exact hstep e' _ htop
          (two_pow_le_of_dvd (hdvd e' hle) (hdvd' e' le_rfl) hlt)
  · intro hlt
    rcases Nat.le_total e e' with hle | hle
    · exact hstep e _ hvlt.le
        (two_pow_le_of_dvd (hdvd' e hle) (hdvd e le_rfl) hlt)
    · exact hstep e' _ (hlt.trans hwlt).le
        (two_pow_le_of_dvd (hdvd' e' le_rfl) (hdvd e' hle) hlt)

/-- **What is near enough to a magnitude of the format rounds to it.** -/
theorem Holds.nearest_of_close {f : Format} {v num den : Nat} (hd : 0 < den)
    (hv : f.Holds v)
    (hclose : 2 ^ (f.precision + 1) * distance num den v < v * den) :
    f.nearest num den = v := by
  have hnear : distance num den (f.nearest num den) ≤ distance num den v :=
    hv.distance_nearest_le hd
  obtain ⟨⟨c, e, hc, -, hv⟩, -⟩ := hv
  obtain ⟨c', e', hc', -, hw⟩ := f.nearest_eq num den
  simp only [Nat.shiftLeft_eq, Nat.one_mul] at hc hc' hv hw
  obtain ⟨habove, hbelow⟩ := le_gap_mul f.precision_pos hc hc' hv hw
  generalize f.nearest num den = w at hnear hw habove hbelow
  -- the way from one to the other is at most twice the distance
  have hway : ∀ d, d * den ≤ 2 * distance num den v → v ≤ d * 2 ^ f.precision →
      False := by
    intro d hd hle
    have hmul := Nat.mul_le_mul_right (2 ^ f.precision) hd
    have hden := Nat.mul_le_mul_right den hle
    have hleft : d * den * 2 ^ f.precision =
        d * 2 ^ f.precision * den := by ring
    have hright : 2 * distance num den v * 2 ^ f.precision =
        2 ^ (f.precision + 1) * distance num den v := by ring
    omega
  unfold distance at hway hnear
  rcases Nat.lt_trichotomy w v with hlt | rfl | hgt
  · refine (hway (v - w) ?_ (habove hlt)).elim
    have hstep := Nat.mul_le_mul_right den hlt.le
    rw [Nat.sub_mul]
    omega
  · rfl
  · refine (hway (w - v) ?_ (hbelow hgt)).elim
    have hstep := Nat.mul_le_mul_right den hgt.le
    rw [Nat.sub_mul]
    omega

end Format

/-! ## Values of decimals -/

namespace Decimal

variable {d d' : Decimal} {units : Nat}

/-- The rational number that a decimal stands for. -/
def value (d : Decimal) : ℚ := d.digits * 10 ^ d.exponent

theorem ten_zpow_pos (e : Int) : (0 : ℚ) < 10 ^ e := by positivity

theorem toNat_sub_toNat_neg (e : Int) :
    (10 : ℚ) ^ e.toNat / 10 ^ (-e).toNat = 10 ^ e := by
  rw [← zpow_natCast, ← zpow_natCast, ← zpow_sub₀ (by norm_num)]
  congr 1
  omega

theorem value_eq (d : Decimal) :
    d.value = (d.digits * 10 ^ d.exponent.toNat : Nat) /
      (10 ^ (-d.exponent).toNat : Nat) := by
  push_cast
  rw [mul_div_assoc, toNat_sub_toNat_neg, value]

theorem read_eq (d : Decimal) :
    d.read = Format.binary64.nearest
      (d.digits * 10 ^ d.exponent.toNat * unitsPerOne)
      (10 ^ (-d.exponent).toNat) := rfl

/-- Reading depends on the value alone. -/
theorem read_congr (h : d.value = d'.value) : d.read = d'.read := by
  have hpos : ∀ e : Int, ((10 ^ (-e).toNat : Nat) : ℚ) ≠ 0 := by
    intro e
    positivity
  rw [value_eq, value_eq, div_eq_div_iff (hpos _) (hpos _)] at h
  rw [← Nat.cast_mul, ← Nat.cast_mul, Nat.cast_inj] at h
  simp only [read_eq]
  apply Format.nearest_congr _ (by positivity) (by positivity)
  rw [Nat.mul_right_comm, h, Nat.mul_right_comm]

theorem digits_pos (h : d.read = units) (hpos : 0 < units) : 0 < d.digits := by
  rcases Nat.eq_zero_or_pos d.digits with hzero | hdigits
  · rw [read_eq, hzero, Nat.zero_mul, Nat.zero_mul] at h
    simp [Format.nearest, halfEven] at h
    omega
  · exact hdigits

/-! ## One grid -/

/-- The quotient of which the neighbours are tried, as a rational number. -/
theorem grid_eq (units : Nat) (e : Int) :
    ((units * 10 ^ (-e).toNat : Nat) : ℚ) / (unitsPerOne * 10 ^ e.toNat : Nat) *
      10 ^ e = units / unitsPerOne := by
  have hone : (unitsPerOne : ℚ) ≠ 0 := Nat.cast_ne_zero.2 unitsPerOne_pos.ne'
  rw [← toNat_sub_toNat_neg e]
  push_cast
  field_simp

/-- The two neighbours that are tried, over a common denominator. -/
theorem onGrid?_eq (units : Nat) (e : Int) :
    ∃ num den, num = units * 10 ^ (-e).toNat ∧
      den = unitsPerOne * 10 ^ e.toNat ∧
      onGrid? units e =
        if read ⟨num / den, e⟩ = units then
          some (if read ⟨num / den + 1, e⟩ = units then ⟨halfEven num den, e⟩
            else ⟨num / den, e⟩)
        else if read ⟨num / den + 1, e⟩ = units then some ⟨num / den + 1, e⟩
        else none :=
  ⟨_, _, rfl, rfl, rfl⟩

/-- What is found on a grid is on it, reads back, and lies at most one step
above the number. -/
theorem onGrid?_eq_some {e : Int} (h : onGrid? units e = some d) :
    d.read = units ∧ d.exponent = e ∧
      d.value ≤ units / unitsPerOne + 10 ^ e := by
  obtain ⟨num, den, hnum, hden, heq⟩ := onGrid?_eq units e
  have hfound : d.read = units ∧ d.exponent = e ∧ d.digits ≤ num / den + 1 := by
    rw [heq] at h
    split_ifs at h with hbelow habove habove <;> cases h
    · rcases halfEven_cases num den with ⟨heven, -⟩ | ⟨heven, -⟩ <;> rw [heven]
      · exact ⟨hbelow, rfl, Nat.le_succ _⟩
      · exact ⟨habove, rfl, le_rfl⟩
    · exact ⟨hbelow, rfl, Nat.le_succ _⟩
    · exact ⟨habove, rfl, le_rfl⟩
  obtain ⟨hread, rfl, hle⟩ := hfound
  refine ⟨hread, rfl, ?_⟩
  have hquot : (d.digits : ℚ) ≤ num / den + 1 := by
    refine le_trans (Nat.cast_le.2 hle) ?_
    rw [Nat.cast_add, Nat.cast_one]
    exact add_le_add_left Nat.cast_div_le 1
  calc d.value ≤ (num / den + 1) * 10 ^ d.exponent :=
        mul_le_mul_of_nonneg_right hquot (ten_zpow_pos _).le
    _ = units / unitsPerOne + 10 ^ d.exponent := by
        rw [add_mul, one_mul, hnum, hden, grid_eq]

/-- **On a fine grid the nearer neighbour reads back**: one of which the steps
are no greater than a `10 ^ 16`-th part of the number. -/
theorem read_halfEven {e : Int} (hheld : Format.binary64.Holds units)
    (hfine : (10 : ℚ) ^ e * 10 ^ 16 ≤ units / unitsPerOne) :
    read ⟨halfEven (units * 10 ^ (-e).toNat) (unitsPerOne * 10 ^ e.toNat), e⟩ =
      units := by
  have hden : 0 < unitsPerOne * 10 ^ e.toNat :=
    Nat.mul_pos unitsPerOne_pos (by positivity)
  -- the fineness of the grid over the common denominator
  have hgrid : 10 ^ 16 * (unitsPerOne * 10 ^ e.toNat) ≤
      units * 10 ^ (-e).toNat := by
    rw [← grid_eq, mul_comm, mul_le_mul_iff_left₀ (ten_zpow_pos e),
      le_div_iff₀ (Nat.cast_pos.2 hden)] at hfine
    exact_mod_cast hfine
  have hhalf := (distance_halfEven (units * 10 ^ (-e).toNat) hden).1
  simp only [read_eq]
  refine hheld.nearest_of_close (by positivity) ?_
  have hside :
      ∀ n, distance (n * 10 ^ e.toNat * unitsPerOne) (10 ^ (-e).toNat) units =
      distance (units * 10 ^ (-e).toNat) (unitsPerOne * 10 ^ e.toNat) n := by
    intro n
    have hcomm : n * 10 ^ e.toNat * unitsPerOne =
        n * (unitsPerOne * 10 ^ e.toNat) := by ring
    unfold distance
    omega
  rw [hside, show Format.binary64.precision + 1 = 54 from rfl]
  omega

theorem onGrid?_isSome {e : Int} (hheld : Format.binary64.Holds units)
    (hfine : (10 : ℚ) ^ e * 10 ^ 16 ≤ units / unitsPerOne) :
    (onGrid? units e).isSome := by
  have hread := read_halfEven hheld hfine
  obtain ⟨num, den, hnum, hden, heq⟩ := onGrid?_eq units e
  rw [← hnum, ← hden] at hread
  rw [heq]
  rcases halfEven_cases num den with ⟨heven, -⟩ | ⟨heven, -⟩ <;>
    rw [heven] at hread
  · rw [if_pos hread, Option.isSome_some]
  · rw [if_pos hread]
    split_ifs <;> rfl

/-! ## The place of the point -/

theorem pow_length_toDigits {n : Nat} (hn : 0 < n) :
    10 ^ ((Nat.toDigits 10 n).length - 1) ≤ n ∧
      n < 10 ^ (Nat.toDigits 10 n).length := by
  have hpos := Nat.length_toDigits_pos (b := 10) (n := n)
  refine ⟨?_, (Nat.length_toDigits_le_iff (by omega) hpos).1 le_rfl⟩
  rcases Nat.eq_zero_or_pos ((Nat.toDigits 10 n).length - 1) with hone | hmore
  · rw [hone]
    exact hn
  · have hnot :=
      (Nat.length_toDigits_le_iff (b := 10) (n := n) (by omega) hmore).not
    rw [Nat.not_lt] at hnot
    exact hnot.1 (by omega)

theorem pow_length_sub {k n : Nat} (hn : units * 10 ^ k / unitsPerOne = n)
    (hpos : 0 < n) :
    (10 : ℚ) ^ ((Nat.toDigits 10 n).length - (k : Int) - 1) ≤
      units / unitsPerOne ∧
      units / unitsPerOne <
        (10 : ℚ) ^ ((Nat.toDigits 10 n).length - (k : Int)) := by
  obtain ⟨hle, hlt⟩ := pow_length_toDigits hpos
  have hlength := Nat.length_toDigits_pos (b := 10) (n := n)
  rw [← hn, Nat.div_lt_iff_lt_mul unitsPerOne_pos, hn] at hlt
  rw [← hn, Nat.le_div_iff_mul_le unitsPerOne_pos, hn] at hle
  generalize (Nat.toDigits 10 n).length = length at hle hlt hlength ⊢
  have hone : (0 : ℚ) < unitsPerOne := Nat.cast_pos.2 unitsPerOne_pos
  have hten : (0 : ℚ) < 10 ^ (k : Int) := ten_zpow_pos k
  constructor
  · rw [← mul_le_mul_iff_left₀ hten, ← zpow_add₀ (by norm_num),
      div_mul_eq_mul_div, le_div_iff₀ hone]
    have hexp : (length : Int) - k - 1 + k = (length - 1 : Nat) := by omega
    rw [hexp, zpow_natCast, zpow_natCast]
    exact_mod_cast hle
  · rw [← mul_lt_mul_iff_left₀ hten, ← zpow_add₀ (by norm_num),
      div_mul_eq_mul_div, div_lt_iff₀ hone, sub_add_cancel, zpow_natCast,
      zpow_natCast]
    exact_mod_cast hlt

theorem unitsPerOne_le : unitsPerOne ≤ 10 ^ deepestPlace := by
  decide +kernel

/-- The point stands right of the first digit as far as the number is great. -/
theorem pow_pointOf (hpos : 0 < units) :
    (10 : ℚ) ^ (pointOf units - 1) ≤ units / unitsPerOne ∧
      units / unitsPerOne < (10 : ℚ) ^ pointOf units := by
  simp only [pointOf, Nat.pow_eq]
  split
  · rename_i hle
    have h := @pow_length_sub units 0 _ rfl
    rw [pow_zero, Nat.mul_one] at h
    simpa only [Nat.cast_zero, sub_zero] using
      h (Nat.div_pos hle unitsPerOne_pos)
  · have hdeep : 0 < units * 10 ^ deepestPlace / unitsPerOne :=
      Nat.div_pos (unitsPerOne_le.trans (Nat.le_mul_of_pos_left _ hpos))
        unitsPerOne_pos
    generalize hn : units * 10 ^ deepestPlace / unitsPerOne = n at hdeep ⊢
    exact pow_length_sub hn hdeep

/-! ## The search -/

theorem shortest_onGrid (hpos : 0 < units)
    (hheld : Format.binary64.Holds units) :
    ∃ k < 17, onGrid? units (pointOf units - (k + 1 : Nat)) =
      some (shortest units) := by
  -- the last grid of the search is fine enough
  have hfine : (10 : ℚ) ^ (pointOf units - (16 + 1 : Nat)) * 10 ^ 16 ≤
      units / unitsPerOne := by
    refine le_of_eq_of_le ?_ (pow_pointOf hpos).1
    rw [← zpow_natCast, ← zpow_add₀ (by norm_num)]
    congr 1
    omega
  have hsome : ((List.range 17).findSome? fun (k : Nat) =>
      onGrid? units (pointOf units - (k + 1 : Nat))).isSome :=
    List.findSome?_isSome_iff.2 ⟨16, by decide, onGrid?_isSome hheld hfine⟩
  obtain ⟨d, hd⟩ := Option.isSome_iff_exists.1 hsome
  obtain ⟨k, hk, hfound⟩ := List.exists_of_findSome?_eq_some hd
  refine ⟨k, List.mem_range.1 hk, ?_⟩
  rw [hfound, shortest, hd, Option.getD_some]

/-- **The digits that are found read back.** -/
theorem read_shortest (hpos : 0 < units) (hheld : Format.binary64.Holds units) :
    (shortest units).read = units := by
  obtain ⟨k, -, hfound⟩ := shortest_onGrid hpos hheld
  exact (onGrid?_eq_some hfound).1

theorem unitsPerOne_limit_le :
    1 <<< Format.binary64.limit ≤ 10 ^ 309 * unitsPerOne := by
  decide +kernel

theorem le_pointOf (units : Nat) :
    1 - (deepestPlace : Int) ≤ pointOf units := by
  unfold pointOf
  split
  · have h := Nat.length_toDigits_pos (b := 10) (n := units / unitsPerOne)
    simp only [deepestPlace]
    omega
  · have h := Nat.length_toDigits_pos (b := 10)
      (n := units * Nat.pow 10 deepestPlace / unitsPerOne)
    omega

/-- The digits that are found stand for a number of a size that is read. -/
theorem value_shortest (hpos : 0 < units)
    (hheld : Format.binary64.Holds units) :
    (10 : ℚ) ^ (-340 : Int) ≤ (shortest units).value ∧
      (shortest units).value < (10 : ℚ) ^ (310 : Int) := by
  obtain ⟨k, hk, hfound⟩ := shortest_onGrid hpos hheld
  obtain ⟨hread, hexp, hle⟩ := onGrid?_eq_some hfound
  have hplace := le_pointOf units
  simp only [deepestPlace] at hplace
  constructor
  · have hdigits : (1 : ℚ) ≤ (shortest units).digits :=
      Nat.one_le_cast.2 (digits_pos hread hpos)
    calc (10 : ℚ) ^ (-340 : Int) ≤ 10 ^ (shortest units).exponent :=
          zpow_le_zpow_right₀ (by norm_num) (by omega)
      _ ≤ (shortest units).value :=
          le_mul_of_one_le_left (ten_zpow_pos _).le hdigits
  · have hone : (0 : ℚ) < unitsPerOne := Nat.cast_pos.2 unitsPerOne_pos
    have htop : (units / unitsPerOne : ℚ) < 10 ^ (309 : Int) := by
      rw [div_lt_iff₀ hone]
      exact_mod_cast hheld.2.trans_le unitsPerOne_limit_le
    have hstep : (10 : ℚ) ^ (pointOf units - (k + 1 : Nat)) ≤
        units / unitsPerOne :=
      le_trans (zpow_le_zpow_right₀ (by norm_num) (by omega))
        (pow_pointOf hpos).1
    have hdouble : ∀ x : ℚ, 0 < x → x + x ≤ x * 10 := by
      intro x hx
      linarith
    calc (shortest units).value ≤ units / unitsPerOne + units / unitsPerOne :=
          hle.trans (add_le_add_right hstep _)
      _ < 10 ^ (309 : Int) + 10 ^ (309 : Int) := add_lt_add htop htop
      _ ≤ 10 ^ (309 : Int) * 10 := hdouble _ (ten_zpow_pos 309)
      _ = (10 : ℚ) ^ (310 : Int) := (zpow_add_one₀ (by norm_num) 309).symm

end Decimal

end TileGrid
