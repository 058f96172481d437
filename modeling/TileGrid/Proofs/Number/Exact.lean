import TileGrid.Proofs.Number.Whole

/-!
# Exact arithmetic on whole numbers

Sums, differences, products, clipped rooms and rounded-up quotients of whole
numbers, each equal to what it is over the naturals under a bound on the result.
The bounds are those that walks, transfers and launches meet: `safeLimit` for
what is counted off one by one, and for the extents of a tile no bound at all.
-/

namespace TileGrid.Number

theorem add_finite (s t : Bool) (m n : Magnitude) :
    finite s m + finite t n =
      if signed s m.units + signed t n.units = 0 then
        round .binary64 (s && t) 0 1
      else round .binary64 (decide (signed s m.units + signed t n.units < 0))
        (signed s m.units + signed t n.units).natAbs 1 := rfl

theorem sub_finite (s t : Bool) (m n : Magnitude) :
    finite s m - finite t n = finite s m + finite (!t) n := rfl

theorem mul_finite (s t : Bool) (m n : Magnitude) :
    finite s m * finite t n =
      round .binary64 (s != t) (m.units * n.units) unitsPerOne := by
  change Number.mul _ _ = _
  simp only [Number.mul, counted_finite]

theorem min_finite (s t : Bool) (m n : Magnitude) :
    Number.min (finite s m) (finite t n) =
      if signed s m.units < signed t n.units then finite s m
      else if signed t n.units < signed s m.units then finite t n
      else if s then finite s m else finite t n := by
  simp only [Number.min, isNaN, counted_finite, lt_finite, isNegative,
    decide_eq_true_eq]
  rfl

theorem max_finite (s t : Bool) (m n : Magnitude) :
    Number.max (finite s m) (finite t n) =
      if signed s m.units < signed t n.units then finite t n
      else if signed t n.units < signed s m.units then finite s m
      else if s then finite t n else finite s m := by
  simp only [Number.max, isNaN, counted_finite, lt_finite, isNegative,
    decide_eq_true_eq]
  rfl

theorem signed_not (s : Bool) (u : Nat) : signed (!s) u = -signed s u := by
  cases s <;> simp [signed]

theorem round_zero (s : Bool) :
    ∃ m, round .binary64 s 0 1 = finite s m ∧ m.units = 0 := by
  have h0 : Format.binary64.Holds 0 := by
    simpa using holds_whole (Nat.zero_le safeLimit)
  exact ⟨⟨0, h0⟩, round_one h0 s, rfl⟩

/-! ## Sums -/

theorem IsWhole.add {x y : Number} {m n : Nat} (hx : x.IsWhole m)
    (hy : y.IsWhole n) (h : m + n ≤ safeLimit) : (x + y).IsWhole (m + n) := by
  have hx' := hx
  have hy' := hy
  obtain ⟨s, a, rfl, -, -⟩ := hx'
  obtain ⟨t, b, rfl, -, -⟩ := hy'
  have htotal : signed s a.units + signed t b.units =
      (((m + n) * unitsPerOne : Nat) : Int) := by
    rw [hx.signed_units, hy.signed_units]
    push_cast
    ring
  rw [add_finite, htotal]
  split
  · rename_i h0
    have hmn : m + n = 0 := by
      have := unitsPerOne_pos
      have h0' : (m + n) * unitsPerOne = 0 := by exact_mod_cast h0
      rcases Nat.mul_eq_zero.mp h0' with h1 | h1 <;> omega
    obtain ⟨z, hz, hzu⟩ := round_zero (s && t)
    exact ⟨_, z, hz, by rw [hzu, hmn, Nat.zero_mul], fun _ => hmn⟩
  · rw [Int.natAbs_natCast, decide_eq_false (by omega)]
    exact ⟨false, _, round_one (holds_whole h) false, rfl, by simp⟩

/-- What is added to a whole number in the form of a coordinate gives that form:
zero loses its sign. -/
theorem IsWhole.add_ofNat {x : Number} {m n : Nat} (hx : x.IsWhole m)
    (h : m + n ≤ safeLimit) :
    x + ofNat n = ofNat (m + n) := by
  rcases Nat.eq_zero_or_pos (m + n) with h0 | hpos
  · obtain ⟨rfl, rfl⟩ : m = 0 ∧ n = 0 := by omega
    obtain ⟨s, a, rfl, -, -⟩ := id hx
    rw [Nat.add_zero, ofNat_eq (holds_whole (Nat.zero_le _)), add_finite,
      hx.signed_units]
    simp only [signed, Nat.zero_mul, Bool.and_false]
    exact round_one _ false
  · exact (hx.add (isWhole_ofNat (by omega)) h).eq_ofNat hpos

theorem ofNat_add {m n : Nat} (h : m + n ≤ safeLimit) :
    ofNat m + ofNat n = ofNat (m + n) :=
  (isWhole_ofNat (by omega)).add_ofNat h

theorem ofNat_add_one {n : Nat} (h : n < safeLimit) :
    ofNat n + 1 = ofNat (n + 1) :=
  ofNat_add h

/-- At the limit, adding one gets nowhere: the sum lies in the middle, and
the limit is even. -/
theorem nearest_limit_add_one :
    Format.binary64.nearest ((safeLimit + 1) * unitsPerOne) 1 =
      safeLimit * unitsPerOne := by
  decide +kernel

theorem safeLimit_add_one : ofNat safeLimit + 1 = ofNat safeLimit := by
  have hheld := holds_whole (le_refl safeLimit)
  have hlim := nearest_limit_add_one.trans_lt hheld.2
  have hone : (1 : Number) = ofNat 1 := rfl
  have htotal :
      signed false (safeLimit * unitsPerOne) + signed false (1 * unitsPerOne) =
      ((safeLimit + 1) * unitsPerOne : Nat) := by
    simp only [signed, Bool.false_eq_true, if_false]
    push_cast
    ring
  rw [hone, ofNat_eq hheld, ofNat_eq isWhole_one.holds, add_finite, htotal,
    if_neg (by decide +kernel), decide_eq_false (by omega),
    Int.natAbs_natCast, round, dif_pos hlim]
  exact congrArg (finite false) (Magnitude.eq_of_units nearest_limit_add_one)

theorem IsWhole.add_one {x : Number} {n : Nat} (hx : x.IsWhole n)
    (hn : n ≤ safeLimit) :
    ∃ m ≤ safeLimit, (x + 1).IsWhole m := by
  rcases Nat.lt_or_eq_of_le hn with hlt | rfl
  · exact ⟨n + 1, hlt, hx.add isWhole_one hlt⟩
  · refine ⟨safeLimit, le_rfl, ?_⟩
    rw [hx.eq_ofNat (by decide), safeLimit_add_one]
    exact isWhole_ofNat le_rfl

/-- What a count of `n` by ones comes to: it is exact up to the limit,
and stays there. -/
def tally (n : Nat) : Number :=
  if n ≤ safeLimit then ofNat n else ofNat safeLimit

theorem tally_of_le {n : Nat} (h : n ≤ safeLimit) : tally n = ofNat n :=
  if_pos h

theorem tally_of_ge {n : Nat} (h : safeLimit ≤ n) :
    tally n = ofNat safeLimit := by
  rcases Nat.lt_or_eq_of_le h with hlt | rfl
  · exact if_neg (Nat.not_le.mpr hlt)
  · exact tally_of_le le_rfl

theorem tally_add_one (n : Nat) : tally n + 1 = tally (n + 1) := by
  rcases Nat.lt_or_ge n safeLimit with hlt | hge
  · rw [tally_of_le hlt.le, tally_of_le hlt, ofNat_add_one hlt]
  · rw [tally_of_ge hge, tally_of_ge (by omega), safeLimit_add_one]

/-! ## Products -/

theorem IsWhole.mul_of_holds {x y : Number} {m n : Nat} (hx : x.IsWhole m)
    (hy : y.IsWhole n) (h : Format.binary64.Holds (m * n * unitsPerOne)) :
    (x * y).IsWhole (m * n) := by
  obtain ⟨s, a, rfl, ha, hs⟩ := hx
  obtain ⟨t, b, rfl, hb, ht⟩ := hy
  have hprod : a.units * b.units = m * n * unitsPerOne * unitsPerOne := by
    rw [ha, hb]
    ring
  rw [mul_finite, hprod, round_eq_finite unitsPerOne_pos h]
  refine ⟨_, _, rfl, rfl, fun hst => ?_⟩
  cases s
  · cases t
    · simp at hst
    · simp [ht rfl]
  · simp [hs rfl]

theorem IsWhole.mul {x y : Number} {m n : Nat} (hx : x.IsWhole m)
    (hy : y.IsWhole n) (h : m * n ≤ safeLimit) : (x * y).IsWhole (m * n) :=
  hx.mul_of_holds hy (holds_whole h)

/-- The product with a positive number keeps the form of a coordinate. -/
theorem ofNat_mul {y : Number} {m n : Nat} (hy : y.IsWhole n) (hn : 0 < n)
    (hm : m ≤ safeLimit) (h : m * n ≤ safeLimit) :
    ofNat m * y = ofNat (m * n) := by
  rcases Nat.eq_zero_or_pos m with rfl | hpos
  · rw [hy.eq_ofNat hn, ofNat_eq hy.holds,
      ofNat_eq (holds_whole (Nat.zero_le _)), mul_finite]
    simp only [Nat.zero_mul]
    rw [ofNat_eq (holds_whole (Nat.zero_le _))]
    have h0 := round_eq_finite unitsPerOne_pos
      (v := 0) (by simpa using holds_whole (Nat.zero_le safeLimit)) false
    simpa using h0
  · exact ((isWhole_ofNat hm).mul hy h).eq_ofNat (Nat.mul_pos hpos hn)

/-! ## Differences and rooms -/

/-- A difference of whole numbers has units, with their sign, that
are rounded once. -/
theorem IsWhole.signed_sub {s t : Bool} {a b : Magnitude} {m n : Nat}
    (hx : (finite s a).IsWhole m) (hy : (finite t b).IsWhole n) :
    signed s a.units + signed (!t) b.units = ((m : Int) - n) * unitsPerOne := by
  rw [signed_not, hx.signed_units, hy.signed_units]
  push_cast
  ring

theorem IsWhole.sub_eq_round {x y : Number} {m n : Nat} (hx : x.IsWhole m)
    (hy : y.IsWhole n) (hlt : n < m) :
    x - y = round .binary64 false ((m - n) * unitsPerOne) 1 := by
  have hx' := hx
  have hy' := hy
  obtain ⟨s, a, rfl, -, -⟩ := hx'
  obtain ⟨t, b, rfl, -, -⟩ := hy'
  have hpos : (0 : Int) < ((m : Int) - n) * unitsPerOne :=
    Int.mul_pos (by omega) (by exact_mod_cast unitsPerOne_pos)
  have habs : (((m : Int) - n) * unitsPerOne).natAbs =
      (m - n) * unitsPerOne := by
    rw [Int.natAbs_mul, Int.natAbs_natCast]
    congr 1
    omega
  rw [sub_finite, add_finite, hx.signed_sub hy, if_neg (by omega),
    decide_eq_false (by omega), habs]

/-- The difference is exact where it is above zero and at most `safeLimit`. -/
theorem IsWhole.sub {x y : Number} {m n : Nat} (hx : x.IsWhole m)
    (hy : y.IsWhole n) (hlt : n < m) (h : m - n ≤ safeLimit) :
    x - y = ofNat (m - n) := by
  rw [hx.sub_eq_round hy hlt, round_one (holds_whole h),
    ofNat_eq (holds_whole h)]

/-- A difference that is not below a held whole number. The minuend is a
magnitude that the rounding cannot pass, so it does not overflow. -/
theorem IsWhole.le_sub {x y : Number} {m n k : Nat} (hx : x.IsWhole m)
    (hy : y.IsWhole n) (hk : Format.binary64.Holds (k * unitsPerOne))
    (hlt : n < m) (h : k ≤ m - n) :
    ∃ u, x - y = finite false u ∧ k * unitsPerOne ≤ u.units := by
  have hle : Format.binary64.nearest ((m - n) * unitsPerOne) 1 ≤
      m * unitsPerOne :=
    hx.holds.nearest_le Nat.one_pos
      (by rw [Nat.mul_one]; exact Nat.mul_le_mul_right _ (by omega))
  have hlim := Nat.lt_of_le_of_lt hle hx.holds.2
  refine ⟨⟨_, Format.binary64.holds_nearest _ _ hlim⟩, ?_, ?_⟩
  · rw [hx.sub_eq_round hy hlt, round, dif_pos hlim]
  · exact hk.le_nearest Nat.one_pos
      (by rw [Nat.mul_one]; exact Nat.mul_le_mul_right _ h)

/-- A difference that is not above zero. -/
theorem IsWhole.sub_of_le {x y : Number} {m n : Nat} (hx : x.IsWhole m)
    (hy : y.IsWhole n) (h : m ≤ n) :
    ∃ r u, x - y = finite r u ∧ signed r u.units ≤ 0 := by
  have hx' := hx
  have hy' := hy
  obtain ⟨s, a, rfl, -, -⟩ := hx'
  obtain ⟨t, b, rfl, hb, -⟩ := hy'
  rw [sub_finite, add_finite, hx.signed_sub hy]
  split
  · obtain ⟨z, hz, hzu⟩ := round_zero (s && !t)
    exact ⟨_, z, hz, by cases s <;> cases t <;> simp [signed, hzu]⟩
  · have hu : (0 : Int) < unitsPerOne := by exact_mod_cast unitsPerOne_pos
    have hle : ((m : Int) - n) * unitsPerOne ≤ 0 :=
      Int.mul_nonpos_of_nonpos_of_nonneg (by omega) hu.le
    have habs : (((m : Int) - n) * unitsPerOne).natAbs =
        (n - m) * unitsPerOne := by
      rw [Int.natAbs_mul, Int.natAbs_natCast]
      congr 1
      omega
    rw [decide_eq_true (by omega), habs]
    have hnear : Format.binary64.nearest ((n - m) * unitsPerOne) 1 ≤
        n * unitsPerOne :=
      hy.holds.nearest_le Nat.one_pos
        (by rw [Nat.mul_one]; exact Nat.mul_le_mul_right _ (by omega))
    have hlim := Nat.lt_of_le_of_lt hnear hy.holds.2
    refine ⟨true,
      ⟨_, Format.binary64.holds_nearest _ _ hlim⟩, by rw [round, dif_pos hlim],
      ?_⟩
    simp [signed]

theorem IsWhole.min {x y : Number} {m n : Nat} (hx : x.IsWhole m)
    (hy : y.IsWhole n) :
    (Number.min x y).IsWhole (Min.min m n) := by
  simp only [Number.min, hx.isNaN, hy.isNaN, hx.counted, hy.counted,
    hx.lt hy, hy.lt hx, Bool.or_self, Bool.false_eq_true, if_false,
    decide_eq_true_eq]
  rcases Nat.lt_trichotomy m n with hlt | heq | hgt
  · rw [if_pos hlt, Nat.min_eq_left hlt.le]
    exact hx
  · subst heq
    rw [if_neg (Nat.lt_irrefl m), if_neg (Nat.lt_irrefl m), Nat.min_self]
    split
    · exact hx
    · exact hy
  · rw [if_neg (Nat.lt_asymm hgt), if_pos hgt, Nat.min_eq_right hgt.le]
    exact hy

/-- What is above zero is the greater of itself and zero, and a zero becomes
the positive one. -/
theorem IsWhole.max_zero {x : Number} {n : Nat} (hx : x.IsWhole n) :
    Number.max 0 x = ofNat n := by
  simp only [Number.max, isWhole_zero.isNaN, hx.isNaN, isWhole_zero.counted,
    hx.counted, isWhole_zero.lt hx, hx.lt isWhole_zero, Bool.or_self,
    Bool.false_eq_true, if_false, decide_eq_true_eq]
  rcases Nat.eq_zero_or_pos n with rfl | hpos
  · rw [if_neg (Nat.lt_irrefl 0), if_neg (Nat.lt_irrefl 0), if_neg]
    · rfl
    · change ¬ (ofNat 0).isNegative = true
      rw [ofNat_eq (holds_whole (Nat.zero_le _))]
      simp [isNegative]
  · rw [if_pos hpos]
    exact hx.eq_ofNat hpos

theorem max_zero_of_signed_le {r : Bool} {u : Magnitude}
    (h : signed r u.units ≤ 0) :
    Number.max 0 (finite r u) = ofNat 0 := by
  have h0 : (0 : Number) = finite false ⟨0 * unitsPerOne, _⟩ :=
    ofNat_eq (holds_whole (Nat.zero_le _))
  have hneg : ¬ signed false (0 * unitsPerOne) < signed r u.units := by
    simpa [signed] using h
  rw [h0, max_finite, if_neg hneg, ofNat_eq (holds_whole (Nat.zero_le _))]
  simp

/-- The lesser of a whole number and one that is not above zero is
not above zero. -/
theorem IsWhole.min_of_signed_le {z : Number} {s : Nat} {r : Bool}
    {u : Magnitude} (hz : z.IsWhole s) (h : signed r u.units ≤ 0) :
    ∃ r' u', Number.min z (finite r u) = finite r' u' ∧
      signed r' u'.units ≤ 0 := by
  have hz' := hz
  obtain ⟨σ, a, rfl, -, -⟩ := hz'
  have hσ := hz.signed_units
  rw [min_finite, hσ, if_neg (by omega)]
  split
  · exact ⟨r, u, rfl, h⟩
  · split
    · exact ⟨σ, a, rfl, by omega⟩
    · exact ⟨r, u, rfl, h⟩

/-- The lesser of a whole number and a positive one that is not below it. -/
theorem IsWhole.min_of_units_le {z : Number} {s : Nat} {u : Magnitude}
    (hz : z.IsWhole s) (h : s * unitsPerOne ≤ u.units) :
    (Number.min z (finite false u)).IsWhole s := by
  have hz' := hz
  obtain ⟨σ, a, rfl, -, -⟩ := hz'
  have hu : signed false u.units = (u.units : Int) := by simp [signed]
  rw [min_finite, hz.signed_units, hu]
  split
  · exact hz
  · have heq : u.units = s * unitsPerOne := by omega
    rw [if_neg (by omega)]
    split
    · exact hz
    · exact ⟨false, u, rfl, heq, by simp⟩

/-- Of a box of extent `s`, what fits into the room left by an origin `o` in an
extent `e`. The room may be rounded, but not where it decides. -/
theorem max_zero_min_sub {z x y : Number} {s e o : Nat} (hz : z.IsWhole s)
    (hx : x.IsWhole e) (hy : y.IsWhole o)
    (h : s ≤ safeLimit ∨ e - o ≤ safeLimit) :
    Number.max 0 (Number.min z (x - y)) = ofNat (Min.min s (e - o)) := by
  rcases Nat.lt_or_ge o e with hlt | hge
  · by_cases hroom : e - o ≤ safeLimit
    · have hr : (x - y).IsWhole (e - o) := by
        rw [hx.sub hy hlt hroom]
        exact isWhole_ofNat hroom
      exact (hz.min hr).max_zero
    · -- the room is above `safeLimit` and so not below the box
      have hs : s ≤ e - o := by omega
      obtain ⟨u, hu, hle⟩ := hx.le_sub hy hz.holds hlt hs
      rw [hu, (hz.min_of_units_le hle).max_zero, Nat.min_eq_left hs]
  · obtain ⟨r, u, hu, hle⟩ := hx.sub_of_le hy hge
    obtain ⟨r', u', heq, hle'⟩ := hz.min_of_signed_le hle
    rw [Nat.sub_eq_zero_of_le hge, Nat.min_zero, hu, heq,
      max_zero_of_signed_le hle']

/-- A magnitude of the format that is not below `safeLimit` is that of
a whole number. -/
theorem exists_whole_of_holds {u : Nat} (hu : Format.binary64.Holds u)
    (hge : safeLimit * unitsPerOne ≤ u) : ∃ k, u = k * unitsPerOne := by
  have hfine : Format.binary64.finest ≤ unitHalvings := Nat.zero_le _
  rcases hu.grid hfine with ⟨k, hk⟩ | ⟨-, hlt⟩
  · exact ⟨k, by rw [hk, unitsPerOne_eq]⟩
  · have hpow : 2 ^ (Format.binary64.precision - 1 + unitHalvings) ≤
        safeLimit * unitsPerOne := by
      rw [safeLimit_eq, unitsPerOne_eq, ← pow_add]
      exact Nat.pow_le_pow_right (by decide) (by decide)
    omega

/-- What is left past a smaller whole number is a whole number above zero. -/
theorem IsWhole.exists_sub {x y : Number} {m n : Nat} (hx : x.IsWhole m)
    (hy : y.IsWhole n) (hlt : n < m) : ∃ r, 0 < r ∧ (x - y).IsWhole r := by
  by_cases hle : m - n ≤ safeLimit
  · refine ⟨m - n, by omega, ?_⟩
    rw [hx.sub hy hlt hle]
    exact isWhole_ofNat hle
  · obtain ⟨u, hu, hlarge⟩ :=
      hx.le_sub hy (holds_whole (le_refl safeLimit)) hlt (by omega)
    obtain ⟨r, hr⟩ := exists_whole_of_holds u.held hlarge
    rw [hr] at hlarge
    have hlim : 0 < safeLimit := by decide
    have hge := Nat.le_of_mul_le_mul_right hlarge unitsPerOne_pos
    exact ⟨r, by omega, false, u, hu, hr, by simp⟩

theorem IsWhole.sub_self {x y : Number} {n : Nat} (hx : x.IsWhole n)
    (hy : y.IsWhole n) :
    (x - y).IsWhole 0 := by
  have hx' := hx
  have hy' := hy
  obtain ⟨s, a, rfl, -, -⟩ := hx'
  obtain ⟨t, b, rfl, -, -⟩ := hy'
  obtain ⟨z, hz, hzu⟩ := round_zero (s && !t)
  rw [sub_finite, add_finite, hx.signed_sub hy, if_pos (by simp), hz]
  exact ⟨_, z, rfl, by rw [hzu, Nat.zero_mul], fun _ => rfl⟩

/-- However the room is rounded, what fits of a box is a whole number that is
not above its extent. -/
theorem exists_isWhole_max_zero_min_sub {z x y : Number} {s e o : Nat}
    (hz : z.IsWhole s) (hx : x.IsWhole e) (hy : y.IsWhole o) :
    ∃ v ≤ s, (Number.max 0 (Number.min z (x - y))).IsWhole v := by
  rcases Nat.lt_or_ge o e with hlt | hge
  · obtain ⟨r, -, hr⟩ := hx.exists_sub hy hlt
    have hmin := hz.min hr
    refine ⟨Min.min s r, Nat.min_le_left _ _, ?_⟩
    rw [hmin.max_zero]
    exact isWhole_ofNat_of_holds hmin.holds
  · refine ⟨Min.min s (e - o), Nat.min_le_left _ _, ?_⟩
    rw [max_zero_min_sub hz hx hy (.inr (by omega))]
    exact isWhole_ofNat (by omega)

/-! ## Quotients rounded up -/

theorem one_shiftLeft_lt {m n : Nat} (h : m < n) : 1 <<< m < 1 <<< n := by
  simp only [Nat.shiftLeft_eq, Nat.one_mul]
  exact Nat.pow_lt_pow_right (by decide) h

theorem div_finite (s t : Bool) (m n : Magnitude) (h : n.units ≠ 0) :
    finite s m / finite t n =
      round .binary64 (s != t) (m.units * unitsPerOne) n.units := by
  change Number.div _ _ = _
  simp only [Number.div, counted_finite, if_neg h]

theorem ceil_finite (m : Magnitude) :
    (finite false m).ceil =
      ofNat ((m.units + (unitsPerOne - 1)) / unitsPerOne) := by
  simp only [Number.ceil, counted_finite, ofNat, Bool.false_eq_true, if_false]

/-- Magnitudes above `j` and not above `j + 1` round up to the latter. -/
theorem ceil_eq_ofNat {m : Magnitude} {j : Nat}
    (hlo : j * unitsPerOne < m.units) (hhi : m.units ≤ (j + 1) * unitsPerOne) :
    (finite false m).ceil = ofNat (j + 1) := by
  have hu := unitsPerOne_pos
  rw [ceil_finite]
  congr 1
  rw [Nat.div_eq_iff hu]
  rw [Nat.succ_mul] at hhi ⊢
  omega

/-- The spacing at a quotient between `j` and `j + 1` is that at `j`, where one
is `2 ^ (52 - j.log2)` spacings. -/
theorem spacing_between {j q : Nat} (hj : 0 < j) (hlo : j * unitsPerOne ≤ q)
    (hhi : q < (j + 1) * unitsPerOne) :
    Format.binary64.spacing q = j.log2 + (unitHalvings - 52) := by
  have hq : q ≠ 0 := by
    have := Nat.mul_pos hj unitsPerOne_pos
    omega
  have hlog : q.log2 = j.log2 + unitHalvings := by
    rw [Nat.log2_eq_iff hq, pow_add, Nat.add_right_comm, pow_add,
      ← unitsPerOne_eq]
    constructor
    · exact (Nat.mul_le_mul_right _ (Nat.log2_self_le (by omega))).trans hlo
    · exact hhi.trans_le (Nat.mul_le_mul_right _ Nat.lt_log2_self)
  have hprec : Format.binary64.precision = 53 := rfl
  have hfine : Format.binary64.finest = 0 := rfl
  have hhalf : unitHalvings = 1074 := rfl
  rw [Format.spacing, hlog, hprec, hfine, if_neg (by omega)]
  omega

/-- No whole number has more than `unitHalvings` bits. -/
theorem le_unitsPerOne_of_holds {l : Nat}
    (h : Format.binary64.Holds (l * unitsPerOne)) :
    l ≤ unitsPerOne := by
  by_contra hgt
  have hlt : unitsPerOne * unitsPerOne < 1 <<< Format.binary64.limit :=
    Nat.lt_of_le_of_lt (Nat.mul_le_mul_right _ (by omega)) h.2
  have hle := one_shiftLeft_le (m := Format.binary64.limit)
    (n := unitHalvings + unitHalvings)
    (by decide)
  rw [Nat.shiftLeft_eq 1 (unitHalvings + unitHalvings), Nat.one_mul, pow_add,
    ← unitsPerOne_eq] at hle
  omega

section Quotient

variable {g l j : Nat}

/-- One unit is held, and no quotient is below it. -/
theorem nearest_div_pos (hl : Format.binary64.Holds (l * unitsPerOne))
    (hl0 : 0 < l) (hg : 0 < g) :
    0 < Format.binary64.nearest (g * unitsPerOne * unitsPerOne)
      (l * unitsPerOne) := by
  have hone : Format.binary64.Holds 1 :=
    ⟨⟨1, 0, by decide, by decide, rfl⟩, one_shiftLeft_lt (m := 0) (by decide)⟩
  apply hone.le_nearest (Nat.mul_pos hl0 unitsPerOne_pos)
  calc 1 * (l * unitsPerOne) ≤ 1 * (unitsPerOne * unitsPerOne) :=
        Nat.mul_le_mul_left 1
          (Nat.mul_le_mul_right _ (le_unitsPerOne_of_holds hl))
    _ ≤ g * (unitsPerOne * unitsPerOne) := Nat.mul_le_mul_right _ hg
    _ = g * unitsPerOne * unitsPerOne := by ring

theorem spacing_div (hj : 0 < j) (hl0 : 0 < l) (hlo : j * l < g)
    (hhi : g < (j + 1) * l) :
    Format.binary64.spacing (g * unitsPerOne * unitsPerOne /
      (l * unitsPerOne)) = j.log2 + (unitHalvings - 52) := by
  have hu := unitsPerOne_pos
  rw [Nat.mul_div_mul_right _ _ hu]
  refine spacing_between hj ?_ ?_
  · rw [Nat.le_div_iff_mul_le hl0]
    calc j * unitsPerOne * l = j * l * unitsPerOne := by ring
      _ ≤ g * unitsPerOne := Nat.mul_le_mul_right _ hlo.le
  · rw [Nat.div_lt_iff_lt_mul hl0]
    calc g * unitsPerOne < (j + 1) * l * unitsPerOne :=
        Nat.mul_lt_mul_of_pos_right hhi hu
      _ = (j + 1) * unitsPerOne * l := by ring

theorem unitsPerOne_eq_mul :
    unitsPerOne = 2 ^ 52 * 2 ^ (unitHalvings - 52) := by
  rw [unitsPerOne_eq, ← pow_add, Nat.add_sub_cancel' (by decide)]

/-- In spacings, `j` is a whole number. -/
theorem spacings_eq (hj : j.log2 ≤ 52) :
    j * 2 ^ (52 - j.log2) * 2 ^ (j.log2 + (unitHalvings - 52)) =
      j * unitsPerOne := by
  have h52 : 2 ^ (52 - j.log2) * 2 ^ j.log2 = 2 ^ 52 := by
    rw [← pow_add, Nat.sub_add_cancel hj]
  rw [pow_add, unitsPerOne_eq_mul, ← h52]
  ring

/-- A spacing times the divisor is less than two. -/
theorem mul_spacing_lt (hj : 0 < j) (hlt : j * l < 2 ^ 53) :
    l * 2 ^ (j.log2 + (unitHalvings - 52)) < 2 * unitsPerOne := by
  have hle : l * 2 ^ j.log2 < 2 ^ 53 := by
    calc l * 2 ^ j.log2 ≤ l * j :=
        Nat.mul_le_mul_left l (Nat.log2_self_le (by omega))
      _ = j * l := Nat.mul_comm l j
      _ < 2 ^ 53 := hlt
  calc l * 2 ^ (j.log2 + (unitHalvings - 52)) =
      l * 2 ^ j.log2 * 2 ^ (unitHalvings - 52) := by
        rw [pow_add, Nat.mul_assoc]
    _ < 2 ^ 53 * 2 ^ (unitHalvings - 52) :=
      Nat.mul_lt_mul_of_pos_right hle (by positivity)
    _ = 2 * unitsPerOne := by
        rw [unitsPerOne_eq_mul]
        ring

/-- A quotient of whole numbers above `j` rounds to a number above `j`: it is so
far above that it has passed the middle between `j` and its neighbour. -/
theorem lt_nearest_div (hl : Format.binary64.Holds (l * unitsPerOne))
    (hg : g ≤ safeLimit) (hlo : j * l < g) (hhi : g < (j + 1) * l) :
    j * unitsPerOne <
      Format.binary64.nearest (g * unitsPerOne * unitsPerOne)
        (l * unitsPerOne) := by
  have hu := unitsPerOne_pos
  have hl0 : 0 < l := by
    rcases Nat.eq_zero_or_pos l with rfl | hpos
    · omega
    · exact hpos
  rcases Nat.eq_zero_or_pos j with rfl | hj
  · rw [Nat.zero_mul]
    exact nearest_div_pos hl hl0 (by omega)
  · rw [safeLimit_eq] at hg
    have hj52 : j.log2 ≤ 52 := by
      have hjl : j ≤ j * l := Nat.le_mul_of_pos_right j hl0
      exact Nat.le_of_lt_succ ((Nat.log2_lt (by omega)).mpr (by omega))
    have hsp := spacing_div hj hl0 hlo hhi
    have ha := spacings_eq hj52
    have hgap := mul_spacing_lt hj (hlo.trans_le hg)
    rw [← ha, ← hsp]
    apply Format.lt_nearest (Nat.mul_pos hl0 hu)
    rw [hsp]
    calc (2 * (j * 2 ^ (52 - j.log2)) + 1) *
          (l * unitsPerOne * 2 ^ (j.log2 + (unitHalvings - 52)))
        = 2 * (j * 2 ^ (52 - j.log2) * 2 ^ (j.log2 + (unitHalvings - 52))) * l *
          unitsPerOne +
            l * 2 ^ (j.log2 + (unitHalvings - 52)) * unitsPerOne := by ring
      _ = 2 * (j * unitsPerOne) * l * unitsPerOne +
            l * 2 ^ (j.log2 + (unitHalvings - 52)) * unitsPerOne := by rw [ha]
      _ < 2 * (j * unitsPerOne) * l * unitsPerOne + 2 * unitsPerOne *
        unitsPerOne :=
          Nat.add_lt_add_left (Nat.mul_lt_mul_of_pos_right hgap hu) _
      _ = 2 * ((j * l + 1) * unitsPerOne * unitsPerOne) := by ring
      _ ≤ 2 * (g * unitsPerOne * unitsPerOne) :=
          Nat.mul_le_mul_left 2
            (Nat.mul_le_mul_right _ (Nat.mul_le_mul_right _ hlo))

/-- **The rounded quotient stays between the same whole numbers** as the exact
one: above `j` and not above `j + 1`. -/
theorem nearest_div_bounds (hl : Format.binary64.Holds (l * unitsPerOne))
    (hg : g ≤ safeLimit) (hlo : j * l < g) (hhi : g ≤ (j + 1) * l) :
    j * unitsPerOne <
        Format.binary64.nearest (g * unitsPerOne * unitsPerOne)
          (l * unitsPerOne) ∧
      Format.binary64.nearest (g * unitsPerOne * unitsPerOne)
        (l * unitsPerOne) ≤ (j + 1) * unitsPerOne := by
  have hl0 : 0 < l := by
    rcases Nat.eq_zero_or_pos l with rfl | hpos
    · omega
    · exact hpos
  have hjg : j + 1 ≤ g := by
    have : j ≤ j * l := Nat.le_mul_of_pos_right j hl0
    omega
  have hden : 0 < l * unitsPerOne := Nat.mul_pos hl0 unitsPerOne_pos
  have hmul : (j + 1) * unitsPerOne * (l * unitsPerOne) =
      (j + 1) * l * unitsPerOne * unitsPerOne := by
    ring
  constructor
  · rcases Nat.lt_or_ge g ((j + 1) * l) with hlt | hge
    · exact lt_nearest_div hl hg hlo hlt
    · -- the quotient is `j + 1` itself
      have hle := (holds_whole (hjg.trans hg)).le_nearest hden
        (hmul.trans_le (Nat.mul_le_mul_right _ (Nat.mul_le_mul_right _ hge)))
      have hu := unitsPerOne_pos
      rw [Nat.succ_mul] at hle
      omega
  · refine (holds_whole (hjg.trans hg)).nearest_le hden ?_
    rw [hmul]
    exact Nat.mul_le_mul_right _ (Nat.mul_le_mul_right _ hhi)

end Quotient

/-- **The rounded quotient rounded up** is the exact quotient rounded up:
`j + 1` where `g` lies above `j` times `l` and not above `j + 1` times `l`. -/
theorem IsWhole.ceil_div {x y : Number} {g l j : Nat} (hx : x.IsWhole g)
    (hy : y.IsWhole l) (hg : g ≤ safeLimit) (hlo : j * l < g)
    (hhi : g ≤ (j + 1) * l) :
    (x / y).ceil = ofNat (j + 1) := by
  have hl0 : 0 < l := by
    rcases Nat.eq_zero_or_pos l with rfl | hpos
    · omega
    · exact hpos
  have hjg : j + 1 ≤ g := by
    have : j ≤ j * l := Nat.le_mul_of_pos_right j hl0
    omega
  obtain ⟨hbot, htop⟩ := nearest_div_bounds hy.holds hg hlo hhi
  have hlim := Nat.lt_of_le_of_lt htop (holds_whole (hjg.trans hg)).2
  rw [hx.eq_ofNat (by omega), hy.eq_ofNat hl0, ofNat_eq hx.holds,
    ofNat_eq hy.holds, div_finite _ _ _ _ (Nat.mul_pos hl0 unitsPerOne_pos).ne',
    round, dif_pos hlim]
  exact ceil_eq_ofNat hbot htop

end TileGrid.Number
