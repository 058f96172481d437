import TileGrid.Proofs.Shape.Whole

/-!
# What the size of a shape says

The size of a shape is a product of doubles, rounded after each factor. It is
the product of the extents as long as that stays below `Number.safeLimit`; with
a zero extent it is zero or not a number; and otherwise it is too large for an
array, however it was rounded (`IsWhole.size_cases`). So a size that a count of
elements equals is the product itself, and a box within an array whose size is a
number has the product of its extents as its size (`IsWhole.size_within`).
-/

namespace TileGrid.Shape

open RowMajor

/-- Too large for a number of elements: no rounding brings it below
the limit again. -/
def IsLarge (x : Number) : Prop :=
  x = .infinite false ∨
    ∃ m : Magnitude, x = .finite false m ∧
      Number.safeLimit * unitsPerOne ≤ m.units

theorem isLarge_round {num den : Nat} (hd : 0 < den)
    (h : Number.safeLimit * unitsPerOne * den ≤ num) :
    IsLarge (.round .binary64 false num den) := by
  have hheld := Number.holds_whole (le_refl Number.safeLimit)
  have hnear := hheld.le_nearest hd h
  by_cases hfin : Format.binary64.nearest num den < 1 <<< Format.binary64.limit
  · exact .inr ⟨_, dif_pos hfin, hnear⟩
  · exact .inl (dif_neg hfin)

/-- A positive whole number has no sign. -/
theorem sign_of_pos {s : Bool} {m : Magnitude} {n : Nat}
    (h : (Number.finite s m).IsWhole n) (hn : 0 < n) :
    s = false ∧ m.units = n * unitsPerOne := by
  obtain ⟨s', m', heq, hm, hs⟩ := h
  cases heq
  cases s with
  | false => exact ⟨rfl, hm⟩
  | true =>
      have := hs rfl
      omega

theorem isLarge_of_isWhole {x : Number} {n : Nat} (hx : x.IsWhole n)
    (hn : Number.safeLimit ≤ n) :
    IsLarge x := by
  have hlim : 0 < Number.safeLimit := by decide
  obtain ⟨s, m, rfl, -, -⟩ := id hx
  obtain ⟨rfl, hm⟩ := sign_of_pos hx (by omega)
  refine .inr ⟨m, rfl, ?_⟩
  rw [hm]
  exact Nat.mul_le_mul_right _ hn

theorem IsLarge.le_of_isWhole {x : Number} (hx : IsLarge x) {n : Nat}
    (hw : x.IsWhole n) :
    Number.safeLimit ≤ n := by
  obtain ⟨s, m', rfl, hm', -⟩ := hw
  rcases hx with h | ⟨m, heq, hm⟩
  · cases h
  · cases heq
    rw [hm'] at hm
    exact Nat.le_of_mul_le_mul_right hm unitsPerOne_pos

theorem isLarge_ofNat {n : Nat} (hn : Number.safeLimit ≤ n) :
    IsLarge (.ofNat n) := by
  apply isLarge_round Nat.one_pos
  rw [Nat.mul_one]
  exact Nat.mul_le_mul_right _ hn

theorem isLarge_mul {x y : Number} {m n : Nat} (hx : x.IsWhole m)
    (hy : y.IsWhole n) (h : Number.safeLimit ≤ m * n) : IsLarge (x * y) := by
  have hlim : 0 < Number.safeLimit := by decide
  have hpos : 0 < m * n := by omega
  have hm : 0 < m := Nat.pos_of_mul_pos_right hpos
  have hn : 0 < n := Nat.pos_of_mul_pos_left hpos
  obtain ⟨s, a, rfl, -, -⟩ := id hx
  obtain ⟨t, b, rfl, -, -⟩ := id hy
  obtain ⟨rfl, ha⟩ := sign_of_pos hx hm
  obtain ⟨rfl, hb⟩ := sign_of_pos hy hn
  rw [Number.mul_finite]
  apply isLarge_round unitsPerOne_pos
  rw [ha, hb]
  calc Number.safeLimit * unitsPerOne * unitsPerOne
      ≤ m * n * unitsPerOne * unitsPerOne :=
        Nat.mul_le_mul_right _ (Nat.mul_le_mul_right _ h)
    _ = m * unitsPerOne * (n * unitsPerOne) := by ring

theorem infinite_mul {y : Number} {n : Nat} (hy : y.IsWhole n) (hn : 0 < n) :
    (.infinite false * y : Number) = .infinite false := by
  obtain ⟨t, b, rfl, -, -⟩ := id hy
  obtain ⟨rfl, hb⟩ := sign_of_pos hy hn
  have hne : b.units ≠ 0 := by
    rw [hb]
    exact (Nat.mul_pos hn unitsPerOne_pos).ne'
  show Number.mul _ _ = _
  simp [Number.mul, hne]

theorem IsLarge.mul {x y : Number} {n : Nat} (hx : IsLarge x) (hy : y.IsWhole n)
    (hn : 0 < n) :
    IsLarge (x * y) := by
  rcases hx with rfl | ⟨m, rfl, hm⟩
  · exact .inl (infinite_mul hy hn)
  · obtain ⟨t, b, rfl, -, -⟩ := id hy
    obtain ⟨rfl, hb⟩ := sign_of_pos hy hn
    rw [Number.mul_finite]
    apply isLarge_round unitsPerOne_pos
    rw [hb]
    calc Number.safeLimit * unitsPerOne * unitsPerOne
        ≤ m.units * unitsPerOne := Nat.mul_le_mul_right _ hm
      _ ≤ m.units * (n * unitsPerOne) :=
        Nat.mul_le_mul_left _ (Nat.le_mul_of_pos_left _ hn)

theorem isLarge_foldl {shape : Shape} {ns : List Nat} (h : shape.IsWhole ns)
    (hpos : 0 < ns.prod) {x : Number} (hx : IsLarge x) :
    IsLarge (shape.foldl (· * ·) x) := by
  induction h generalizing x with
  | nil => exact hx
  | cons hy _ ih =>
      rw [List.prod_cons] at hpos
      exact ih (Nat.pos_of_mul_pos_left hpos)
        (hx.mul hy (Nat.pos_of_mul_pos_right hpos))

/-- A product that passes the limit at some factor stays above it. -/
theorem isLarge_foldl_mul {shape : Shape} {ns : List Nat} (h : shape.IsWhole ns)
    (hpos : 0 < ns.prod) {x : Number} {a : Nat} (hx : x.IsWhole a)
    (hge : Number.safeLimit ≤ a * ns.prod) :
    IsLarge (shape.foldl (· * ·) x) := by
  induction h generalizing x a with
  | nil =>
      rw [List.prod_nil, Nat.mul_one] at hge
      exact isLarge_of_isWhole hx hge
  | @cons y n shape ns hy hs ih =>
      rw [List.prod_cons] at hpos hge
      have hns := Nat.pos_of_mul_pos_left hpos
      -- the factor that passes the limit, and after it only factors
      -- of at least one
      by_cases hnow : Number.safeLimit ≤ a * n
      · exact isLarge_foldl hs hns (isLarge_mul hx hy hnow)
      · apply ih hns (hx.mul hy (by omega))
        rwa [Nat.mul_assoc]

/-- **What the size of a shape can be.** -/
theorem IsWhole.size_cases {shape : Shape} {ns : List Nat}
    (h : shape.IsWhole ns) :
    (ns.prod = 0 ∧ IsNull shape.size) ∨
    (0 < ns.prod ∧ ns.prod < Number.safeLimit ∧ shape.size.IsWhole ns.prod) ∨
    (Number.safeLimit ≤ ns.prod ∧ IsLarge shape.size) := by
  rcases Nat.eq_zero_or_pos ns.prod with h0 | hpos
  · exact .inl ⟨h0, h.isNull_size h0⟩
  · by_cases hlt : ns.prod < Number.safeLimit
    · exact .inr (.inl ⟨hpos, hlt, h.size hpos (Nat.le_of_lt hlt)⟩)
    · refine .inr (.inr ⟨by omega,
        isLarge_foldl_mul h hpos Number.isWhole_one ?_⟩)
      omega

/-- A size that is a number is the product of the extents. -/
theorem IsWhole.size_of_isNaN {shape : Shape} {ns : List Nat}
    (h : shape.IsWhole ns) (hlt : ns.prod < Number.safeLimit)
    (hnum : shape.size.isNaN = false) :
    shape.size.IsWhole ns.prod := by
  rcases h.size_cases with ⟨h0, hnan | hzero⟩ | ⟨-, -, hw⟩ | ⟨hge, -⟩
  · rw [hnan] at hnum
    cases hnum
  · rwa [h0]
  · exact hw
  · omega

/-! ## Comparisons with the size -/

theorem IsLarge.isNaN {x : Number} (hx : IsLarge x) : x.isNaN = false := by
  rcases hx with rfl | ⟨m, rfl, -⟩ <;> rfl

theorem IsLarge.lt {x y : Number} {n : Nat} (hx : IsLarge x) (hy : y.IsWhole n)
    (hn : n ≤ Number.safeLimit) : x.lt y = false := by
  obtain ⟨t, b, rfl, -, -⟩ := id hy
  rcases hx with rfl | ⟨m, rfl, hm⟩
  · rfl
  · have hle := Nat.mul_le_mul_right unitsPerOne hn
    rw [Number.lt_finite, hy.signed_units, decide_eq_false_iff_not]
    simp only [signed, Bool.false_eq_true, if_false]
    omega

theorem IsLarge.lt_of_isWhole {x y : Number} {n : Nat} (hx : IsLarge x)
    (hy : y.IsWhole n) (hn : n < Number.safeLimit) : y.lt x = true := by
  have hu := unitsPerOne_pos
  obtain ⟨t, b, rfl, -, -⟩ := id hy
  rcases hx with rfl | ⟨m, rfl, hm⟩
  · rfl
  · have hlt := Nat.mul_lt_mul_of_pos_right hn hu
    rw [Number.lt_finite, hy.signed_units, decide_eq_true_eq]
    simp only [signed, Bool.false_eq_true, if_false]
    omega

theorem eqv_comm (x y : Number) : x.eqv y = y.eqv x := Bool.and_comm _ _

theorem eqv_eq_true {x y : Number} (h : x.eqv y = true) :
    x.isNaN = false ∧ y.isNaN = false ∧ x.lt y = false ∧ y.lt x = false := by
  simp only [Number.eqv, Number.le, Bool.and_eq_true, Bool.not_eq_true'] at h
  obtain ⟨⟨⟨hx, hy⟩, hyx⟩, -, hxy⟩ := h
  exact ⟨hx, hy, hxy, hyx⟩

/-- A count below the limit equals the size only where it is the product
of the extents. -/
theorem IsWhole.prod_eq_of_eqv {shape : Shape} {ns : List Nat}
    (h : shape.IsWhole ns) {x : Number} {n : Nat} (hx : x.IsWhole n)
    (hn : n < Number.safeLimit) (heq : x.eqv shape.size = true) :
    ns.prod = n := by
  obtain ⟨-, hnum, hlt, -⟩ := eqv_eq_true heq
  rcases h.size_cases with ⟨h0, hnan | hzero⟩ | ⟨-, -, hw⟩ | ⟨-, hlarge⟩
  · rw [hnan] at hnum
    cases hnum
  · rw [hx.eqv hzero, decide_eq_true_eq] at heq
    omega
  · rw [hx.eqv hw, decide_eq_true_eq] at heq
    exact heq.symm
  · rw [hlarge.lt_of_isWhole hx hn] at hlt
    cases hlt

/-- A number of the value of a whole number is that whole number. -/
theorem isWhole_of_eqv {x y : Number} {n : Nat} (hx : IsPlain x)
    (hy : y.IsWhole n) (heq : x.eqv y = true) : x.IsWhole n := by
  obtain ⟨hnum, -, hlt, hgt⟩ := eqv_eq_true heq
  obtain ⟨t, b, rfl, -, -⟩ := id hy
  cases x with
  | nan => cases hnum
  | stray s => exact absurd rfl (hx s)
  | infinite s =>
      cases s with
      | false => cases hgt
      | true => cases hlt
  | finite s m =>
      have hu := unitsPerOne_pos
      rw [Number.lt_finite, hy.signed_units, decide_eq_false_iff_not] at hlt hgt
      have hsigned : signed s m.units = (n * unitsPerOne : Nat) := by omega
      cases s with
      | false =>
          simp only [signed, Bool.false_eq_true, if_false] at hsigned
          exact ⟨false, m, rfl, Int.ofNat_inj.mp hsigned, by simp⟩
      | true =>
          have hzero : m.units = 0 ∧ n * unitsPerOne = 0 := by
            simp only [signed, if_true] at hsigned
            omega
          have hn : n = 0 := by simpa [hu.ne'] using hzero.2
          exact ⟨true, m, rfl, by rw [hzero.1, hzero.2], fun _ => hn⟩

/-- A number that the size of an array equals is the number of its elements. -/
theorem IsWhole.isWhole_of_eqv_size {shape : Shape} {ns : List Nat}
    (h : shape.IsWhole ns) (hlt : ns.prod < Number.safeLimit) {x : Number}
    (hx : IsPlain x) (heq : x.eqv shape.size = true) : x.IsWhole ns.prod := by
  obtain ⟨-, hnum, -, -⟩ := eqv_eq_true heq
  exact isWhole_of_eqv hx (h.size_of_isNaN hlt hnum) heq

/-! ## Boxes within an array -/

/-- Not below zero, and `x` not above `y`. -/
def AtMost (x y : Number) : Prop :=
  (∃ a b : Magnitude, x = .finite false a ∧ y = .finite false b ∧
    a.units ≤ b.units) ∨
    y = .infinite false ∧ (x = .infinite false ∨ ∃ a, x = .finite false a)

theorem round_cases (num den : Nat) :
    Number.round .binary64 false num den = .infinite false ∨
      ∃ a, Number.round .binary64 false num den = .finite false a := by
  unfold Number.round
  split
  · exact .inr ⟨_, rfl⟩
  · exact .inl rfl

theorem atMost_round {num num' den : Nat} (hd : 0 < den) (h : num ≤ num') :
    AtMost (.round .binary64 false num den)
      (.round .binary64 false num' den) := by
  by_cases hfin : Format.binary64.nearest num' den < 1 <<< Format.binary64.limit
  · have hle := Format.binary64.nearest_mono hd h
    exact .inl ⟨_, _, dif_pos (hle.trans_lt hfin), dif_pos hfin, hle⟩
  · exact .inr ⟨dif_neg hfin, round_cases num den⟩

theorem AtMost.mul {x y p q : Number} {m n : Nat} (h : AtMost x y)
    (hp : p.IsWhole m) (hq : q.IsWhole n) (hm : 0 < m) (hmn : m ≤ n) :
    AtMost (x * p) (y * q) := by
  have hn : 0 < n := hm.trans_le hmn
  rcases h with ⟨a, b, rfl, rfl, hab⟩ | ⟨rfl, hx⟩
  · obtain ⟨s, c, rfl, -, -⟩ := id hp
    obtain ⟨t, d, rfl, -, -⟩ := id hq
    obtain ⟨rfl, hc⟩ := sign_of_pos hp hm
    obtain ⟨rfl, hd⟩ := sign_of_pos hq hn
    rw [Number.mul_finite, Number.mul_finite]
    apply atMost_round unitsPerOne_pos
    rw [hc, hd]
    exact Nat.mul_le_mul hab (Nat.mul_le_mul_right _ hmn)
  · refine .inr ⟨infinite_mul hq hn, ?_⟩
    rcases hx with rfl | ⟨a, rfl⟩
    · exact .inl (infinite_mul hp hm)
    · obtain ⟨s, c, rfl, -, -⟩ := id hp
      obtain ⟨rfl, -⟩ := sign_of_pos hp hm
      rw [Number.mul_finite]
      exact round_cases _ _

end TileGrid.Shape
