import TileGrid.Shape.Walk
import TileGrid.Proofs.Shape.Whole

/-!
# Walks over boxes of whole extents

One step of a walk goes from the `k`-th coordinate of a box to the next, and
runs over after the last (`advance_coordinate`). Hence the enumeration of a box
is the list of all its coordinates in row-major order (`indices_eq`), and a
visit of a box is a fold over the same list (`visitAll_eq`).
-/

namespace TileGrid.Shape

open RowMajor

theorem corner_eq {shape : Shape} {ns : List Nat} (h : shape.IsWhole ns) :
    shape.corner = whole (coordinate ns 0) := by
  rw [coordinate_zero, corner, whole, List.map_map]
  induction h with
  | nil => rfl
  | cons _ _ ih => exact congrArg _ ih

/-! ## One step -/

theorem advance_cons_false {d i : Number} {ds is rest : List Number}
    (h : advance ds is = (rest, false)) :
    advance (d :: ds) (i :: is) = (i :: rest, false) := by
  rw [advance, h]

theorem advance_cons_true {d i : Number} {ds is rest : List Number}
    (h : advance ds is = (rest, true)) :
    advance (d :: ds) (i :: is) =
      if (i + 1).lt d then ((i + 1) :: rest, false) else (0 :: rest, true) := by
  rw [advance, h]

/-- **One step** leads to the next coordinate; from the last it leads to the
first and runs over. -/
theorem advance_coordinate {shape : Shape} {ns : List Nat}
    (h : shape.IsWhole ns) (hb : ∀ n ∈ ns, n ≤ Number.safeLimit) {k : Nat}
    (hk : k < ns.prod) :
    advance shape (whole (coordinate ns k)) =
      if k + 1 < ns.prod then (whole (coordinate ns (k + 1)), false)
      else (whole (coordinate ns 0), true) := by
  induction h generalizing k with
  | nil =>
      have hk0 : k = 0 := by simpa using hk
      subst hk0
      rfl
  | @cons x n shape ns hx _ ih =>
      rw [List.prod_cons] at hk ⊢
      have hpos : 0 < ns.prod :=
        Nat.pos_of_ne_zero (by rintro h0; simp [h0] at hk)
      have hdm := Nat.div_add_mod k ns.prod
      have hr := Nat.mod_lt k hpos
      have hq : k / ns.prod < n := Nat.div_lt_of_lt_mul (by rwa [Nat.mul_comm])
      have hn : n ≤ Number.safeLimit := hb n (by simp)
      have hstep := ih (fun m hm => hb m (by simp [hm])) hr
      by_cases hlast : k % ns.prod + 1 < ns.prod
      · -- no carry out of the dimensions to the right
        rw [if_pos hlast] at hstep
        have hlt : k + 1 < n * ns.prod := by
          calc k + 1 = ns.prod * (k / ns.prod) + (k % ns.prod + 1) := by omega
            _ < ns.prod * (k / ns.prod) + ns.prod := by omega
            _ = (k / ns.prod + 1) * ns.prod := by ring
            _ ≤ n * ns.prod := Nat.mul_le_mul_right _ hq
        have hdiv : (k + 1) / ns.prod = k / ns.prod := by
          rw [Nat.div_eq_iff hpos]
          constructor
          · rw [Nat.mul_comm]
            omega
          · rw [Nat.mul_comm]
            omega
        have hmod : (k + 1) % ns.prod = k % ns.prod + 1 := by
          have hdm' := Nat.div_add_mod (k + 1) ns.prod
          rw [hdiv] at hdm'
          omega
        rw [if_pos hlt, coordinate, coordinate, whole_cons, whole_cons,
          hdiv, hmod]
        exact advance_cons_false hstep
      · -- the dimensions to the right run over, and this one grows
        rw [if_neg hlast] at hstep
        have hend : k + 1 = (k / ns.prod + 1) * ns.prod := by
          calc k + 1 = ns.prod * (k / ns.prod) + ns.prod := by omega
            _ = (k / ns.prod + 1) * ns.prod := by ring
        have hi1 : Number.ofNat (k / ns.prod) + 1 =
            Number.ofNat (k / ns.prod + 1) :=
          Number.ofNat_add_one (by omega)
        have hlt : (Number.ofNat (k / ns.prod) + 1).lt x =
            decide (k / ns.prod + 1 < n) := by
          rw [hi1]
          exact (Number.isWhole_ofNat (by omega)).lt hx
        have hiff : k + 1 < n * ns.prod ↔ k / ns.prod + 1 < n := by
          rw [hend]
          exact Nat.mul_lt_mul_right hpos
        have hdiv : (k + 1) / ns.prod = k / ns.prod + 1 := by
          rw [hend, Nat.mul_div_cancel _ hpos]
        have hmod : (k + 1) % ns.prod = 0 := by rw [hend, Nat.mul_mod_left]
        rw [coordinate, whole_cons, advance_cons_true hstep, hlt]
        simp only [decide_eq_true_eq, hiff, coordinate, whole_cons, hdiv, hmod,
          hi1, Nat.zero_div, Nat.zero_mod]
        rfl

/-- Where the enumeration stands at its `k`-th coordinate. -/
def cursor (ns : List Nat) (k : Nat) : Option Index :=
  if k < ns.prod then some (whole (coordinate ns k)) else none

theorem first?_eq {shape : Shape} {ns : List Nat} (h : shape.IsWhole ns) :
    first? shape = cursor ns 0 := by
  have hany : shape.any (·.le 0) = decide (ns.prod = 0) := by
    induction h with
    | nil => simp
    | @cons x n shape ns hx _ ih =>
        rw [List.any_cons, ih, hx.le Number.isWhole_zero, List.prod_cons]
        simp [← Bool.decide_or]
  unfold first? cursor
  rw [hany, corner_eq h]
  rcases Nat.eq_zero_or_pos ns.prod with h0 | hpos
  · rw [if_pos (decide_eq_true h0), if_neg (by omega)]
  · rw [if_neg (by rw [decide_eq_true_eq]; omega), if_pos hpos]

theorem next?_cursor {shape : Shape} {ns : List Nat} (h : shape.IsWhole ns)
    (hb : ∀ n ∈ ns, n ≤ Number.safeLimit) {k : Nat} (hk : k < ns.prod) :
    next? shape (whole (coordinate ns k)) = cursor ns (k + 1) := by
  unfold next? cursor
  rw [advance_coordinate h hb hk]
  by_cases hlt : k + 1 < ns.prod
  · simp only [if_pos hlt]
  · simp only [if_neg hlt]

/-! ## Enumeration -/

theorem takeFrom_cursor {shape : Shape} {ns : List Nat} (h : shape.IsWhole ns)
    (hb : ∀ n ∈ ns, n ≤ Number.safeLimit) (n k : Nat) :
    takeFrom shape n (cursor ns k) =
      ((List.range' k (min n (ns.prod - k))).map fun j =>
        whole (coordinate ns j), decide (ns.prod - k ≤ n)) := by
  induction n generalizing k with
  | zero =>
      by_cases hk : k < ns.prod
      · have hpos : ¬ ns.prod - k ≤ 0 := by omega
        simp [cursor, hk, takeFrom, hpos]
      · have hzero : ns.prod - k = 0 := by omega
        simp [cursor, hk, takeFrom, hzero]
  | succ n ih =>
      by_cases hk : k < ns.prod
      · have hmin : min (n + 1) (ns.prod - k) =
            min n (ns.prod - (k + 1)) + 1 := by omega
        have hiff : ns.prod - (k + 1) ≤ n ↔ ns.prod - k ≤ n + 1 := by omega
        have hcur : cursor ns k = some (whole (coordinate ns k)) := if_pos hk
        rw [hcur, takeFrom, next?_cursor h hb hk, ih, hmin, List.range'_succ]
        simp only [List.map_cons, hiff]
      · have hzero : ns.prod - k = 0 := by omega
        simp [cursor, hk, takeFrom, hzero]

theorem prod_le_stepBound {shape : Shape} {ns : List Nat} (h : shape.IsWhole ns)
    (hb : ∀ n ∈ ns, n ≤ Number.safeLimit) : ns.prod ≤ stepBound shape := by
  rw [stepBound, Nat.shiftLeft_eq, Nat.one_mul, h.length_eq, pow_mul,
    ← Number.safeLimit_eq]
  exact List.prod_le_pow_card ns _ hb

/-- **The enumeration of a box** is the list of its coordinates in
row-major order. -/
theorem indices_eq {shape : Shape} {ns : List Nat} (h : shape.IsWhole ns)
    (hb : ∀ n ∈ ns, n ≤ Number.safeLimit) :
    indices shape = (List.range ns.prod).map fun k =>
      whole (coordinate ns k) := by
  have hle := prod_le_stepBound h hb
  rw [indices, take, first?_eq h, takeFrom_cursor h hb, Nat.sub_zero,
    Nat.min_eq_right hle, List.range_eq_range']

/-! ## Visits -/

section Visits

variable {ε σ β : Type} {stuck : ε} {shape : Shape} {ns : List Nat}

theorem visitFrom_eq (h : shape.IsWhole ns) (hle : ns.prod ≤ Number.safeLimit)
    (visit : β → Index → Number → EStateM ε σ β) (n k : Nat)
    (index : Index) (acc : β) (hn : ns.prod ≤ n + k) (hk : k ≤ Number.safeLimit)
    (hindex : k < ns.prod → index = whole (coordinate ns k)) :
    visitFrom stuck shape visit n (.ofNat k) index acc =
      (List.range' k (ns.prod - k)).foldlM
        (fun acc j => visit acc (whole (coordinate ns j)) (.ofNat j)) acc := by
  induction n generalizing k index acc with
  | zero =>
      have hlt := h.lt_size hle (Number.isWhole_ofNat hk)
      have hzero : ns.prod - k = 0 := by omega
      rw [visitFrom, hlt, decide_eq_false (by omega), hzero]
      rfl
  | succ n ih =>
      have hlt := h.lt_size hle (Number.isWhole_ofNat hk)
      by_cases hkn : k < ns.prod
      · have hsucc : ns.prod - k = ns.prod - (k + 1) + 1 := by omega
        have hb : ∀ m ∈ ns, m ≤ Number.safeLimit := by
          intro m hm
          have hpos : 0 < ns.prod := by omega
          exact (Nat.le_of_dvd hpos (List.dvd_prod hm)).trans hle
        rw [visitFrom, hlt, decide_eq_true hkn, if_pos rfl, hsucc,
          List.range'_succ, List.foldlM_cons, hindex hkn,
          Number.ofNat_add_one (by omega)]
        congr 1
        funext acc'
        refine ih (k + 1) _ acc' (by omega) (by omega) fun hnext => ?_
        rw [advance_coordinate h hb hkn, if_pos hnext]
      · have hzero : ns.prod - k = 0 := by omega
        rw [visitFrom, hlt, decide_eq_false hkn, hzero]
        rfl

/-- **A visit of a box** calls for each of its coordinates in
row-major order. -/
theorem visitAll_eq (h : shape.IsWhole ns) (hle : ns.prod ≤ Number.safeLimit)
    (init : β) (visit : β → Index → Number → EStateM ε σ β) :
    visitAll stuck shape init visit =
      (List.range ns.prod).foldlM
        (fun acc k => visit acc (whole (coordinate ns k)) (.ofNat k)) init := by
  rw [List.range_eq_range']
  exact visitFrom_eq h hle visit _ 0 _ init hle (Nat.zero_le _) fun _ =>
    corner_eq h

end Visits

end TileGrid.Shape
