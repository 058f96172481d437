import Mathlib.Algebra.BigOperators.Group.List.Basic
import Mathlib.Algebra.BigOperators.Intervals
import Mathlib.Algebra.Order.BigOperators.Group.List
import Mathlib.Data.List.Forall2
import Mathlib.Data.List.GetD
import Mathlib.Data.List.Lex
import Mathlib.Tactic.Ring

/-!
# Row-major order over the naturals

A box is a list of extents and a coordinate a list of naturals below them,
dimension by dimension. `coordinate ns k` is the `k`-th coordinate of the box
`ns` in row-major order, the digits of `k` in the mixed radix of the extents,
and `rank ns is` is where a coordinate stands in that order. On the box the two
are inverse to each other, and both keep the lexicographic order (`rankIso`).
-/

namespace TileGrid.RowMajor

/-- The coordinate is one of the box: of its rank, and below its extent in
every dimension. -/
abbrev InBox (ns is : List Nat) : Prop := List.Forall₂ (· < ·) is ns

/-- The `k`-th coordinate of a box. -/
def coordinate : List Nat → Nat → List Nat
  | [], _ => []
  | _ :: ns, k => k / ns.prod :: coordinate ns (k % ns.prod)

/-- How many coordinates of the box come before this one. -/
def rank : List Nat → List Nat → Nat
  | _ :: ns, i :: is => i * ns.prod + rank ns is
  | _, _ => 0

/-- How far the rank grows with one step in each dimension: the product of the
extents after it. -/
def strides : List Nat → List Nat
  | [] => []
  | _ :: ns => ns.prod :: strides ns

@[simp] theorem length_strides (ns : List Nat) :
    (strides ns).length = ns.length := by
  induction ns with
  | nil => rfl
  | cons n ns ih => simp [strides, ih]

theorem getElem?_strides (ns : List Nat) (d : Nat) (hd : d < ns.length) :
    (strides ns)[d]? = some (ns.drop (d + 1)).prod := by
  induction ns generalizing d with
  | nil => simp at hd
  | cons n ns ih =>
      cases d with
      | zero => simp [strides]
      | succ d => simpa [strides] using ih d (by simpa using hd)

theorem getD_strides {ns : List Nat} {d : Nat} (hd : d < ns.length) :
    (strides ns).getD d 0 = (ns.drop (d + 1)).prod := by
  rw [List.getD_eq_getElem?_getD, getElem?_strides ns d hd, Option.getD_some]

/-- A rank is the sum of the components, each times the stride of its
dimension. -/
theorem rank_eq_sum {ns is : List Nat} (h : is.length = ns.length) :
    rank ns is = ∑ d ∈ Finset.range ns.length, is.getD d 0 *
      (strides ns).getD d 0 := by
  induction ns generalizing is with
  | nil => simp [rank]
  | cons n ns ih =>
      cases is with
      | nil => simp at h
      | cons i is =>
          rw [List.length_cons, Finset.sum_range_succ']
          simp only [strides, List.getD_cons_succ, List.getD_cons_zero]
          rw [← ih (by simpa using h), rank, Nat.add_comm]

theorem coordinate_zero (ns : List Nat) :
    coordinate ns 0 = ns.map fun _ => 0 := by
  induction ns with
  | nil => rfl
  | cons n ns ih => simp [coordinate, ih]

/-! ## Ranks and coordinates -/

theorem prod_pos_iff {ns : List Nat} : 0 < ns.prod ↔ ∀ n ∈ ns, 0 < n := by
  induction ns with
  | nil => simp
  | cons n ns ih =>
      simp only [Nat.pos_iff_ne_zero, List.prod_cons, Nat.mul_ne_zero_iff,
        List.forall_mem_cons] at ih ⊢
      rw [ih]

theorem length_of_inBox {ns is : List Nat} (h : InBox ns is) :
    is.length = ns.length :=
  List.Forall₂.length_eq h

theorem rank_lt {ns is : List Nat} (h : InBox ns is) :
    rank ns is < ns.prod := by
  induction h with
  | nil => simp [rank]
  | @cons i n is ns hi _ ih =>
      simp only [rank, List.prod_cons]
      calc i * ns.prod + rank ns is < i * ns.prod + ns.prod :=
          Nat.add_lt_add_left ih _
        _ = (i + 1) * ns.prod := by ring
        _ ≤ n * ns.prod := Nat.mul_le_mul_right _ hi

theorem prod_pos_of_inBox {ns is : List Nat} (h : InBox ns is) : 0 < ns.prod :=
  Nat.lt_of_le_of_lt (Nat.zero_le _) (rank_lt h)

theorem inBox_coordinate {ns : List Nat} {k : Nat} (h : k < ns.prod) :
    InBox ns (coordinate ns k) := by
  induction ns generalizing k with
  | nil => exact .nil
  | cons n ns ih =>
      rw [List.prod_cons] at h
      have hpos : 0 < ns.prod :=
        Nat.pos_of_ne_zero (by rintro h0; simp [h0] at h)
      exact .cons (Nat.div_lt_of_lt_mul (by rwa [Nat.mul_comm]))
        (ih (Nat.mod_lt k hpos))

theorem rank_coordinate {ns : List Nat} {k : Nat} (h : k < ns.prod) :
    rank ns (coordinate ns k) = k := by
  induction ns generalizing k with
  | nil =>
      simp only [List.prod_nil, Nat.lt_one_iff] at h
      simp [rank, h]
  | cons n ns ih =>
      rw [List.prod_cons] at h
      have hpos : 0 < ns.prod :=
        Nat.pos_of_ne_zero (by rintro h0; simp [h0] at h)
      rw [coordinate, rank, ih (Nat.mod_lt k hpos), Nat.mul_comm]
      exact Nat.div_add_mod k ns.prod

theorem coordinate_rank {ns is : List Nat} (h : InBox ns is) :
    coordinate ns (rank ns is) = is := by
  induction h with
  | nil => rfl
  | @cons i n is ns hi hs ih =>
      have hlt := rank_lt hs
      have hdiv : (i * ns.prod + rank ns is) / ns.prod = i := by
        rw [Nat.mul_comm, Nat.mul_add_div (prod_pos_of_inBox hs),
          Nat.div_eq_of_lt hlt, Nat.add_zero]
      have hmod : (i * ns.prod + rank ns is) % ns.prod = rank ns is := by
        rw [Nat.mul_comm, Nat.mul_add_mod, Nat.mod_eq_of_lt hlt]
      rw [rank, coordinate, hdiv, hmod, ih]

/-- Coordinates of one box with the same rank are the same. -/
theorem rank_injective {ns is js : List Nat} (hi : InBox ns is)
    (hj : InBox ns js) (h : rank ns is = rank ns js) : is = js := by
  rw [← coordinate_rank hi, ← coordinate_rank hj, h]

/-- Row-major order is lexicographic order. -/
theorem coordinate_lt_coordinate {ns : List Nat} {j k : Nat} (hjk : j < k)
    (hk : k < ns.prod) :
    coordinate ns j < coordinate ns k := by
  induction ns generalizing j k with
  | nil =>
      simp only [List.prod_nil, Nat.lt_one_iff] at hk
      omega
  | cons n ns ih =>
      rw [List.prod_cons] at hk
      have hpos : 0 < ns.prod :=
        Nat.pos_of_ne_zero (by rintro h0; simp [h0] at hk)
      rw [coordinate, coordinate, List.cons_lt_cons_iff]
      rcases Nat.lt_or_eq_of_le
        (Nat.div_le_div_right (c := ns.prod) hjk.le) with hlt | heq
      · exact .inl hlt
      · -- in the same slice of the first dimension the rest decides
        have hj := Nat.div_add_mod j ns.prod
        have hk' := Nat.div_add_mod k ns.prod
        rw [heq] at hj
        exact .inr ⟨heq, ih (by omega) (Nat.mod_lt _ hpos)⟩

/-- A coordinate of the box. -/
abbrev Point (ns : List Nat) := { is : List Nat // InBox ns is }

/-- **The ranks number the coordinates of a box in lexicographic order.** -/
def rankIso (ns : List Nat) : Point ns ≃o Fin ns.prod where
  toFun c := ⟨rank ns c.1, rank_lt c.2⟩
  invFun k := ⟨coordinate ns k, inBox_coordinate k.2⟩
  left_inv c := Subtype.ext (coordinate_rank c.2)
  right_inv k := Fin.ext (rank_coordinate k.2)
  map_rel_iff' := by
    intro a b
    have hmono : StrictMono fun k : Fin ns.prod => coordinate ns k :=
      fun j k hjk => coordinate_lt_coordinate hjk k.2
    have hle := hmono.le_iff_le (a := ⟨_, rank_lt a.2⟩) (b := ⟨_, rank_lt b.2⟩)
    simp only [coordinate_rank a.2, coordinate_rank b.2] at hle
    exact hle.symm

/-- A box within another has no more coordinates. -/
theorem prod_le_prod {ms ns : List Nat} (h : List.Forall₂ (· ≤ ·) ms ns) :
    ms.prod ≤ ns.prod := by
  induction h with
  | nil => exact le_rfl
  | cons h _ ih => simpa using Nat.mul_le_mul h ih

theorem forall_le_of_le {ms ns : List Nat} (h : List.Forall₂ (· ≤ ·) ms ns)
    {bound : Nat} (hle : ∀ n ∈ ns, n ≤ bound) : ∀ m ∈ ms, m ≤ bound := by
  induction h with
  | nil => simp
  | cons h _ ih =>
      obtain ⟨hn, hle⟩ := List.forall_mem_cons.mp hle
      exact List.forall_mem_cons.mpr ⟨h.trans hn, ih hle⟩

theorem inBox_of_le {ms ns is : List Nat} (h : InBox ms is)
    (hle : List.Forall₂ (· ≤ ·) ms ns) :
    InBox ns is := by
  induction h generalizing ns with
  | nil => cases hle; exact .nil
  | cons hi _ ih =>
      cases hle with
      | cons h hs => exact .cons (Nat.lt_of_lt_of_le hi h) (ih hs)

/-! ## Component by component -/

theorem inBox_iff {ns is : List Nat} :
    InBox ns is ↔ is.length = ns.length ∧ ∀ d < ns.length, is.getD d 0 <
      ns.getD d 0 := by
  rw [InBox, List.forall₂_iff_get]
  constructor
  · rintro ⟨hlen, h⟩
    refine ⟨hlen, fun d hd => ?_⟩
    rw [List.getD_eq_getElem _ _ (by omega), List.getD_eq_getElem _ _ hd]
    exact h d (by omega) hd
  · rintro ⟨hlen, h⟩
    refine ⟨hlen, fun d hd hd' => ?_⟩
    have hlt := h d hd'
    rw [List.getD_eq_getElem _ _ hd, List.getD_eq_getElem _ _ hd'] at hlt
    exact hlt

theorem getD_zipWith {f : Nat → Nat → Nat} {xs ys : List Nat} {d : Nat}
    (hx : d < xs.length) (hy : d < ys.length) :
    (List.zipWith f xs ys).getD d 0 = f (xs.getD d 0) (ys.getD d 0) := by
  rw [List.getD_eq_getElem _ _ (by simp; omega), List.getElem_zipWith,
    List.getD_eq_getElem _ _ hx, List.getD_eq_getElem _ _ hy]

theorem getD_pos {ns : List Nat} (hpos : ∀ n ∈ ns, 0 < n) {d : Nat}
    (hd : d < ns.length) :
    0 < ns.getD d 0 := by
  rw [List.getD_eq_getElem _ _ hd]
  exact hpos _ (List.getElem_mem hd)

theorem ext_getD {xs ys : List Nat} (hlen : xs.length = ys.length)
    (h : ∀ d < xs.length, xs.getD d 0 = ys.getD d 0) : xs = ys := by
  apply List.ext_getElem hlen
  intro d hx hy
  have hd := h d hx
  rwa [List.getD_eq_getElem _ _ hx, List.getD_eq_getElem _ _ hy] at hd

/-! ## Boxes placed in a box -/

/-- The coordinate that lies `is` past `os`. -/
def shift (os is : List Nat) : List Nat := List.zipWith (· + ·) os is

/-- How much of a box `ss` placed at `os` lies inside the box `ns`. -/
def clip (ns os ss : List Nat) : List Nat :=
  List.zipWith min ss (List.zipWith (· - ·) ns os)

theorem length_shift {os is : List Nat} (h : is.length = os.length) :
    (shift os is).length = os.length := by
  simp [shift, h]

theorem length_clip {ns os ss : List Nat} (hos : os.length = ns.length)
    (hss : ss.length = ns.length) : (clip ns os ss).length = ns.length := by
  simp [clip, hos, hss]

/-- The clipped box holds the coordinates of the box that lie inside. -/
theorem inBox_clip_iff {ns os ss : List Nat} (hos : os.length = ns.length)
    (hss : ss.length = ns.length) {is : List Nat} :
    InBox (clip ns os ss) is ↔ InBox ss is ∧ InBox ns (shift os is) := by
  have hlen := length_clip hos hss
  have hclip : ∀ d < ns.length,
      (clip ns os ss).getD d 0 =
        min (ss.getD d 0) (ns.getD d 0 - os.getD d 0) := by
    intro d hd
    rw [clip, getD_zipWith (by omega) (by simp; omega),
      getD_zipWith hd (by omega)]
  have hshift : is.length = ns.length → ∀ d < ns.length,
      (shift os is).getD d 0 = os.getD d 0 + is.getD d 0 := by
    intro his d hd
    rw [shift, getD_zipWith (by omega) (by omega)]
  simp only [inBox_iff, hlen, hss]
  constructor
  · rintro ⟨his, h⟩
    refine ⟨⟨his, fun d hd => ?_⟩, by rw [length_shift (by omega), hos],
      fun d hd => ?_⟩
    · have hd' := h d hd
      rw [hclip d hd] at hd'
      omega
    · have hd' := h d hd
      rw [hclip d hd] at hd'
      rw [hshift his d hd]
      omega
  · rintro ⟨⟨his, h⟩, -, h'⟩
    refine ⟨his, fun d hd => ?_⟩
    have hd₁ := h d hd
    have hd₂ := h' d hd
    rw [hshift his d hd] at hd₂
    rw [hclip d hd]
    omega

theorem clip_le {ns os ss : List Nat} (hos : os.length = ns.length)
    (hss : ss.length = ns.length) :
    List.Forall₂ (· ≤ ·) (clip ns os ss) ss := by
  rw [List.forall₂_iff_get]
  refine ⟨by rw [length_clip hos hss, hss], fun d hd hd' => ?_⟩
  simp [clip]

theorem prod_clip_le {ns os ss : List Nat} (hos : os.length = ns.length)
    (hss : ss.length = ns.length) : (clip ns os ss).prod ≤ ss.prod :=
  prod_le_prod (clip_le hos hss)

theorem shift_injective {os is js : List Nat} (hi : is.length = os.length)
    (hj : js.length = os.length) (h : shift os is = shift os js) : is = js := by
  apply ext_getD (by omega)
  intro d hd
  have hd' := congrArg (fun l => l.getD d 0) h
  simp only [shift] at hd'
  rw [getD_zipWith (by omega) hd, getD_zipWith (by omega) (by omega)] at hd'
  omega

/-- The coordinates of a placed box, component by component. -/
theorem exists_shift_iff {os ss x : List Nat} (hss : ss.length = os.length)
    (hx : x.length = os.length) :
    (∃ c, InBox ss c ∧ x = shift os c) ↔
      ∀ d < os.length, os.getD d 0 ≤ x.getD d 0 ∧
        x.getD d 0 < os.getD d 0 + ss.getD d 0 := by
  constructor
  · rintro ⟨c, hc, rfl⟩ d hd
    have hlen := length_of_inBox hc
    have hlt := (inBox_iff.mp hc).2 d (by omega)
    rw [shift, getD_zipWith hd (by omega)]
    omega
  · intro h
    refine ⟨List.zipWith (· - ·) x os,
      inBox_iff.mpr ⟨by simp; omega, fun d hd => ?_⟩, ?_⟩
    · have hd' := h d (by omega)
      rw [getD_zipWith (by omega) (by omega)]
      omega
    · apply ext_getD (by simp [shift]; omega)
      intro d hd
      have hd' := h d (by omega)
      rw [shift, getD_zipWith (by omega) (by simp; omega),
        getD_zipWith (by omega) (by omega)]
      omega

end TileGrid.RowMajor
