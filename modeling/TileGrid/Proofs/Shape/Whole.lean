import Mathlib.Algebra.BigOperators.Ring.List
import TileGrid.Block
import TileGrid.Proofs.Number.Exact
import TileGrid.Proofs.Shape.RowMajor

/-!
# Shapes of whole extents

A shape `IsWhole ns` if its components are the whole numbers `ns`; `whole ns` is
the shape that walks build of them, with no negative zero. The size of such a
shape decides the same comparisons as the product of `ns`, its strides are the
products of the extents after each dimension, and the position of a coordinate
is its row-major rank, as long as the product is at most `Number.safeLimit`.
-/

namespace TileGrid.Shape

open RowMajor

def IsWhole (shape : Shape) (ns : List Nat) : Prop :=
  List.Forall₂ Number.IsWhole shape ns

/-- The shape, or coordinate, of the given whole numbers. -/
def whole (ns : List Nat) : Shape := ns.map Number.ofNat

@[simp] theorem whole_nil : whole [] = [] := rfl

@[simp] theorem whole_cons (n : Nat) (ns : List Nat) :
    whole (n :: ns) = Number.ofNat n :: whole ns := rfl

@[simp] theorem length_whole (ns : List Nat) :
    (whole ns).length = ns.length := by simp [whole]

theorem isWhole_whole {ns : List Nat} (h : ∀ n ∈ ns, n ≤ Number.safeLimit) :
    (whole ns).IsWhole ns := by
  induction ns with
  | nil => exact .nil
  | cons n ns ih =>
      exact .cons (Number.isWhole_ofNat (h n (by simp)))
        (ih fun m hm => h m (by simp [hm]))

theorem IsWhole.length_eq {shape : Shape} {ns : List Nat}
    (h : shape.IsWhole ns) :
    shape.length = ns.length := List.Forall₂.length_eq h

theorem IsWhole.unique {shape : Shape} {ms ns : List Nat}
    (hm : shape.IsWhole ms) (hn : shape.IsWhole ns) : ms = ns := by
  induction hm generalizing ns with
  | nil => cases hn; rfl
  | cons h _ ih =>
      cases hn with
      | cons h' hs => rw [h.unique h', ih hs]

theorem IsWhole.map_toNat {shape : Shape} {ns : List Nat}
    (h : shape.IsWhole ns) :
    shape.map Number.toNat = ns := by
  induction h with
  | nil => rfl
  | cons hx _ ih => rw [List.map_cons, hx.toNat, ih]

theorem all_isExtent_iff {shape : Shape} :
    shape.all Number.isExtent = true ↔ ∃ ns, shape.IsWhole ns := by
  induction shape with
  | nil => exact ⟨fun _ => ⟨[], .nil⟩, fun _ => rfl⟩
  | cons x shape ih =>
      rw [List.all_cons, Bool.and_eq_true, Number.isExtent_iff, ih]
      constructor
      · rintro ⟨⟨n, hn⟩, ns, hs⟩
        exact ⟨n :: ns, .cons hn hs⟩
      · rintro ⟨ns, hs⟩
        cases hs with
        | cons hn hs => exact ⟨⟨_, hn⟩, _, hs⟩

/-! ## The size -/

/-- Nothing, as a size: not a number, or zero. -/
def IsNull (x : Number) : Prop := x = .nan ∨ x.IsWhole 0

/-- What a product can be. -/
def IsPlain (x : Number) : Prop := ∀ s, x ≠ .stray s

theorem isPlain_of_isWhole {x : Number} {n : Nat} (h : x.IsWhole n) :
    IsPlain x := by
  obtain ⟨s, m, rfl, -, -⟩ := h
  intro t
  simp

theorem isPlain_round (f : Format) (s : Bool) (num den : Nat) :
    IsPlain (Number.round f s num den) := by
  intro t
  unfold Number.round
  split <;> simp

theorem isPlain_mul (x y : Number) : IsPlain (x * y) := by
  intro t
  change Number.mul x y ≠ _
  unfold Number.mul
  split
  · simp
  · split <;> simp
  · split <;> simp
  · exact isPlain_round _ _ _ _ t
  · simp

theorem isWhole_finite_mul_zero {s : Bool} {a : Magnitude} {y : Number}
    (hy : y.IsWhole 0) :
    (.finite s a * y : Number).IsWhole 0 := by
  obtain ⟨t, b, rfl, hb, -⟩ := hy
  rw [Number.mul_finite, hb, Nat.zero_mul, Nat.mul_zero]
  have h0 : Format.binary64.Holds 0 := by
    simpa using Number.holds_whole (Nat.zero_le Number.safeLimit)
  have hr := Number.round_eq_finite unitsPerOne_pos h0 (s != t)
  rw [Nat.zero_mul] at hr
  exact ⟨_, _, hr, by simp, fun _ => rfl⟩

theorem isNull_mul_zero {x y : Number} (hx : IsPlain x) (hy : y.IsWhole 0) :
    IsNull (x * y) := by
  cases x with
  | nan => exact .inl rfl
  | infinite s =>
      left
      obtain ⟨t, b, rfl, hb, -⟩ := hy
      rw [Nat.zero_mul] at hb
      change Number.mul _ _ = _
      simp [Number.mul, hb]
  | finite s a => exact .inr (isWhole_finite_mul_zero hy)
  | stray s => exact absurd rfl (hx s)

theorem isNull_mul {x y : Number} (hx : IsPlain x) (hy : IsNull y) :
    IsNull (x * y) := by
  rcases hy with rfl | hy
  · left
    cases x with
    | stray s => exact absurd rfl (hx s)
    | _ => rfl
  · exact isNull_mul_zero hx hy

theorem IsNull.mul {x y : Number} (hx : IsNull x) (hy : IsPlain y) :
    IsNull (x * y) := by
  rcases hx with rfl | hx
  · exact .inl rfl
  · obtain ⟨s, a, rfl, ha, -⟩ := id hx
    rw [Nat.zero_mul] at ha
    cases y with
    | nan => exact .inl rfl
    | infinite t =>
        left
        change Number.mul _ _ = _
        simp [Number.mul, ha]
    | finite t b =>
        right
        have hcomm : (.finite s a * .finite t b : Number) =
            .finite t b * .finite s a := by
          rw [Number.mul_finite, Number.mul_finite, Nat.mul_comm, bne_comm]
        rw [hcomm]
        exact isWhole_finite_mul_zero hx
    | stray t => exact absurd rfl (hy t)

section NullSizes

-- extents that may be no whole numbers, each with a natural that bounds it
variable {R : Number → Nat → Prop} (hplain : ∀ d n, R d n → IsPlain d)
  (hnull : ∀ d, R d 0 → IsNull d)
  {shape : Shape} {ns : List Nat}
include hplain

theorem isNull_foldl_mul (h : List.Forall₂ R shape ns) {x : Number}
    (hx : IsNull x) :
    IsNull (shape.foldl (· * ·) x) := by
  induction h generalizing x with
  | nil => exact hx
  | cons hy _ ih => exact ih (hx.mul (hplain _ _ hy))

include hnull

theorem isNull_foldl_of_zero (h : List.Forall₂ R shape ns) {x : Number}
    (hx : IsPlain x) (h0 : 0 ∈ ns) : IsNull (shape.foldl (· * ·) x) := by
  induction h generalizing x with
  | nil => simp at h0
  | @cons y n shape ns hy hs ih =>
      rcases List.mem_cons.mp h0 with rfl | h0
      · exact isNull_foldl_mul hplain hs (isNull_mul hx (hnull y hy))
      · exact ih (isPlain_mul _ _) h0

/-- With nothing in one dimension the size is nothing. -/
theorem isNull_size_of_forall₂ (h : List.Forall₂ R shape ns)
    (h0 : ns.prod = 0) :
    IsNull shape.size :=
  isNull_foldl_of_zero hplain hnull h (isPlain_of_isWhole Number.isWhole_one)
    (List.prod_eq_zero_iff.mp h0)

end NullSizes

theorem isWhole_foldl_mul {shape : Shape} {ms : List Nat} (h : shape.IsWhole ms)
    {ns : List Nat} (hbox : List.Forall₂ (· ≤ ·) ms ns) {x : Number} {a : Nat}
    (hx : x.IsWhole a) (hpos : 0 < ns.prod)
    (hle : a * ns.prod ≤ Number.safeLimit) :
    (shape.foldl (· * ·) x).IsWhole (a * ms.prod) := by
  induction h generalizing ns x a with
  | nil => simpa using hx
  | @cons y m shape ms hy hs ih =>
      cases hbox with
      | @cons _ n _ ns hmn hbox =>
          rw [List.prod_cons] at hpos hle ⊢
          rw [← Nat.mul_assoc] at hle ⊢
          have hns : 0 < ns.prod := Nat.pos_of_mul_pos_left hpos
          have hstep : a * m * ns.prod ≤ Number.safeLimit :=
            (Nat.mul_le_mul_right _ (Nat.mul_le_mul_left a hmn)).trans hle
          -- the extents still to come are at least one, so the product so far
          -- is below the limit
          have hmul : a * m ≤ Number.safeLimit :=
            (Nat.le_mul_of_pos_right _ hns).trans hstep
          exact ih hbox (hx.mul hy hmul) hns hstep

/-- In a box without a zero extent, of a size up to the limit, the size of a
part is the product of its extents. -/
theorem IsWhole.size_of_le {shape : Shape} {ms ns : List Nat}
    (h : shape.IsWhole ms) (hbox : List.Forall₂ (· ≤ ·) ms ns)
    (hpos : 0 < ns.prod) (hle : ns.prod ≤ Number.safeLimit) :
    shape.size.IsWhole ms.prod := by
  have hw := isWhole_foldl_mul h hbox Number.isWhole_one hpos
    (by rwa [Nat.one_mul])
  rwa [Nat.one_mul] at hw

/-- Without a zero extent the size is the product of the extents. -/
theorem IsWhole.size {shape : Shape} {ns : List Nat} (h : shape.IsWhole ns)
    (hpos : 0 < ns.prod) (hle : ns.prod ≤ Number.safeLimit) :
    shape.size.IsWhole ns.prod :=
  h.size_of_le (List.forall₂_same.mpr fun _ _ => le_refl _) hpos hle

/-- With a zero extent the size is zero, or not a number where the product
passed the numbers before. -/
theorem IsWhole.isNull_size {shape : Shape} {ns : List Nat}
    (h : shape.IsWhole ns) (h0 : ns.prod = 0) : IsNull shape.size :=
  isNull_size_of_forall₂ (R := Number.IsWhole) (fun _ _ => isPlain_of_isWhole)
    (fun _ => .inr) h h0

theorem IsNull.lt {x y : Number} {k : Nat} (hx : x.IsWhole k) (hy : IsNull y) :
    x.lt y = false := by
  rcases hy with rfl | hy
  · obtain ⟨s, m, rfl, -, -⟩ := hx
    rfl
  · rw [hx.lt hy]
    simp

/-- A count is below the size of a shape where it is below the product
of the extents. -/
theorem IsWhole.lt_size {shape : Shape} {ns : List Nat} (h : shape.IsWhole ns)
    (hle : ns.prod ≤ Number.safeLimit) {x : Number} {k : Nat}
    (hx : x.IsWhole k) :
    x.lt shape.size = decide (k < ns.prod) := by
  rcases Nat.eq_zero_or_pos ns.prod with h0 | hpos
  · rw [(h.isNull_size h0).lt hx, h0]
    simp
  · exact hx.lt (h.size hpos hle)

/-! ## Strides and positions -/

theorem IsWhole.stridesAndSpan {shape : Shape} {ns : List Nat}
    (h : shape.IsWhole ns) (hpos : 0 < ns.prod)
    (hle : ns.prod ≤ Number.safeLimit) :
    IsWhole (Shape.stridesAndSpan shape).1 (RowMajor.strides ns) ∧
      (Shape.stridesAndSpan shape).2.IsWhole ns.prod := by
  induction h with
  | nil => exact ⟨.nil, Number.isWhole_one⟩
  | @cons x n shape ns hx _ ih =>
      rw [List.prod_cons] at hpos hle
      have hn : 0 < n := Nat.pos_of_mul_pos_right hpos
      have hns : 0 < ns.prod := Nat.pos_of_mul_pos_left hpos
      obtain ⟨hstrides, hspan⟩ :=
        ih hns ((Nat.le_mul_of_pos_left _ hn).trans hle)
      refine ⟨.cons hspan hstrides, ?_⟩
      rw [List.prod_cons, Nat.mul_comm]
      exact hspan.mul hx (by rwa [Nat.mul_comm])

theorem IsWhole.strides {shape : Shape} {ns : List Nat} (h : shape.IsWhole ns)
    (hpos : 0 < ns.prod) (hle : ns.prod ≤ Number.safeLimit) :
    IsWhole (Shape.strides shape) (RowMajor.strides ns) :=
  (h.stridesAndSpan hpos hle).1

theorem inExtent_iff {i d : Number} {n : Nat} (hd : d.IsWhole n) :
    inExtent i d = true ↔ ∃ m, i.IsWhole m ∧ m < n := by
  have hext : inExtent i d = (i.isExtent && i.lt d) := rfl
  rw [hext, Bool.and_eq_true, Number.isExtent_iff]
  constructor
  · rintro ⟨⟨m, hm⟩, hlt⟩
    rw [hm.lt hd, decide_eq_true_eq] at hlt
    exact ⟨m, hm, hlt⟩
  · rintro ⟨m, hm, hlt⟩
    exact ⟨⟨m, hm⟩, by rw [hm.lt hd, decide_eq_true_eq]; exact hlt⟩

/-- Coordinates that a box accepts are the whole ones within it. -/
theorem allPairs_inExtent_iff {shape : Shape} {ns : List Nat}
    (h : shape.IsWhole ns) {index : Index}
    (hlen : index.length = shape.length) :
    allPairs inExtent index shape = true ↔ ∃ is, IsWhole index is ∧
      InBox ns is := by
  induction h generalizing index with
  | nil =>
      have hnil : index = [] := by simpa using hlen
      subst hnil
      exact ⟨fun _ => ⟨[], .nil, .nil⟩, fun _ => rfl⟩
  | @cons d n shape ns hd hs ih =>
      cases index with
      | nil => simp at hlen
      | cons i index =>
          have hlen' : index.length = shape.length := by simpa using hlen
          rw [allPairs, Bool.and_eq_true, inExtent_iff hd, ih hlen']
          constructor
          · rintro ⟨⟨m, hm, hlt⟩, is, his, hin⟩
            exact ⟨m :: is, .cons hm his, .cons hlt hin⟩
          · rintro ⟨is, his, hin⟩
            cases his with
            | cons hm his =>
                cases hin with
                | cons hlt hin => exact ⟨⟨_, hm, hlt⟩, _, his, hin⟩

theorem isWhole_foldl_add {shape : Shape} {ns : List Nat} (h : shape.IsWhole ns)
    (hle : ns.prod ≤ Number.safeLimit) {index : Index} {is : List Nat}
    (hi : IsWhole index is) (hin : InBox ns is) {x : Number} {a : Nat}
    (hx : x.IsWhole a) (hsum : a + rank ns is ≤ Number.safeLimit) :
    ((pairWith (· * ·) index (Shape.strides shape)).foldl (· + ·) x).IsWhole
      (a + rank ns is) := by
  induction h generalizing index is x a with
  | nil =>
      cases hin
      cases hi
      exact hx
  | @cons d n shape ns hd hs ih =>
      cases hin with
      | @cons m _ is _ hlt hin =>
          cases hi with
          | @cons i _ index _ him hi =>
              rw [List.prod_cons] at hle
              have hns : 0 < ns.prod := prod_pos_of_inBox hin
              have hle' : ns.prod ≤ Number.safeLimit :=
                (Nat.le_mul_of_pos_left _ (Nat.zero_lt_of_lt hlt)).trans hle
              have hspan := (IsWhole.stridesAndSpan hs hns hle').2
              rw [rank, ← Nat.add_assoc] at hsum ⊢
              have hterm := him.mul hspan (by omega)
              exact ih hle' hi hin (hx.add hterm (by omega)) hsum

/-- **The position of a coordinate is its row-major rank.** -/
theorem IsWhole.position {shape : Shape} {ns : List Nat} (h : shape.IsWhole ns)
    (hle : ns.prod ≤ Number.safeLimit) {index : Index} {is : List Nat}
    (hi : IsWhole index is) (hin : InBox ns is) :
    ∃ p, Shape.position shape index = .ok p ∧ p.IsWhole (rank ns is) := by
  have hlen : index.length = shape.length := by
    rw [hi.length_eq, h.length_eq, length_of_inBox hin]
  have hacc : allPairs inExtent index shape = true :=
    (allPairs_inExtent_iff h hlen).mpr ⟨is, hi, hin⟩
  refine ⟨_, by rw [Shape.position, if_pos hlen, if_pos hacc], ?_⟩
  have hsum : 0 + rank ns is ≤ Number.safeLimit := by
    have := rank_lt hin
    omega
  have hw := isWhole_foldl_add h hle hi hin Number.isWhole_zero hsum
  rwa [Nat.zero_add] at hw

/-- Only coordinates of the box have a position. -/
theorem IsWhole.of_position {shape : Shape} {ns : List Nat}
    (h : shape.IsWhole ns) {index : Index} {p : Number}
    (hp : Shape.position shape index = .ok p) :
    ∃ is, IsWhole index is ∧ InBox ns is := by
  unfold Shape.position at hp
  split at hp
  · rename_i hlen
    split at hp
    · rename_i hacc
      exact (allPairs_inExtent_iff h hlen).mp hacc
    · cases hp
  · cases hp

end TileGrid.Shape
