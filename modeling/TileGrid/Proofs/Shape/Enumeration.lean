import Mathlib.Algebra.BigOperators.Ring.Finset
import TileGrid.Proofs.Compaction
import TileGrid.Proofs.Number.Integer

/-!
# Enumerating a box of integer extents

Extents here are integers of any sign, up to `Number.safeLimit`. A box with an
extent that is not positive has no coordinates; in any other the enumeration
goes through the coordinates in lexicographic order, each of them once, and ends
after the last. However long it would be, its first values are those of the box:
the `k`-th is `k` in the mixed radix of the extents.
-/

namespace TileGrid

open RowMajor

/-! ## Boxes of integer extents -/

namespace RowMajor

variable {zs : List Int}

/-- The coordinate is one of the box of the integer extents `zs`. -/
def Inside (zs : List Int) (is : List Nat) : Prop :=
  List.Forall₂ (fun (i : Nat) (z : Int) => (i : Int) < z) is zs

/-- Extents below zero leave no more room than zero. -/
theorem inBox_toNat_iff {is : List Nat} :
    InBox (zs.map Int.toNat) is ↔ Inside zs is := by
  rw [InBox, Inside, List.forall₂_map_right_iff]
  simp only [Int.lt_toNat]

theorem prod_toNat_eq_zero_iff :
    (zs.map Int.toNat).prod = 0 ↔ ∃ z ∈ zs, z ≤ 0 := by
  simp [List.prod_eq_zero_iff]

theorem prod_toNat_pos_iff : 0 < (zs.map Int.toNat).prod ↔ ∀ z ∈ zs, 0 < z := by
  rw [RowMajor.prod_pos_iff]
  simp

theorem prod_toNat_of_pos (hpos : ∀ z ∈ zs, 0 < z) :
    ((zs.map Int.toNat).prod : Int) = zs.prod := by
  have hcast : zs.map (Nat.cast ∘ Int.toNat) = zs.map id :=
    List.map_congr_left fun z hz => Int.toNat_of_nonneg (hpos z hz).le
  rw [Nat.cast_list_prod, List.map_map, hcast, List.map_id]

theorem prod_toNat :
    ((zs.map Int.toNat).prod : Int) = if ∃ z ∈ zs, z ≤ 0 then 0
      else zs.prod := by
  split
  · rename_i h
    exact_mod_cast prod_toNat_eq_zero_iff.mpr h
  · rename_i h
    push Not at h
    exact prod_toNat_of_pos h

theorem getElem?_box {ns c : List Nat} {k : Nat} :
    (box ns)[k]? = some c ↔ k < ns.prod ∧ coordinate ns k = c := by
  by_cases hk : k < ns.prod
  · simp [box, hk]
  · simp [box, hk]

/-- A coordinate of the box is its rank, written in the mixed radix
of the extents. -/
theorem sum_digits (hpos : ∀ z ∈ zs, 0 < z) {is : List Nat}
    (hlen : is.length = zs.length) :
    ∑ d ∈ Finset.range zs.length, (is.getD d 0 : Int) * (zs.drop (d + 1)).prod =
      rank (zs.map Int.toNat) is := by
  have hlen' : is.length = (zs.map Int.toNat).length := by simpa using hlen
  rw [rank_eq_sum hlen', List.length_map, Nat.cast_sum]
  apply Finset.sum_congr rfl
  intro d hd
  have hd' : d < (zs.map Int.toNat).length := by simpa using hd
  rw [getD_strides hd', ← List.map_drop, Nat.cast_mul,
    prod_toNat_of_pos fun z hz => hpos z (List.mem_of_mem_drop hz)]

end RowMajor

/-! ## Where the enumeration stands -/

namespace Shape

variable {counts : Shape} {zs : List Int}

theorem isWhole_toNat (hc : List.Forall₂ Number.IsInt counts zs)
    (hpos : ∀ z ∈ zs, 0 < z) :
    counts.IsWhole (zs.map Int.toNat) := by
  induction hc with
  | nil => exact .nil
  | cons hx _ ih =>
      obtain ⟨hz, hpos⟩ := List.forall_mem_cons.mp hpos
      exact .cons (hx.isWhole hz.le) (ih hpos)

theorem any_le_zero (hc : List.Forall₂ Number.IsInt counts zs) :
    counts.any (·.le 0) = decide (∃ z ∈ zs, z ≤ 0) := by
  induction hc with
  | nil => simp
  | cons hx _ ih =>
      rw [List.any_cons, ih, hx.le_zero]
      simp [← Bool.decide_or]

/-- An enumeration starts at the corner, if the box has one. -/
theorem first?_toNat (hc : List.Forall₂ Number.IsInt counts zs) :
    first? counts = cursor (zs.map Int.toNat) 0 := by
  by_cases hnone : ∃ z ∈ zs, z ≤ 0
  · rw [first?, any_le_zero hc, if_pos (decide_eq_true hnone), cursor,
      if_neg (by rw [prod_toNat_eq_zero_iff.mpr hnone]; simp)]
  · push Not at hnone
    exact first?_eq (isWhole_toNat hc hnone)

theorem le_safeLimit_toNat (hle : ∀ z ∈ zs, z ≤ Number.safeLimit) :
    ∀ n ∈ zs.map Int.toNat, n ≤ Number.safeLimit := by
  intro n hn
  obtain ⟨z, hz, rfl⟩ := List.mem_map.mp hn
  exact Int.toNat_le.mpr (hle z hz)

/-- The first values from the corner of a box, if it has one, and whether the
enumeration ended with them. -/
theorem takeFrom_corner {ns : List Nat}
    (h : 0 < ns.prod → counts.IsWhole ns ∧ ∀ n ∈ ns, n ≤ Number.safeLimit)
    (n : Nat) :
    takeFrom counts n (cursor ns 0) =
      (((box ns).take n).map whole, decide (ns.prod ≤ n)) := by
  rcases Nat.eq_zero_or_pos ns.prod with h0 | hpos
  · simp [cursor, h0, takeFrom, box]
  · obtain ⟨hwhole, hle⟩ := h hpos
    rw [takeFrom_cursor hwhole hle, Nat.sub_zero, box, ← List.map_take,
      List.take_range, List.map_map, List.range_eq_range']
    rfl

theorem take_toNat (hc : List.Forall₂ Number.IsInt counts zs)
    (hle : ∀ z ∈ zs, z ≤ Number.safeLimit) (n : Nat) :
    take counts n = (((box (zs.map Int.toNat)).take n).map whole,
      decide ((zs.map Int.toNat).prod ≤ n)) := by
  rw [take, first?_toNat hc]
  apply takeFrom_corner
  intro hpos
  exact ⟨isWhole_toNat hc (prod_toNat_pos_iff.mp hpos), le_safeLimit_toNat hle⟩

theorem prod_le_stepBound_toNat (hc : List.Forall₂ Number.IsInt counts zs)
    (hle : ∀ z ∈ zs, z ≤ Number.safeLimit) :
    (zs.map Int.toNat).prod ≤ stepBound counts := by
  rcases Nat.eq_zero_or_pos (zs.map Int.toNat).prod with h0 | hpos
  · omega
  · exact prod_le_stepBound (isWhole_toNat hc (prod_toNat_pos_iff.mp hpos))
      (le_safeLimit_toNat hle)

/-! ## The enumeration -/

/-- The enumeration of the box of the integer extents `zs` comes by the
coordinates `cs`. -/
structure Enumeration (counts : Shape) (zs : List Int)
    (cs : List (List Nat)) : Prop where
  /-- Each coordinate of the box comes once, in lexicographic order. -/
  enumerates : Enumerates (Inside zs) cs
  count : (cs.length : Int) = if ∃ z ∈ zs, z ≤ 0 then 0 else zs.prod
  /-- The `k`-th is `k` in the mixed radix of the extents. -/
  digits : ∀ (k : Nat) c, cs[k]? = some c →
    ∑ d ∈ Finset.range zs.length,
      (c.getD d 0 : Int) * (zs.drop (d + 1)).prod = k
  exact : ∀ c ∈ cs, IsWhole (whole c) c
  first : first? counts = cs[0]?.map whole
  next : ∀ (k : Nat) c, cs[k]? = some c →
    next? counts (whole c) = cs[k + 1]?.map whole
  take : ∀ n, take counts n = ((cs.take n).map whole, decide (cs.length ≤ n))
  all : indices counts = cs.map whole
  empty : (∃ z ∈ zs, z ≤ 0) → cs = []
  point : zs = [] → cs = [[]]

theorem cursor_eq (ns : List Nat) (k : Nat) :
    cursor ns k = (box ns)[k]?.map whole := by
  by_cases hk : k < ns.prod
  · simp [cursor, box, hk]
  · simp [cursor, box, hk]

/-- **An enumeration of a box is exact and ends**, for extents of any
number and any sign. -/
theorem enumeration_exact (hc : List.Forall₂ Number.IsInt counts zs)
    (hle : ∀ z ∈ zs, z ≤ Number.safeLimit) :
    ∃ cs, Enumeration counts zs cs := by
  have hlength : (box (zs.map Int.toNat)).length = (zs.map Int.toNat).prod := by
    simp [box]
  have hlim := le_safeLimit_toNat hle
  refine ⟨box (zs.map Int.toNat), ?_⟩
  constructor
  case enumerates =>
    exact ⟨pairwise_box _, fun c => mem_box.trans inBox_toNat_iff⟩
  case count =>
    rw [hlength, prod_toNat]
  case digits =>
    intro k c hk
    obtain ⟨hlt, rfl⟩ := getElem?_box.mp hk
    have hin := inBox_coordinate hlt
    rw [sum_digits (prod_toNat_pos_iff.mp (by omega))
      (by simpa using length_of_inBox hin), rank_coordinate hlt]
  case exact =>
    intro c hmem
    exact isWhole_whole
      (forall_le_of_le ((mem_box.mp hmem).imp fun _ _ => Nat.le_of_lt) hlim)
  case first =>
    rw [first?_toNat hc, cursor_eq]
  case next =>
    intro k c hk
    obtain ⟨hlt, rfl⟩ := getElem?_box.mp hk
    have hwhole := isWhole_toNat hc (prod_toNat_pos_iff.mp (by omega))
    rw [next?_cursor hwhole hlim hlt, cursor_eq]
  case take =>
    intro n
    rw [take_toNat hc hle, hlength]
  case all =>
    rw [indices, take_toNat hc hle, List.take_of_length_le]
    rw [hlength]
    exact prod_le_stepBound_toNat hc hle
  case empty =>
    intro hnone
    simp [box, prod_toNat_eq_zero_iff.mpr hnone]
  case point =>
    rintro rfl
    rfl

/-- An enumeration that is too long to be seen to its end, and one of nothing:
two extents are negative, and their product is not. -/
theorem enumeration_exact_long :
    let long : Shape := [.ofInt (2 ^ 53), .ofInt 3]
    let none : Shape := [.ofInt (-5), .ofInt 3, .ofInt (-2)]
    (List.Forall₂ Number.IsInt long [2 ^ 53, 3] ∧
      ∃ cs, Enumeration long [2 ^ 53, 3] cs ∧
        cs.length = 3 * 2 ^ 53 ∧
        Shape.take long 4 =
          ([whole [0, 0], whole [0, 1], whole [0, 2], whole [1, 0]], false)) ∧
    List.Forall₂ Number.IsInt none [-5, 3, -2] ∧
    Enumeration none [-5, 3, -2] [] := by
  intro long none
  have hlong : List.Forall₂ Number.IsInt long [2 ^ 53, 3] :=
    .cons (Number.isInt_ofInt (by decide))
      (.cons (Number.isInt_ofInt (by decide)) .nil)
  have hnone : List.Forall₂ Number.IsInt none [-5, 3, -2] :=
    .cons (Number.isInt_ofInt (by decide))
      (.cons (Number.isInt_ofInt (by decide))
      (.cons (Number.isInt_ofInt (by decide)) .nil))
  obtain ⟨cs, hcs⟩ := enumeration_exact hlong (by decide)
  obtain ⟨ds, hds⟩ := enumeration_exact hnone (by decide)
  have hlength : (cs.length : Int) = 3 * 2 ^ 53 := hcs.count
  obtain rfl := hds.empty (by decide)
  exact ⟨⟨hlong, cs, hcs, by exact_mod_cast hlength, by decide +kernel⟩,
    hnone, hds⟩

end Shape

end TileGrid
