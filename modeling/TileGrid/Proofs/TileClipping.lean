import TileGrid.Proofs.Compaction
import TileGrid.Proofs.ExactCounts
import TileGrid.Proofs.Mapping

/-!
# Tiles and transfers clip alike

How much of a tile lies inside the iteration space and how much of a transfer
lies inside an array are computed by two formulas, of which only that of
transfers stops at zero. For an array over the iteration space they agree on
every tile: a load of the nominal extents is valid on just the extents of the
tile, a load of those extents is valid throughout, and both hold what the array
holds in the box of the tile, in row-major order.
-/

namespace TileGrid

open RowMajor Shape

variable {ν : Type}

/-! ## Boxes moved to an origin -/

namespace RowMajor

end RowMajor

namespace Tiling

variable {gs ts is : List Nat}

end Tiling

/-! ## Compacting what was loaded -/

namespace Buffer

variable {h : Host ν} {ns os ss : List Nat}

/-- **What a loaded buffer compacts to**: the elements of the array on the part
of the box that lies inside, as long as the storage of the buffer is kept. -/
theorem exists_load {t : Tensor} {origin shape : Shape} (ht : t.Sound h ns)
    (ho : IsWhole origin os) (hos : os.length = ns.length)
    (hs : shape.IsWhole ss) (hss : ss.length = ns.length)
    (hlim : ∀ s ∈ ss, s ≤ Number.safeLimit) (hlt : ss.prod < Number.safeLimit) :
    ∃ b cells, load ⟨t.backing, origin⟩ shape h = .ok b (h.pushCells cells) ∧
      b.values.shape = shape ∧ b.valid = whole (clip ns os ss) ∧
      ∀ h', Host.ArraysKept (h.pushCells cells) h' →
        b.compact h' = settle (listOf ((box (clip ns os ss)).map fun c =>
          (t.block h).elem ns (shift os c))) h' := by
  have hle := clip_le hos hss
  have hheld : ∀ c, InBox (clip ns os ss) c →
      t.kind.Holds ((t.block h).elem ns (shift os c)) :=
    fun c hc => ht.block.holds_elem ((inBox_clip_iff hos hss).mp hc).2
  refine ⟨_, _, load_eq ht ho hos hs hss hlim hlt, rfl, rfl, fun h' hkept => ?_⟩
  have hsound := Tensor.sound_allocated (Block.sound_filled hs hlt hheld) h
  have hblock : Tensor.block ⟨t.kind, shape, h.storages.size⟩ h' =
      Block.filled t.kind shape ss (clip ns os ss) fun c =>
        (t.block h).elem ns (shift os c) :=
    (hkept.block_eq hsound.allocated).trans (Tensor.block_allocated _ h)
  rw [compact_eq (hkept.sound hsound) (isWhole_clip hos hss hlim) hle, hblock,
    List.map_congr_left fun c hc => Block.elem_filled hle (mem_box.mp hc)]

end Buffer

/-! ## Tiles of an array over the iteration space -/

namespace Launch

variable {l : Launch} {gs ts is : List Nat} {a : Tensor} {h : Host ν}

theorem Splits.tile_le (hs : l.Splits gs ts)
    (htile : ts.prod < Number.safeLimit) :
    ∀ t ∈ ts, t ≤ Number.safeLimit := fun t ht =>
  (le_prod_of_mem (prod_pos_iff.mpr hs.tile_pos) t ht).trans
    (Nat.le_of_lt htile)

end Launch

end TileGrid
