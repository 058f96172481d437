import TileGrid.Proofs.Construction
import TileGrid.Proofs.Transfer

/-!
# What storages are for

Several arrays can lie on one storage, under different shapes. A layout says
once for each storage of which kind its cells are and how many there are.
Layouts only grow, so an array that fits one fits all later ones, and it is
sound in every host that the layout describes. Writing a cell keeps the layout
as it is, and fresh storage adds to it.
-/

namespace TileGrid

open Shape

variable {ν : Type}

/-- The kind and the number of the cells of each storage. -/
abbrev Layout := List (Kind × Nat)

namespace Layout

/-- Storages may be added, and those that are there stay what they are. -/
def Extends (w w' : Layout) : Prop :=
  ∀ (i : Nat) c, w[i]? = some c → w'[i]? = some c

theorem Extends.refl (w : Layout) : w.Extends w := fun _ _ h => h

theorem Extends.trans {u v w : Layout} (huv : u.Extends v) (hvw : v.Extends w) :
    u.Extends w :=
  fun i c h => hvw i c (huv i c h)

theorem extends_append (w : Layout) (c : Kind × Nat) :
    w.Extends (w ++ [c]) := by
  intro i c' h
  have hlt := (List.getElem?_eq_some_iff.mp h).1
  rw [List.getElem?_append_left hlt]
  exact h

/-- The storages of the host are those of the layout. -/
structure Describes (w : Layout) (h : Host ν) : Prop where
  count : h.storages.size = w.length
  cells : ∀ (i : Nat) kind n, w[i]? = some (kind, n) →
    (h.cells i).size = n ∧ ∀ e ∈ h.cells i, kind.Holds e

theorem describes_empty (env : Environment) (caller : ν) :
    Describes [] (Host.empty env caller) := by
  refine ⟨rfl, ?_⟩
  intro i kind n h
  simp at h

/-- Nothing but the storages matters. -/
theorem Describes.of_storages {μ : Type} {w : Layout} {h : Host ν} {h' : Host μ}
    (hw : w.Describes h) (hs : h'.storages = h.storages) : w.Describes h' := by
  refine ⟨by rw [hs, hw.count], ?_⟩
  intro i kind n hi
  have hcells : h'.cells i = h.cells i := by rw [Host.cells, hs, Host.cells]
  rw [hcells]
  exact hw.cells i kind n hi

end Layout

/-! ## Arrays on a layout -/

/-- An array on a storage of its kind, with one cell for each coordinate. -/
def Tensor.Fits (t : Tensor) (w : Layout) : Prop :=
  ∃ ns, t.shape.IsWhole ns ∧ ns.prod < Number.safeLimit ∧
    w[t.storage]? = some (t.kind, ns.prod)

namespace Tensor

variable {t : Tensor} {w w' : Layout} {h : Host ν}

theorem Fits.mono (ht : t.Fits w) (hw : w.Extends w') : t.Fits w' := by
  obtain ⟨ns, hs, hlt, hcells⟩ := ht
  exact ⟨ns, hs, hlt, hw _ _ hcells⟩

theorem Fits.sound (ht : t.Fits w) (hw : w.Describes h) :
    ∃ ns, t.Sound h ns := by
  obtain ⟨ns, hs, hlt, hcells⟩ := ht
  obtain ⟨hsize, hholds⟩ := hw.cells _ _ _ hcells
  refine ⟨ns, ?_, hs, hsize, hlt, hholds⟩
  rw [hw.count]
  exact (List.getElem?_eq_some_iff.mp hcells).1

end Tensor

namespace Layout

variable {w : Layout} {h : Host ν}

/-- Writing what its kind allows to a cell. -/
theorem Describes.putCell (hw : w.Describes h) {t : Tensor} (ht : t.Fits w)
    (p : Nat) {e : Element} (he : t.kind.Holds e) :
    w.Describes (h.putCell t.storage p e) := by
  obtain ⟨ns, hsound⟩ := ht.sound hw
  obtain ⟨_, -, -, hcells⟩ := ht
  refine ⟨by simp [Host.putCell, hw.count], ?_⟩
  intro i kind n hi
  rw [Host.putCell_eq]
  by_cases hne : i = t.storage
  · -- all arrays on the storage are of the kind of this one
    subst hne
    obtain ⟨rfl, rfl⟩ := Prod.mk.inj (Option.some.inj (hcells.symm.trans hi))
    obtain ⟨hsize, hholds⟩ := hw.cells _ _ _ hi
    rw [Host.cells_updateCells hsound.allocated]
    refine ⟨by rw [Array.size_setIfInBounds, hsize], ?_⟩
    intro u hu
    rcases Array.mem_or_eq_of_mem_setIfInBounds hu with hold | rfl
    · exact hholds u hold
    · exact he
  · rw [Host.cells_updateCells_of_ne hne]
    exact hw.cells i kind n hi

variable {b : Block} {ns : List Nat}

/-- Fresh storage for a sound array. -/
theorem Describes.pushCells (hw : w.Describes h) (hb : b.Sound ns) :
    Describes (w ++ [(b.kind, ns.prod)]) (h.pushCells b.cells) := by
  refine ⟨by simp [Host.pushCells, hw.count], ?_⟩
  intro i kind n hi
  by_cases hlt : i < w.length
  · rw [List.getElem?_append_left hlt] at hi
    rw [Host.cells_pushCells_of_lt (by rwa [hw.count])]
    exact hw.cells i kind n hi
  · have heq : i = h.storages.size := by
      have hle := (List.getElem?_eq_some_iff.mp hi).1
      simp only [List.length_append, List.length_singleton] at hle
      have := hw.count
      omega
    subst heq
    rw [hw.count, List.getElem?_concat_length] at hi
    cases hi
    rw [Host.cells_pushCells_self]
    exact ⟨hb.size, hb.holds⟩

theorem Describes.fits_allocated (hw : w.Describes h) (hb : b.Sound ns) :
    Tensor.Fits ⟨b.kind, b.shape, h.storages.size⟩
      (w ++ [(b.kind, ns.prod)]) := by
  refine ⟨ns, hb.shape, hb.bound, ?_⟩
  rw [hw.count, List.getElem?_concat_length]

/-- An array of another shape over the same storage fits, where it
is not refused. -/
theorem Describes.fits_shared (hw : w.Describes h) {t : Tensor} (ht : t.Fits w)
    {shape : Shape} (hcheck : shape.checkExtents = .ok ())
    (hsize : Number.eqv (.ofNat (h.cells t.storage).size) shape.size = true) :
    Tensor.Fits ⟨t.kind, shape, t.storage⟩ w := by
  obtain ⟨ns, -, hlt, hcells⟩ := ht
  obtain ⟨ms, hms⟩ := Block.checkExtents_ok hcheck
  -- the storage has as many cells as the array has coordinates, so
  -- the size decides
  rw [(hw.cells _ _ _ hcells).1] at hsize
  have hprod :=
    hms.prod_eq_of_eqv (Number.isWhole_ofNat (Nat.le_of_lt hlt)) hlt hsize
  exact ⟨ms, hms, by omega, by rw [hprod]; exact hcells⟩

end Layout

end TileGrid
