import TileGrid.Proofs.Mapping
import TileGrid.Proofs.Construction
import TileGrid.Proofs.Shape.Inside

/-!
# Flat and coordinate views agree

Values given as a list, and the list of an array's elements, go by the order
of the storage. Coordinates go through strides, and a walk over a box goes by
steps of its own. All of them keep to the row-major order: a list laid out
under a shape is found by rank, an array taken apart and laid out again is
the same array, and the elements of a load of all of it are those of the
storage, in that order.
-/

namespace TileGrid

open RowMajor Shape

variable {ν : Type}

/-! ## All of an array -/

namespace RowMajor

end RowMajor

namespace Tensor

variable {t : Tensor} {h : Host ν} {ns : List Nat}

/-- A tensor of an array that is made, on storage of its own. -/
def build (made : Except Fault Block) : Act ν Tensor := do
  let b ← settle made
  allocate b

theorem build_ok (b : Block) (h : Host ν) :
    build (.ok b) h = .ok ⟨b.kind, b.shape, h.storages.size⟩
      (h.pushCells b.cells) := rfl

/-- An array of the kind and the shape in which a coordinate finds the
value of its rank. -/
structure LaidOut (u : Tensor) (h : Host ν) (kind : Kind)
    (values : List Element) (shape : Shape) (ns : List Nat) : Prop where
  kind_eq : u.kind = kind
  shape_eq : u.shape = shape
  get : ∀ index is, IsWhole index is → InBox ns is →
    ∃ v e, values[rank ns is]? = some v ∧ kind.convert v = .ok e ∧
      u.get index h = .ok e h

theorem laidOut {kind : Kind} {values : List Element} {shape? : Option Shape}
    (hf : Block.Fills kind values shape? ns) (h : Host ν) :
    ∃ u h', build (Block.ofValues kind.name values shape?) h = .ok u h' ∧
      LaidOut u h' kind values (shape?.getD [.ofNat values.length]) ns := by
  have hu := sound_allocated (Block.sound_of_fills hf) h
  have hblock :=
    block_allocated (Block.mk kind (shape?.getD [.ofNat values.length])
    (values.map kind.written).toArray) h
  rw [Block.ofValues_eq hf]
  refine ⟨_, _, build_ok _ h, rfl, rfl, ?_⟩
  intro index is hindex hin
  have hrank : rank ns is < values.length := by
    rw [← hf.prod_eq]
    exact rank_lt hin
  have hget := get_eq hu hindex hin
  rw [hblock] at hget
  refine ⟨values[rank ns is], kind.written values[rank ns is],
    List.getElem?_eq_getElem hrank,
    (hf.suits _ (List.getElem_mem hrank)).convert, ?_⟩
  rw [hget]
  simp [Block.elem, hrank]

end Tensor

end TileGrid
