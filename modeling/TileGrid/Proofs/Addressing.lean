import TileGrid.Proofs.Construction
import TileGrid.Proofs.Transfer

/-!
# Coordinates as addresses of cells

An array is made of a shape and a storage of as many cells as the shape has
elements. Its coordinates are then the addresses of its cells: each coordinate
of the box is that of one cell, in lexicographic order, and nothing else is
accepted (`Tensor.Addresses`). Arrays over one storage meet where the ranks of
their coordinates are equal, so a write through one is seen through the other
there and nowhere else.
-/

namespace TileGrid

open RowMajor Shape

variable {ν : Type}

/-! ## One cell written -/

namespace Block

variable {b : Block} {ns : List Nat}

theorem Laid.setCell (hb : b.Laid ns) (p : Nat) (e : Element) :
    Laid { b with cells := b.cells.setIfInBounds p e } ns :=
  ⟨hb.shape, (Array.size_setIfInBounds).trans hb.size, hb.bound⟩

theorem Laid.elem_setCell (hb : b.Laid ns) (p : Nat) (e : Element)
    {is : List Nat} (hin : InBox ns is) :
    elem { b with cells := b.cells.setIfInBounds p e } ns is =
      if p = rank ns is then e else b.elem ns is := by
  have hlt : rank ns is < b.cells.size := by
    rw [hb.size]
    exact rank_lt hin
  by_cases hp : p = rank ns is
  · subst hp
    simp [elem, hlt]
  · simp [elem, hp, Array.getElem?_setIfInBounds_ne hp]

end Block

namespace Tensor

variable {t : Tensor} {h : Host ν} {ns : List Nat}

/-- An array with cells is on a storage of the host. -/
theorem allocated_of_size_pos (hpos : 0 < (h.cells t.storage).size) :
    t.storage < h.storages.size := by
  by_contra hout
  have hnone : h.cells t.storage = #[] := by simp [Host.cells, hout]
  rw [hnone] at hpos
  exact absurd hpos (by simp)

theorem set_of_laid (ht : (t.block h).Laid ns) {index : Index} {is : List Nat}
    (hi : IsWhole index is) (hin : InBox ns is) {v e : Element}
    (he : t.kind.convert v = .ok e) :
    t.set index v h = .ok () (h.putCell t.storage (rank ns is) e) := by
  have hplace : (t.block h).place index v = .ok (rank ns is, e) :=
    ht.place_eq hi hin he
  rw [set, hplace]

/-- An array after one cell is written, of its storage or of another. -/
theorem block_putCell (hpos : 0 < (t.block h).cells.size) (storage p : Nat)
    (e : Element) :
    t.block (h.putCell storage p e) =
      if t.storage = storage then
        { t.block h with cells := (t.block h).cells.setIfInBounds p e }
      else t.block h := by
  rw [Host.putCell_eq]
  by_cases hown : t.storage = storage
  · subst hown
    rw [if_pos rfl]
    exact block_updateCells (allocated_of_size_pos hpos) _
  · rw [if_neg hown]
    exact block_updateCells_of_ne hown _

theorem laid_putCell (ht : (t.block h).Laid ns) (hpos : 0 < ns.prod)
    (storage p : Nat) (e : Element) :
    (t.block (h.putCell storage p e)).Laid ns := by
  rw [block_putCell (hpos.trans_eq ht.size.symm)]
  split
  · exact ht.setCell p e
  · exact ht

/-- What is read where one cell was written. -/
theorem get_putCell (ht : (t.block h).Laid ns) {index : Index} {is : List Nat}
    (hi : IsWhole index is) (hin : InBox ns is) (storage p : Nat)
    (e : Element) :
    t.get index (h.putCell storage p e) =
      .ok (if t.storage = storage ∧ p = rank ns is then e
        else (t.block h).elem ns is)
        (h.putCell storage p e) := by
  have hpos := prod_pos_of_inBox hin
  rw [get_of_laid (laid_putCell ht hpos storage p e) hi hin,
    block_putCell (hpos.trans_eq ht.size.symm)]
  by_cases hown : t.storage = storage
  · rw [if_pos hown, ht.elem_setCell p e hin]
    simp [hown]
  · simp [hown]

/-- A write that is refused changes nothing. -/
theorem eq_of_set_error {index : Index} {v : Element} {f : Fault} {h' : Host ν}
    (hset : t.set index v h = .error f h') : h' = h := by
  unfold set at hset
  split at hset
  · cases hset
  · cases hset
    rfl

/-- What the position refuses, reading and writing refuse. -/
theorem refused_of_position {index : Index} {f : Fault}
    (hp : t.shape.position index = .error f) :
    t.get index h = .error f h ∧ ∀ v, t.set index v h = .error f h := by
  have hget : (t.block h).get index = .error f := by
    unfold Block.get
    rw [show (t.block h).shape = t.shape from rfl, hp]
    rfl
  have hplace : ∀ v, (t.block h).place index v = .error f := by
    intro v
    unfold Block.place
    rw [show (t.block h).shape = t.shape from rfl, hp]
    rfl
  constructor
  · rw [get, hget]
    rfl
  · intro v
    rw [set, hplace]

/-! ## Arrays as they are made -/

/-- What is checked where an array is made over a storage that has cells: the
extents, and that the storage is as long as the shape asks for. No storage has
as many cells as the limit. -/
structure Made (t : Tensor) (h : Host ν) : Prop where
  extents : t.shape.checkExtents = .ok ()
  length : Number.eqv (.ofNat (h.cells t.storage).size) t.shape.size = true
  cells : h.cells t.storage ≠ #[]
  bound : (h.cells t.storage).size < Number.safeLimit

theorem Made.laid (ht : t.Made h) : ∃ ns, (t.block h).Laid ns := by
  obtain ⟨ns, hs⟩ := Block.checkExtents_ok ht.extents
  have hprod := hs.prod_eq_of_eqv (Number.isWhole_ofNat (Nat.le_of_lt ht.bound))
    ht.bound ht.length
  exact ⟨ns, hs, hprod.symm, hprod.trans_lt ht.bound⟩

/-- An array with cells, put on storage of its own. -/
theorem made_allocated {b : Block} (hb : b.Laid ns) (hpos : 0 < ns.prod)
    (h : Host ν) :
    Made ⟨b.kind, b.shape, h.storages.size⟩ (h.pushCells b.cells) := by
  have hcells := Host.cells_pushCells_self h b.cells
  refine ⟨?_, ?_, ?_, ?_⟩
  · exact if_pos (all_isExtent_iff.mpr ⟨ns, hb.shape⟩)
  · have hsize := hb.shape.size hpos (Nat.le_of_lt hb.bound)
    rw [hcells, hb.size,
      (Number.isWhole_ofNat (Nat.le_of_lt hb.bound)).eqv hsize]
    simp
  · rw [hcells]
    exact Array.size_pos_iff.mp (hpos.trans_eq hb.size.symm)
  · rw [hcells, hb.size]
    exact hb.bound

/-- An array of another shape over the storage of one that has cells. -/
theorem Made.share (ht : t.Made h) {shape : Shape} {u : Tensor} {h' : Host ν}
    (hshare : t.share shape h = .ok u h') :
    h' = h ∧ u.storage = t.storage ∧ u.kind = t.kind ∧ u.Made h := by
  unfold Tensor.share at hshare
  cases hcheck : shape.checkExtents with
  | error f =>
      rw [hcheck] at hshare
      cases hshare
  | ok _ =>
      rw [hcheck] at hshare
      simp only at hshare
      split at hshare
      · rename_i hlength
        cases hshare
        exact ⟨rfl, rfl, rfl, hcheck, hlength, ht.cells, ht.bound⟩
      · cases hshare

/-! ## Positions -/

/-- The coordinates of the array, of extents `ns`, are the addresses of
its cells. -/
structure Addresses (t : Tensor) (h : Host ν) (ns : List Nat) : Prop where
  extents : t.shape.IsWhole ns
  size : t.shape.size.IsWhole ns.prod
  cells : (h.cells t.storage).size = ns.prod
  rank : ∀ index : Index, index.length ≠ t.shape.length → ∃ f,
    t.shape.position index = .error f ∧
      f = .indexRank (.ofNat index.length) t.shape ∧
      f.sort = .shape
  /-- A component is refused if it is not a whole number within its extent. -/
  range : ∀ index : Index, index.length = t.shape.length →
    (∀ c : Point ns, ¬ IsWhole index c.1) →
    ∃ f, t.shape.position index = .error f ∧ f = .indexRange index t.shape ∧
      f.sort = .access
  /-- The coordinates are numbered in lexicographic order, from zero
  to the last cell. -/
  position : ∀ (c : Point ns) (index : Index), IsWhole index c.1 →
    ∃ p, t.shape.position index = .ok p ∧ p.IsWhole (rankIso ns c)
  /-- What the position refuses, reading and writing refuse. -/
  refused : ∀ index f, t.shape.position index = .error f →
    t.get index h = .error f h ∧ ∀ v, t.set index v h = .error f h

theorem addresses_of_laid (ht : (t.block h).Laid ns) (hpos : 0 < ns.prod) :
    t.Addresses h ns := by
  have hs : t.shape.IsWhole ns := ht.shape
  have hle := Nat.le_of_lt ht.bound
  constructor
  case extents => exact hs
  case size => exact hs.size hpos hle
  case cells => exact ht.size
  case rank =>
    intro index hlen
    exact ⟨_, by rw [Shape.position, if_neg hlen], rfl, rfl⟩
  case range =>
    intro index hlen hnone
    have hout : ¬ allPairs inExtent index t.shape = true := by
      intro hall
      obtain ⟨is, hi, hin⟩ := (allPairs_inExtent_iff hs hlen).mp hall
      exact hnone ⟨is, hin⟩ hi
    exact ⟨_, by rw [Shape.position, if_pos hlen, if_neg hout], rfl, rfl⟩
  case position =>
    intro c index hi
    exact hs.position hle hi c.2
  case refused =>
    intro index f hp
    exact refused_of_position hp

/-- **Coordinates are addresses, and a read sees the writes to its own cell.**
For any two arrays, a write through the one that is taken leaves what it
converts to in the cell of its rank, which the other reads if the two are over
one storage, and leaves all else as it was. -/
theorem row_major_access {a b : Tensor} (ha : a.Made h) (hb : b.Made h) :
    ∃ ms ns, a.Addresses h ms ∧ b.Addresses h ns ∧
      (∀ (c : Point ms) (d : Point ns) (i j : Index) (v e : Element),
        IsWhole i c.1 → IsWhole j d.1 → a.kind.convert v = .ok e →
        ∃ h' old, a.set i v h = .ok () h' ∧ b.get j h = .ok old h ∧
          b.get j h' =
            .ok (if b.storage = a.storage ∧
                (rankIso ms c : Nat) = rankIso ns d then e else old) h') ∧
      ∀ (i : Index) (v : Element) (f : Fault) (h' : Host ν),
        a.set i v h = .error f h' → h' = h := by
  obtain ⟨ms, hla⟩ := ha.laid
  obtain ⟨ns, hlb⟩ := hb.laid
  have hpa : 0 < ms.prod := by
    rw [← hla.size]
    exact Array.size_pos_iff.mpr ha.cells
  have hpb : 0 < ns.prod := by
    rw [← hlb.size]
    exact Array.size_pos_iff.mpr hb.cells
  refine ⟨ms, ns, addresses_of_laid hla hpa, addresses_of_laid hlb hpb, ?_, ?_⟩
  · intro c d i j v e hi hj he
    exact ⟨_, _, set_of_laid hla hi c.2 he, get_of_laid hlb hj d.2,
      get_putCell hlb hj d.2 _ _ _⟩
  · intro i v f h' hset
    exact eq_of_set_error hset

/-- Six cells under two shapes. The write at `[1, 0]` of the one is seen at
`[1, 1]` of the other and not at `[0, 1]`. -/
theorem row_major_access_reshaped :
    let h : Host Unit :=
      (Host.empty .empty ()).pushCells (Array.replicate 6 (Kind.zero .i8))
    let a : Tensor := ⟨.i8, whole [2, 3], 0⟩
    let b : Tensor := ⟨.i8, whole [3, 2], 0⟩
    a.Made h ∧ b.Made h ∧
      ∃ h', a.set (whole [1, 0]) (.number (.ofNat 300)) h = .ok () h' ∧
        b.get (whole [1, 1]) h' = .ok (.number (.ofInt 44)) h' ∧
        ∃ old, b.get (whole [0, 1]) h = .ok old h ∧
          b.get (whole [0, 1]) h' = .ok old h' := by
  intro h a b
  have hextents : (whole [2, 3]).IsWhole [2, 3] := isWhole_whole (by decide)
  have hblock := Block.sound_zeros hextents (by decide) .i8
  have ha : a.Made h := made_allocated hblock.laid (by decide)
    (Host.empty .empty ())
  have hshare : a.share (whole [3, 2]) h = .ok b h := by
    have hcheck : (whole [3, 2]).checkExtents = .ok () :=
      if_pos (all_isExtent_iff.mpr ⟨_, isWhole_whole (by decide)⟩)
    unfold Tensor.share
    rw [hcheck]
    exact if_pos (by decide +kernel)
  have hb : b.Made h := (ha.share hshare).2.2.2
  obtain ⟨ms, ns, hma, hnb, hsee, -⟩ := row_major_access ha hb
  obtain rfl : ms = [2, 3] := hma.extents.unique hextents
  obtain rfl : ns = [3, 2] := hnb.extents.unique (isWhole_whole (by decide))
  have hwhole : ∀ {is}, InBox [2, 3] is ∨ InBox [3, 2] is →
      IsWhole (whole is) is := by
    rintro is (hin | hin)
    · exact isWhole_whole_of_inBox hin (by decide)
    · exact isWhole_whole_of_inBox hin (by decide)
  have hthree : InBox [2, 3] [1, 0] :=
    .cons (by decide) (.cons (by decide) .nil)
  have hthree' : InBox [3, 2] [1, 1] :=
    .cons (by decide) (.cons (by decide) .nil)
  have hone : InBox [3, 2] [0, 1] := .cons (by decide) (.cons (by decide) .nil)
  have hconvert : a.kind.convert (.number (.ofNat 300)) =
      .ok (.number (.ofInt 44)) := by
    have hwrap : Kind.wrap 8 true (Number.ofNat 300).counted.truncate = 44 := by
      decide +kernel
    rw [← hwrap]
    rfl
  obtain ⟨h', _, hset, -, hseen⟩ :=
    hsee ⟨_, hthree⟩ ⟨_, hthree'⟩ _ _ _ _ (hwhole (.inl hthree))
    (hwhole (.inr hthree')) hconvert
  obtain ⟨h'', old, hset', hold, hkept⟩ :=
    hsee ⟨_, hthree⟩ ⟨_, hone⟩ _ _ _ _ (hwhole (.inl hthree))
    (hwhole (.inr hone)) hconvert
  obtain rfl : h' = h'' := by
    rw [hset] at hset'
    cases hset'
    rfl
  exact ⟨ha, hb, h', hset, hseen, old, hold, hkept⟩

end Tensor

end TileGrid
