import TileGrid.Proofs.Script.Execution

/-!
# Arrays after every script

Whatever a script did, and however its steps ended, every array that can be
reached from a name has as many cells as its size says, strides that are the
products of later extents, no coordinate that is accepted and leads past the
storage, and cells that hold what their kind allows.
-/

namespace TileGrid

open RowMajor Shape

/-- What the representation of an array of extents `ns` has to be. -/
structure Block.WellFormed (b : Block) (ns : List Nat) : Prop where
  shape : b.shape.IsWhole ns
  /-- A size that is not a number is that of an array without cells. -/
  size : b.size.IsWhole b.cells.size ∨ b.size = .nan ∧ b.cells = #[]
  strides : b.cells ≠ #[] → ∀ d < ns.length,
    ∃ x, b.shape.strides[d]? = some x ∧ x.IsWhole (ns.drop (d + 1)).prod
  /-- An accepted coordinate leads to a cell, which is what reading it gives. -/
  position : ∀ index p, b.shape.position index = .ok p →
    ∃ k e, p.IsWhole k ∧ k < b.cells.size ∧ b.cells[k]? = some e ∧
      b.get index = .ok e
  converted : ∀ e ∈ b.cells, b.kind.convert e = .ok e
  inRange : ∀ e ∈ b.cells,
    match b.kind.rule with
    | .whole bits isSigned =>
      ∃ z, e = .number (.ofInt z) ∧ Kind.InRange bits isSigned z
    | .wide isSigned => ∃ z, e = .integer z ∧ Kind.InRange 64 isSigned z
    | .rounded _ => True

namespace Block.Sound

variable {b : Block} {ns : List Nat}

theorem isWhole_size (hb : b.Sound ns) :
    b.size.IsWhole b.cells.size ∨ b.size = .nan ∧ b.cells = #[] := by
  rcases hb.shape.size_cases with ⟨h0, hnan | hzero⟩ | ⟨-, -, hw⟩ | ⟨hge, -⟩
  · -- the product was infinite before the zero extent came
    exact .inr ⟨hnan, Array.eq_empty_of_size_eq_zero (by rw [hb.size, h0])⟩
  · left
    rw [hb.size, h0]
    exact hzero
  · left
    rw [hb.size]
    exact hw
  · have := hb.bound
    omega

theorem getElem?_strides (hb : b.Sound ns) (hne : b.cells ≠ #[]) {d : Nat}
    (hd : d < ns.length) :
    ∃ x, b.shape.strides[d]? = some x ∧ x.IsWhole (ns.drop (d + 1)).prod := by
  have hpos : 0 < ns.prod := by
    rw [← hb.size]
    exact Array.size_pos_iff.mpr hne
  have hw := hb.shape.strides hpos (Nat.le_of_lt hb.bound)
  have hstride := RowMajor.getElem?_strides ns d hd
  obtain ⟨hd', hget⟩ := List.getElem?_eq_some_iff.mp hstride
  have hlt : d < b.shape.strides.length := by
    rw [hw.length_eq]
    exact hd'
  have hx := (List.forall₂_iff_get.mp hw).2 d hlt hd'
  simp only [List.get_eq_getElem, hget] at hx
  exact ⟨_, List.getElem?_eq_getElem hlt, hx⟩

theorem of_position (hb : b.Sound ns) {index : Index} {p : Number}
    (hp : b.shape.position index = .ok p) :
    ∃ k e, p.IsWhole k ∧ k < b.cells.size ∧ b.cells[k]? = some e ∧
      b.get index = .ok e := by
  obtain ⟨is, hi, hin⟩ := hb.shape.of_position hp
  obtain ⟨q, hq, hw⟩ := hb.shape.position (Nat.le_of_lt hb.bound) hi hin
  obtain rfl : p = q := Except.ok.inj (hp.symm.trans hq)
  have hlt : rank ns is < b.cells.size := by
    rw [hb.size]
    exact rank_lt hin
  exact ⟨rank ns is, b.elem ns is, hw, hlt, hb.getElem?_rank hin,
    hb.get_eq hi hin⟩

theorem wellFormed (hb : b.Sound ns) : b.WellFormed ns where
  shape := hb.shape
  size := hb.isWhole_size
  strides := fun hne _ hd => hb.getElem?_strides hne hd
  position := fun _ _ hp => hb.of_position hp
  converted := hb.holds
  inRange := fun e he => (hb.holds e he).inRange

end Block.Sound

namespace Script

deriving instance DecidableEq for Tensor

/-- The arrays that can be reached from a name, be it by itself, in a
buffer or in a slice. -/
def State.tensors (h : State) : List Tensor :=
  h.caller.names.flatMap (·.2.tensors)

theorem Follows.fits {w : Layout} {h : State} (hh : Follows w h) {t : Tensor}
    (ht : t ∈ h.tensors) :
    t.Fits w := by
  obtain ⟨p, hp, ht⟩ := List.mem_flatMap.mp ht
  exact hh.names p hp t ht

/-- **Every array that a script leaves is well formed**, whatever the script did
and wherever it failed. -/
theorem Program.tensors_wellFormed (p : Program) (depth : Nat) (guarded : Bool)
    (env : Environment) (t : Tensor)
    (ht : t ∈ (p.execute depth guarded
      (Host.empty env Scope.empty)).2.tensors) :
    t.storage < (p.execute depth guarded
      (Host.empty env Scope.empty)).2.storages.size ∧
    ∃ ns, (t.block (p.execute depth guarded
      (Host.empty env Scope.empty)).2).WellFormed ns := by
  have hstart : Follows [] (Host.empty env Scope.empty) :=
    ⟨Layout.describes_empty env Scope.empty,
      fun _ hp => absurd hp List.not_mem_nil⟩
  obtain ⟨w, -, hend⟩ := safeSteps_execute depth p guarded [] _
    (.refl []) hstart
  obtain ⟨ns, hsound⟩ := (hend.fits ht).sound hend.storages
  exact ⟨hsound.allocated, ns, hsound.block.wellFormed⟩

/-- Two arrays over one storage, a write past the end of the second, which is
refused, and a buffer of which part lies outside the first. -/
def sharedStorage : Program :=
  .step (.make (some "a")
    (.range "i8" (.value 6) (some (.value (.ofList [2, 3]))))) <|
  .step (.make (some "b") (.share "a" (.value (.ofList [6])))) <|
  .step (.change (.set "b" (.value (.ofList [6])) (.value 300))) <|
  .step (.make (some "c")
    (.load none (.at "a" (.value (.ofList [1, 1])))
      (.value (.ofList [2, 2])))) <|
  .step (.change (.set "b" (.value (.ofList [5])) (.value 300))) .done

theorem Program.tensors_wellFormed_shared :
    ⟨.i8, [6], 0⟩ ∈ (sharedStorage.execute 0 true
      (Host.empty .empty Scope.empty)).2.tensors ∧
    0 < (sharedStorage.execute 0 true
      (Host.empty .empty Scope.empty)).2.storages.size ∧
    ∃ ns, (Tensor.block ⟨.i8, [6], 0⟩
      (sharedStorage.execute 0 true
        (Host.empty .empty Scope.empty)).2).WellFormed ns := by
  have hreached : ⟨.i8, [6], 0⟩ ∈
      (sharedStorage.execute 0 true
        (Host.empty .empty Scope.empty)).2.tensors := by decide +kernel
  exact ⟨hreached,
    Program.tensors_wellFormed sharedStorage 0 true .empty
      ⟨.i8, [6], 0⟩ hreached⟩

end Script

end TileGrid
