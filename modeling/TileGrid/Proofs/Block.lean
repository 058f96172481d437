import TileGrid.Block
import TileGrid.Masked
import TileGrid.Proofs.Along
import TileGrid.Proofs.Element
import TileGrid.Proofs.Shape.Walk

/-!
# Arrays that hold what their shape says

`Block.Sound b ns` is the representation of an array: its extents are the
naturals `ns`, it has one cell for each coordinate of the box (`Block.Laid`),
and each cell holds what a write of its kind leaves. On such an array reading
and writing go to the cell of the coordinate's row-major rank. A walk that
writes one cell after the other leaves `writes`, which reads back pointwise.
-/

namespace TileGrid

open RowMajor Shape

/-! ## The coordinates of a box -/

namespace RowMajor

/-- The coordinates of a box in row-major order. -/
def box (ns : List Nat) : List (List Nat) :=
  (List.range ns.prod).map (coordinate ns)

theorem mem_box {ns is : List Nat} : is ∈ box ns ↔ InBox ns is := by
  constructor
  · intro h
    obtain ⟨k, hk, rfl⟩ := List.mem_map.mp h
    exact inBox_coordinate (List.mem_range.mp hk)
  · intro h
    exact List.mem_map.mpr ⟨rank ns is, List.mem_range.mpr (rank_lt h),
      coordinate_rank h⟩

/-- No coordinate comes twice, and each is after those before it. -/
theorem pairwise_box (ns : List Nat) : (box ns).Pairwise (· < ·) := by
  rw [box, List.pairwise_map]
  exact List.pairwise_lt_range.imp_of_mem fun _ hk hjk =>
    coordinate_lt_coordinate hjk (List.mem_range.mp hk)

theorem le_prod_of_mem {ns : List Nat} (hpos : 0 < ns.prod) :
    ∀ n ∈ ns, n ≤ ns.prod :=
  fun _ hn => Nat.le_of_dvd hpos (List.dvd_prod hn)

/-- The components of a coordinate are below the number of coordinates. -/
theorem le_prod_of_inBox {ns is : List Nat} (hin : InBox ns is) :
    ∀ i ∈ is, i ≤ ns.prod :=
  forall_le_of_le (hin.imp fun _ _ => Nat.le_of_lt)
    (le_prod_of_mem (prod_pos_of_inBox hin))

end RowMajor

namespace Shape

/-- A coordinate of a box that is not too large is exact. -/
theorem isWhole_whole_of_inBox {ns is : List Nat} (hin : InBox ns is)
    (hle : ns.prod ≤ Number.safeLimit) : IsWhole (whole is) is :=
  isWhole_whole fun i hi => (le_prod_of_inBox hin i hi).trans hle

/-- A visit that does not ask for its number, as a fold over the
coordinates of the box. -/
theorem visitAll_eq_box {ε σ β : Type} {stuck : ε} {shape : Shape}
    {ns : List Nat} (h : shape.IsWhole ns) (hle : ns.prod ≤ Number.safeLimit)
    (init : β) (visit : β → Index → EStateM ε σ β) :
    visitAll stuck shape init (fun acc index _ => visit acc index) =
      (box ns).foldlM (fun acc c => visit acc (whole c)) init := by
  rw [visitAll_eq h hle, box, List.foldlM_map]

end Shape

/-! ## Writing cell after cell -/

section Writes

variable {place : List Nat → Nat} {val : List Nat → Element}

/-- The cells after a value is written for each of the coordinates, one
after the other. -/
def writes (place : List Nat → Nat) (val : List Nat → Element)
    (cs : List (List Nat)) (cells : Array Element) : Array Element :=
  cs.foldl (fun cells c => cells.setIfInBounds (place c) (val c)) cells

theorem writes_cons (c : List Nat) (cs : List (List Nat))
    (cells : Array Element) :
    writes place val (c :: cs) cells =
      writes place val cs (cells.setIfInBounds (place c) (val c)) := rfl

@[simp] theorem size_writes (cs : List (List Nat)) (cells : Array Element) :
    (writes place val cs cells).size = cells.size := by
  induction cs generalizing cells with
  | nil => rfl
  | cons c cs ih => rw [writes_cons, ih, Array.size_setIfInBounds]

/-- A cell that nothing is written to stays as it is. -/
theorem getElem?_writes_of_forall_ne {cs : List (List Nat)} {p : Nat}
    (h : ∀ c ∈ cs, place c ≠ p) (cells : Array Element) :
    (writes place val cs cells)[p]? = cells[p]? := by
  induction cs generalizing cells with
  | nil => rfl
  | cons c cs ih =>
      obtain ⟨hne, h⟩ := List.forall_mem_cons.mp h
      rw [writes_cons, ih h, Array.getElem?_setIfInBounds_ne hne]

/-- A cell that is written to for one coordinate only holds its value. -/
theorem getElem?_writes_of_mem {cs : List (List Nat)} {c : List Nat}
    (hc : c ∈ cs) (hinj : ∀ c' ∈ cs, place c' = place c → c' = c)
    {cells : Array Element} (hbound : place c < cells.size) :
    (writes place val cs cells)[place c]? = some (val c) := by
  induction cs generalizing cells with
  | nil => simp at hc
  | cons c' cs ih =>
      rw [writes_cons]
      by_cases hlater : c ∈ cs
      · exact ih hlater (fun u hu => hinj u (List.mem_cons_of_mem _ hu))
          (by simpa using hbound)
      · -- nothing after this write touches the cell again
        have hhere : c = c' := by simpa [hlater] using hc
        subst hhere
        have hne : ∀ u ∈ cs, place u ≠ place c := by
          intro u hu heq
          have huc := hinj u (List.mem_cons_of_mem _ hu) heq
          exact hlater (huc ▸ hu)
        rw [getElem?_writes_of_forall_ne hne,
          Array.getElem?_setIfInBounds_self_of_lt hbound]

theorem writes_congr {val' : List Nat → Element} {cs : List (List Nat)}
    (h : ∀ c ∈ cs, val c = val' c) :
    writes place val cs = writes place val' cs := by
  funext cells
  induction cs generalizing cells with
  | nil => rfl
  | cons c cs ih =>
      obtain ⟨hc, h⟩ := List.forall_mem_cons.mp h
      rw [writes_cons, writes_cons, hc, ih h]

theorem setIfInBounds_of_held {cells : Array Element} {p : Nat} {e : Element}
    (h : cells[p]? = some e) : cells.setIfInBounds p e = cells := by
  obtain ⟨hlt, hheld⟩ := Array.getElem?_eq_some_iff.mp h
  simp [Array.setIfInBounds, hlt, ← hheld]

/-- Writing to cells what they hold changes nothing. -/
theorem writes_of_held {cs : List (List Nat)} {cells : Array Element}
    (h : ∀ c ∈ cs, cells[place c]? = some (val c)) :
    writes place val cs cells = cells := by
  induction cs with
  | nil => rfl
  | cons c cs ih =>
      obtain ⟨hc, h⟩ := List.forall_mem_cons.mp h
      rw [writes_cons, setIfInBounds_of_held hc, ih h]

theorem mem_writes {cs : List (List Nat)} {cells : Array Element} {e : Element}
    (h : e ∈ writes place val cs cells) : e ∈ cells ∨ ∃ c ∈ cs, e = val c := by
  induction cs generalizing cells with
  | nil => exact .inl h
  | cons c cs ih =>
      rcases ih h with hmem | ⟨u, hu, he⟩
      · rcases Array.mem_or_eq_of_mem_setIfInBounds hmem with hold | hnew
        · exact .inl hold
        · exact .inr ⟨c, List.mem_cons_self, hnew⟩
      · exact .inr ⟨u, List.mem_cons_of_mem _ hu, he⟩

end Writes

/-! ## Sound arrays -/

namespace Block

/-- An array of extents `ns` with one cell for each coordinate, whatever
the cells hold. -/
structure Laid (b : Block) (ns : List Nat) : Prop where
  shape : b.shape.IsWhole ns
  size : b.cells.size = ns.prod
  bound : ns.prod < Number.safeLimit

/-- An array of extents `ns` with one cell for each coordinate. -/
structure Sound (b : Block) (ns : List Nat) : Prop where
  shape : b.shape.IsWhole ns
  size : b.cells.size = ns.prod
  bound : ns.prod < Number.safeLimit
  holds : ∀ e ∈ b.cells, b.kind.Holds e

/-- What the array holds at a coordinate. -/
def elem (b : Block) (ns is : List Nat) : Element :=
  b.cells.getD (rank ns is) b.kind.zero

variable {b : Block} {ns : List Nat}

theorem Sound.laid (hb : b.Sound ns) : b.Laid ns :=
  ⟨hb.shape, hb.size, hb.bound⟩

theorem Laid.getElem?_rank (hb : b.Laid ns) {is : List Nat}
    (hin : InBox ns is) :
    b.cells[rank ns is]? = some (b.elem ns is) := by
  have hlt := rank_lt hin
  rw [← hb.size] at hlt
  simp [elem, hlt]

theorem Sound.getElem?_rank (hb : b.Sound ns) {is : List Nat}
    (hin : InBox ns is) :
    b.cells[rank ns is]? = some (b.elem ns is) := hb.laid.getElem?_rank hin

theorem Sound.holds_elem (hb : b.Sound ns) {is : List Nat} (hin : InBox ns is) :
    b.kind.Holds (b.elem ns is) :=
  hb.holds _ (Array.mem_of_getElem? (hb.getElem?_rank hin))

/-- Reading a coordinate of the box gives what the array holds there. -/
theorem Laid.get_eq (hb : b.Laid ns) {index : Index} {is : List Nat}
    (hi : IsWhole index is) (hin : InBox ns is) :
    b.get index = .ok (b.elem ns is) := by
  obtain ⟨p, hp, hw⟩ := hb.shape.position (Nat.le_of_lt hb.bound) hi hin
  have hcell := hb.getElem?_rank hin
  rw [← hw.toNat] at hcell
  simp only [get, hp, bind, Except.bind, hcell]
  rfl

theorem Sound.get_eq (hb : b.Sound ns) {index : Index} {is : List Nat}
    (hi : IsWhole index is) (hin : InBox ns is) :
    b.get index = .ok (b.elem ns is) := hb.laid.get_eq hi hin

/-- Writing to a coordinate of the box goes to the cell of its rank. -/
theorem Laid.place_eq (hb : b.Laid ns) {index : Index} {is : List Nat}
    (hi : IsWhole index is) (hin : InBox ns is) {v e : Element}
    (he : b.kind.convert v = .ok e) :
    b.place index v = .ok (rank ns is, e) := by
  obtain ⟨p, hp, hw⟩ := hb.shape.position (Nat.le_of_lt hb.bound) hi hin
  have hlt := rank_lt hin
  rw [← hb.size] at hlt
  unfold place
  rw [hp, he]
  show (if p.toNat < b.cells.size then pure (p.toNat, e)
      else throw Fault.beyondStorage) = _
  rw [hw.toNat, if_pos hlt]
  rfl

theorem Sound.place_eq (hb : b.Sound ns) {index : Index} {is : List Nat}
    (hi : IsWhole index is) (hin : InBox ns is) {v e : Element}
    (he : b.kind.convert v = .ok e) :
    b.place index v = .ok (rank ns is, e) := hb.laid.place_eq hi hin he

/-- A value that the kind does not take is not written. -/
theorem Sound.place_of_error (hb : b.Sound ns) {index : Index} {is : List Nat}
    (hi : IsWhole index is) (hin : InBox ns is) {v : Element} {f : Fault}
    (he : b.kind.convert v = .error f) :
    b.place index v = .error f := by
  obtain ⟨p, hp, -⟩ := hb.shape.position (Nat.le_of_lt hb.bound) hi hin
  unfold place
  rw [hp, he]
  rfl

theorem Sound.set_eq (hb : b.Sound ns) {index : Index} {is : List Nat}
    (hi : IsWhole index is) (hin : InBox ns is) {v e : Element}
    (he : b.kind.convert v = .ok e) :
    b.set index v = .ok { b with
      cells := b.cells.setIfInBounds (rank ns is) e } := by
  unfold set
  rw [hb.place_eq hi hin he]
  rfl

/-- Cells may be replaced by others that hold what the kind allows. -/
theorem Sound.withCells (hb : b.Sound ns) {cells : Array Element}
    (hsize : cells.size = b.cells.size) (hholds : ∀ e ∈ cells, b.kind.Holds e) :
    Sound { b with cells } ns :=
  ⟨hb.shape, hsize.trans hb.size, hb.bound, hholds⟩

theorem Sound.setCell (hb : b.Sound ns) (p : Nat) {e : Element}
    (he : b.kind.Holds e) :
    Sound { b with cells := b.cells.setIfInBounds p e } ns := by
  apply hb.withCells (Array.size_setIfInBounds)
  intro u hu
  rcases Array.mem_or_eq_of_mem_setIfInBounds hu with hold | rfl
  · exact hb.holds u hold
  · exact he

theorem Sound.withWrites (hb : b.Sound ns) {place : List Nat → Nat}
    {val : List Nat → Element} {cs : List (List Nat)}
    (hval : ∀ c ∈ cs, b.kind.Holds (val c)) :
    Sound { b with cells := writes place val cs b.cells } ns := by
  apply hb.withCells (size_writes cs b.cells)
  intro e he
  rcases mem_writes he with hold | ⟨c, hc, rfl⟩
  · exact hb.holds e hold
  · exact hval c hc

/-- Sound arrays that hold the same everywhere are the same. -/
theorem Sound.ext {b' : Block} (hb : b.Sound ns) (hb' : b'.Sound ns)
    (hkind : b.kind = b'.kind) (hshape : b.shape = b'.shape)
    (h : ∀ x, InBox ns x → b.elem ns x = b'.elem ns x) : b = b' := by
  have hcells : b.cells = b'.cells := by
    apply Array.ext_getElem?
    intro p
    by_cases hp : p < ns.prod
    · have hin := inBox_coordinate hp
      have hget := hb.getElem?_rank hin
      have hget' := hb'.getElem?_rank hin
      rw [rank_coordinate hp] at hget hget'
      rw [hget, hget', h _ hin]
    · have hsize := hb.size
      have hsize' := hb'.size
      rw [Array.getElem?_eq_none (by omega), Array.getElem?_eq_none (by omega)]
  cases b
  cases b'
  simp only at hkind hshape hcells
  rw [hkind, hshape, hcells]

/-- An array of the same kind and shape with a value at each coordinate. -/
def tabulate (b : Block) (ns : List Nat) (val : List Nat → Element) : Block :=
  { b with cells := ((box ns).map val).toArray }

theorem elem_tabulate {val : List Nat → Element} {x : List Nat}
    (hx : InBox ns x) :
    (b.tabulate ns val).elem ns x = val x := by
  simp [elem, tabulate, box, rank_lt hx, coordinate_rank hx]

theorem Sound.tabulate (hb : b.Sound ns) {val : List Nat → Element}
    (hval : ∀ x, InBox ns x → b.kind.Holds (val x)) :
    (b.tabulate ns val).Sound ns := by
  apply hb.withCells
  · rw [hb.size]
    simp [box]
  · intro e he
    simp only [List.mem_toArray, List.mem_map] at he
    obtain ⟨x, hx, rfl⟩ := he
    exact hval x (mem_box.mp hx)

/-! ## Fresh arrays -/

theorem freshCells_eq {shape : Shape} {ns : List Nat} (h : shape.IsWhole ns)
    (hlt : ns.prod < Number.safeLimit) (kind : Kind) :
    freshCells kind shape.size = .ok (Array.replicate ns.prod kind.zero) := by
  have hlim := Number.isWhole_ofNat (le_refl Number.safeLimit)
  unfold freshCells
  rcases Nat.eq_zero_or_pos ns.prod with h0 | hpos
  · -- the size is zero or not a number, and there are no cells either way
    rcases h.isNull_size h0 with hnan | hzero
    · rw [hnan, h0]
      rfl
    · rw [hzero.isNaN, hzero.lt hlim, hzero.toNat, h0]
      simp [Number.safeLimit]
  · have hw := h.size hpos (Nat.le_of_lt hlt)
    rw [hw.isNaN, hw.lt hlim, hw.toNat]
    simp [hlt]

theorem zeros_eq {shape : Shape} (h : shape.IsWhole ns)
    (hlt : ns.prod < Number.safeLimit) (kind : Kind) :
    zeros kind shape = .ok ⟨kind, shape,
      Array.replicate ns.prod kind.zero⟩ := by
  have hall : shape.all Number.isExtent = true := all_isExtent_iff.mpr ⟨ns, h⟩
  unfold zeros checkExtents
  rw [if_pos hall, freshCells_eq h hlt]
  rfl

theorem zerosNamed_eq {shape : Shape} (h : shape.IsWhole ns)
    (hlt : ns.prod < Number.safeLimit) (kind : Kind) :
    zerosNamed kind.name shape = .ok ⟨kind, shape,
      Array.replicate ns.prod kind.zero⟩ := by
  unfold zerosNamed checkExtents
  rw [if_pos (all_isExtent_iff.mpr ⟨ns, h⟩), Kind.named_name]
  exact zeros_eq h hlt kind

theorem sound_zeros {shape : Shape} (h : shape.IsWhole ns)
    (hlt : ns.prod < Number.safeLimit) (kind : Kind) :
    Sound ⟨kind, shape, Array.replicate ns.prod kind.zero⟩ ns := by
  refine ⟨h, by simp, hlt, fun e he => ?_⟩
  rw [(Array.mem_replicate.mp he).2]
  exact kind.holds_zero

/-! ## Walks that write -/

/-- A walk that sets one cell at each of its visits, and leaves the state as it
is, leaves all the writes. -/
theorem foldlM_set {σ : Type} {s : σ}
    {visit : Block → Index → EStateM Fault σ Block} {v val : List Nat → Element}
    {cs : List (List Nat)} (hb : b.Sound ns)
    (hvisit : ∀ c ∈ cs, ∀ out, visit out (whole c) s =
      settle (out.set (whole c) (v c)) s)
    (hin : ∀ c ∈ cs, InBox ns c)
    (hval : ∀ c ∈ cs, b.kind.convert (v c) = .ok (val c)) :
    cs.foldlM (fun out c => visit out (whole c)) b s =
      .ok { b with cells := writes (rank ns) val cs b.cells } s := by
  induction cs generalizing b with
  | nil => rfl
  | cons c cs ih =>
      obtain ⟨hvisit, hvisits⟩ := List.forall_mem_cons.mp hvisit
      obtain ⟨hc, hin⟩ := List.forall_mem_cons.mp hin
      obtain ⟨hconv, hval⟩ := List.forall_mem_cons.mp hval
      have hwhole := isWhole_whole_of_inBox hc (Nat.le_of_lt hb.bound)
      have hset : visit b (whole c) s =
          .ok { b with
            cells := b.cells.setIfInBounds (rank ns c) (val c) } s := by
        rw [hvisit, hb.set_eq hwhole hc hconv]
        rfl
      have hnext := hb.setCell (rank ns c) (Kind.holds_of_convert hconv)
      rw [List.foldlM_cons, bind_of_ok hset, ih hnext hvisits hin hval,
        writes_cons]

end Block

end TileGrid
