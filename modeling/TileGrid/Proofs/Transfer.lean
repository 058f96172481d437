import TileGrid.Tensor
import TileGrid.Proofs.Block

/-!
# Transfers and maps, exactly

What a load, a map and a store do on sound arrays, as one write for each
coordinate of the box that is transferred. A load and a map leave the state as
it was; a store changes the cells of its destination and nothing else.
-/

namespace TileGrid

open RowMajor Shape

variable {ν : Type}

/-! ## Boxes placed in a box -/

namespace Shape

/-- The clipped box has exact extents, also where it is empty. -/
theorem clip_eq {extent origin shape : Shape} {ns os ss : List Nat}
    (hn : extent.IsWhole ns) (ho : origin.IsWhole os) (hs : shape.IsWhole ss)
    (hos : os.length = ns.length) (hss : ss.length = ns.length)
    (hlim : ∀ s ∈ ss, s ≤ Number.safeLimit) :
    Transfer.clip extent origin shape = whole (clip ns os ss) := by
  unfold Transfer.clip clip
  induction hs generalizing extent origin ns os with
  | nil => rfl
  | @cons z s shape ss hz _ ih =>
      cases hn with
      | nil => simp at hss
      | @cons x e extent ns hx hn =>
          cases ho with
          | nil => simp at hos
          | @cons y o origin os hy ho =>
              obtain ⟨hle, hlim⟩ := List.forall_mem_cons.mp hlim
              have hhead := Number.max_zero_min_sub hz hx hy (.inl hle)
              have htail :=
                ih hn ho (by simpa using hos) (by simpa using hss) hlim
              simp only [pairWith, List.zipWith, whole_cons, hhead]
              rw [htail]

theorem isWhole_clip {ns os ss : List Nat} (hos : os.length = ns.length)
    (hss : ss.length = ns.length) (hlim : ∀ s ∈ ss, s ≤ Number.safeLimit) :
    (whole (clip ns os ss)).IsWhole (clip ns os ss) :=
  isWhole_whole (forall_le_of_le (clip_le hos hss) hlim)

section Clip

variable {extent origin shape : Shape} {ns os ss : List Nat}

/-- The clipped box is one of whole extents that fits in the box, however large
the extents are. -/
theorem exists_isWhole_clip (hn : extent.IsWhole ns) (ho : origin.IsWhole os)
    (hs : shape.IsWhole ss) (hos : os.length = ns.length)
    (hss : ss.length = ns.length) :
    ∃ vs, (Transfer.clip extent origin shape).IsWhole vs ∧
      List.Forall₂ (· ≤ ·) vs ss := by
  unfold Transfer.clip
  induction hs generalizing extent origin ns os with
  | nil => exact ⟨[], .nil, .nil⟩
  | @cons z s shape ss hz _ ih =>
      cases hn with
      | nil => simp at hss
      | @cons x e extent ns hx hn =>
          cases ho with
          | nil => simp at hos
          | @cons y o origin os hy ho =>
              obtain ⟨v, hle, hv⟩ :=
                Number.exists_isWhole_max_zero_min_sub hz hx hy
              obtain ⟨vs, hvs, hles⟩ :=
                ih hn ho (by simpa using hos) (by simpa using hss)
              exact ⟨v :: vs, .cons hv hvs, .cons hle hles⟩

/-- It has the same coordinates as the exact box: extents are rounded in
empty boxes only. -/
theorem box_clip_eq (hn : extent.IsWhole ns) (ho : origin.IsWhole os)
    (hs : shape.IsWhole ss) (hos : os.length = ns.length)
    (hss : ss.length = ns.length) (hlt : ss.prod ≤ Number.safeLimit)
    {vs : List Nat} (hv : (Transfer.clip extent origin shape).IsWhole vs)
    (hle : List.Forall₂ (· ≤ ·) vs ss) :
    box vs = box (clip ns os ss) := by
  rcases Nat.eq_zero_or_pos ss.prod with h0 | hpos
  · have hvs : vs.prod = 0 :=
      Nat.eq_zero_of_le_zero ((prod_le_prod hle).trans h0.le)
    have hclip : (clip ns os ss).prod = 0 :=
      Nat.eq_zero_of_le_zero ((prod_clip_le hos hss).trans h0.le)
    simp [box, hvs, hclip]
  · have hlim : ∀ s ∈ ss, s ≤ Number.safeLimit :=
      fun s hmem => (le_prod_of_mem hpos s hmem).trans hlt
    rw [clip_eq hn ho hs hos hss hlim] at hv
    rw [hv.unique (isWhole_clip hos hss hlim)]

end Clip

/-- The coordinate past an origin is exact where it stays below the limit. -/
theorem offset_whole {origin : Index} {os is : List Nat}
    (ho : IsWhole origin os) (hlen : is.length = os.length)
    (hle : ∀ n ∈ shift os is, n ≤ Number.safeLimit) :
    Shape.offset origin (whole is) = whole (shift os is) := by
  unfold Shape.offset
  unfold shift at hle ⊢
  induction ho generalizing is with
  | nil =>
      have hnil : is = [] := by simpa using hlen
      subst hnil
      rfl
  | cons hy _ ih =>
      cases is with
      | nil => simp at hlen
      | cons i is =>
          obtain ⟨hsum, hle⟩ := List.forall_mem_cons.mp hle
          have hrest := ih (by simpa using hlen) hle
          simp only [whole_cons, pairWith, List.zipWith_cons_cons,
            hy.add_ofNat hsum, hrest]

/-- A box that fits in another is one of whole extents that are not above
those of the other. -/
theorem fitsIn_iff {valid shape : Shape} {ss : List Nat}
    (hs : shape.IsWhole ss) :
    valid.fitsIn shape = true ↔ ∃ vs, valid.IsWhole vs ∧
      List.Forall₂ (· ≤ ·) vs ss := by
  unfold fitsIn
  induction hs generalizing valid with
  | nil =>
      constructor
      · intro h
        obtain rfl : valid = [] := by simpa [allPairs] using h
        exact ⟨[], .nil, .nil⟩
      · rintro ⟨vs, hv, hle⟩
        cases hle
        cases hv
        rfl
  | @cons d s shape ss hd hs ih =>
      cases valid with
      | nil =>
          constructor
          · intro h
            simp at h
          · rintro ⟨vs, hv, hle⟩
            cases hv
            cases hle
      | cons v valid =>
          have hhead : (v.isExtent && !d.lt v) = true ↔
              ∃ n, v.IsWhole n ∧ n ≤ s := by
            rw [Bool.and_eq_true, Number.isExtent_iff]
            constructor
            · rintro ⟨⟨n, hn⟩, hlt⟩
              rw [hd.lt hn] at hlt
              exact ⟨n, hn, by simpa using hlt⟩
            · rintro ⟨n, hn, hle⟩
              exact ⟨⟨n, hn⟩, by rw [hd.lt hn]; simpa using hle⟩
          have htail := @ih valid
          simp only [Bool.and_eq_true, beq_iff_eq] at htail
          simp only [allPairs, List.length_cons, Bool.and_eq_true, beq_iff_eq,
            Nat.add_right_cancel_iff]
            at hhead ⊢
          rw [and_left_comm, htail, hhead]
          constructor
          · rintro ⟨⟨n, hn, hle⟩, vs, hv, hles⟩
            exact ⟨n :: vs, .cons hn hv, .cons hle hles⟩
          · rintro ⟨vs, hv, hles⟩
            cases hv with
            | cons hn hv =>
                cases hles with
                | cons hle hles => exact ⟨⟨_, hn, hle⟩, _, hv, hles⟩

end Shape

theorem Transfer.check_eq {extent origin shape : Shape} {ns os ss : List Nat}
    (hn : extent.IsWhole ns) (ho : origin.IsWhole os) (hs : shape.IsWhole ss)
    (hos : os.length = ns.length) (hss : ss.length = ns.length) :
    Transfer.check extent origin shape = .ok () := by
  have hranks :
      ¬ (shape.length ≠ extent.length ∨ origin.length ≠ extent.length) := by
    rw [hs.length_eq, ho.length_eq, hn.length_eq]
    omega
  unfold Transfer.check
  rw [if_neg hranks, all_isExtent_iff.mpr ⟨ss, hs⟩,
    all_isExtent_iff.mpr ⟨os, ho⟩]
  rfl

/-! ## Buffers filled from a leading box -/

namespace Block

/-- A fresh array with a value for each coordinate of a leading box, and
zero elsewhere. -/
def filled (kind : Kind) (shape : Shape) (ss vs : List Nat)
    (val : List Nat → Element) : Block :=
  ⟨kind, shape,
    writes (rank ss) val (box vs) (Array.replicate ss.prod kind.zero)⟩

variable {kind : Kind} {shape : Shape} {ss vs : List Nat}
  {val : List Nat → Element}

theorem sound_filled (hs : shape.IsWhole ss) (hlt : ss.prod < Number.safeLimit)
    (hval : ∀ c, InBox vs c → kind.Holds (val c)) :
    (filled kind shape ss vs val).Sound ss :=
  (sound_zeros hs hlt kind).withWrites fun c hc => hval c (mem_box.mp hc)

/-- Inside the leading box the array holds the values. -/
theorem elem_filled (hle : List.Forall₂ (· ≤ ·) vs ss) {c : List Nat}
    (hc : InBox vs c) :
    (filled kind shape ss vs val).elem ss c = val c := by
  have hss := inBox_of_le hc hle
  have hinj : ∀ u ∈ box vs, rank ss u = rank ss c → u = c :=
    fun u hu heq => rank_injective (inBox_of_le (mem_box.mp hu) hle) hss heq
  have hbound : rank ss c < (Array.replicate ss.prod kind.zero).size := by
    simpa using rank_lt hss
  have hget : (writes (rank ss) val (box vs) _)[rank ss c]? = some (val c) :=
    getElem?_writes_of_mem (mem_box.mpr hc) hinj hbound
  simp [elem, filled, hget]

end Block

theorem Masked.make_eq {b : Block} {valid : Shape} {ss vs : List Nat}
    (hs : b.shape.IsWhole ss) (hv : valid.IsWhole vs)
    (hle : List.Forall₂ (· ≤ ·) vs ss) :
    Masked.make b valid = .ok ⟨b, valid⟩ := by
  rw [Masked.make, if_pos ((fitsIn_iff hs).mpr ⟨vs, hv, hle⟩)]

/-! ## Transfers as walks -/

namespace Transfer

variable {σ : Type} {a : Backing σ} {ns os ss vs : List Nat}
  {origin shape valid : Shape}

/-- One visit of a load: what the array has past the origin goes to
the buffer. -/
def fetch (a : Backing σ) (origin : Index) (out : Block) (index : Index) :
    EStateM Fault σ Block := do
  let e ← a.get (Shape.offset origin index)
  settle (out.set index e)

/-- One visit of a store: what is read from the buffer goes past the origin. -/
def send (a : Backing σ) (origin : Index)
    (read : Index → EStateM Fault σ Element) (index : Index) :
    EStateM Fault σ Unit := do
  let e ← read index
  a.set (Shape.offset origin index) e

/-- A load that is not refused visits the part of its box that lies inside the
array, whatever the array does when it is read. -/
theorem load_eq_foldlM (hn : a.shape.IsWhole ns) (ho : IsWhole origin os)
    (hos : os.length = ns.length) (hs : shape.IsWhole ss)
    (hss : ss.length = ns.length) (hlt : ss.prod < Number.safeLimit) :
    load ⟨a, origin⟩ shape =
      ((box (RowMajor.clip ns os ss)).foldlM
        (fun out c => fetch a origin out (whole c))
        ⟨a.kind, shape, Array.replicate ss.prod a.kind.zero⟩ >>=
      fun values =>
        settle (Masked.make values (clip a.shape origin shape))) := by
  obtain ⟨vs, hv, hle⟩ := exists_isWhole_clip hn ho hs hos hss
  have hprod := (prod_le_prod hle).trans (Nat.le_of_lt hlt)
  show (do
    settle (check a.shape origin shape)
    let fresh ← settle (Block.zeros a.kind shape)
    let values ← Shape.visitAll .endless (clip a.shape origin shape) fresh
      fun out index _ => fetch a origin out index
    settle (Masked.make values (clip a.shape origin shape))) = _
  rw [check_eq hn ho hs hos hss, Block.zeros_eq hs hlt]
  simp only [settle, pure_bind]
  rw [visitAll_eq_box hv hprod,
    box_clip_eq hn ho hs hos hss (Nat.le_of_lt hlt) hv hle]

/-- A store that is not refused visits the part of the valid box that lies
inside the array. -/
theorem store_eq_foldlM (hn : a.shape.IsWhole ns) (ho : IsWhole origin os)
    (hos : os.length = ns.length) (hs : shape.IsWhole ss)
    (hss : ss.length = ns.length) (hv : valid.IsWhole vs)
    (hvs : vs.length = ns.length) (hlt : vs.prod ≤ Number.safeLimit)
    (read : Index → EStateM Fault σ Element) :
    store ⟨a, origin⟩ shape valid read =
      (box (RowMajor.clip ns os vs)).foldlM
        (fun _ c => send a origin read (whole c)) () := by
  obtain ⟨ws, hclip, hle⟩ := exists_isWhole_clip hn ho hv hos hvs
  show (do
    settle (check a.shape origin shape)
    Shape.visitAll .endless (clip a.shape origin valid) ()
      fun _ index _ => send a origin read index) = _
  rw [check_eq hn ho hs hos hss]
  simp only [settle, pure_bind]
  rw [visitAll_eq_box hclip ((prod_le_prod hle).trans hlt),
    box_clip_eq hn ho hv hos hvs hlt hclip hle]

end Transfer

/-! ## Tensors -/

/-- A tensor on storage of the host whose array is sound. -/
structure Tensor.Sound (t : Tensor) (h : Host ν) (ns : List Nat) : Prop where
  allocated : t.storage < h.storages.size
  block : (t.block h).Sound ns

theorem Tensor.Sound.of_block_eq {t : Tensor} {h h' : Host ν} {ns : List Nat}
    (ht : t.Sound h ns) (hsize : h.storages.size ≤ h'.storages.size)
    (hsame : t.block h' = t.block h) :
    t.Sound h' ns := by
  refine ⟨ht.allocated.trans_le hsize, ?_⟩
  rw [hsame]
  exact ht.block

theorem Tensor.block_congr {h h' : Host ν} (hsame : h.storages = h'.storages)
    (t : Tensor) :
    t.block h' = t.block h := by
  simp only [Tensor.block, Host.cells, hsame]

theorem Tensor.Sound.congr {t : Tensor} {h h' : Host ν} {ns : List Nat}
    (ht : t.Sound h ns) (hsame : h.storages = h'.storages) : t.Sound h' ns :=
  ht.of_block_eq (hsame ▸ le_rfl) (block_congr hsame t)

theorem Tensor.get_of_laid {t : Tensor} {h : Host ν} {ns : List Nat}
    (ht : (t.block h).Laid ns) {index : Index} {is : List Nat}
    (hi : IsWhole index is) (hin : InBox ns is) :
    t.get index h = .ok ((t.block h).elem ns is) h := by
  rw [Tensor.get, ht.get_eq hi hin]
  rfl

theorem Tensor.get_eq {t : Tensor} {h : Host ν} {ns : List Nat}
    (ht : t.Sound h ns) {index : Index} {is : List Nat} (hi : IsWhole index is)
    (hin : InBox ns is) :
    t.get index h = .ok ((t.block h).elem ns is) h :=
  Tensor.get_of_laid ht.block.laid hi hin

namespace Transfer

variable {h : Host ν} {t : Tensor} {ns os ss : List Nat} {origin shape : Shape}

/-- The place that a coordinate of a transfer has in the array. -/
theorem isWhole_offset_of_inBox (hb : ns.prod ≤ Number.safeLimit)
    (ho : IsWhole origin os) {is : List Nat} (hlen : is.length = os.length)
    (hin : InBox ns (shift os is)) :
    IsWhole (Shape.offset origin (whole is)) (shift os is) := by
  rw [offset_whole ho hlen fun n hn => (le_prod_of_inBox hin n hn).trans hb]
  exact isWhole_whole_of_inBox hin hb

/-- **What a load gives**: the part of the box that lies inside the array, with
the elements that the array holds there. -/
theorem load_filled (ht : t.Sound h ns) (ho : IsWhole origin os)
    (hos : os.length = ns.length) (hs : shape.IsWhole ss)
    (hss : ss.length = ns.length) (hlt : ss.prod < Number.safeLimit) :
    load ⟨t.backing, origin⟩ shape h =
      .ok ⟨.filled t.kind shape ss (RowMajor.clip ns os ss) fun c =>
        (t.block h).elem ns (shift os c), clip t.shape origin shape⟩ h := by
  have hn : t.shape.IsWhole ns := ht.block.shape
  obtain ⟨vs, hv, hle⟩ := exists_isWhole_clip hn ho hs hos hss
  have hmem : ∀ c ∈ box (RowMajor.clip ns os ss), InBox ss c ∧
      InBox ns (shift os c) :=
    fun c hc => (inBox_clip_iff hos hss).mp (mem_box.mp hc)
  -- each visit reads the place past the origin, and what it reads is
  -- already of the kind
  have hvisit : ∀ c ∈ box (RowMajor.clip ns os ss), ∀ out,
      fetch t.backing origin out (whole c) h =
      settle (out.set (whole c) ((t.block h).elem ns (shift os c))) h := by
    intro c hc out
    obtain ⟨hcs, hin⟩ := hmem c hc
    have hplace := isWhole_offset_of_inBox (Nat.le_of_lt ht.block.bound) ho
      (by rw [length_of_inBox hcs, hss, hos]) hin
    exact bind_of_ok (Tensor.get_eq ht hplace hin) _
  have hval : ∀ c ∈ box (RowMajor.clip ns os ss),
      t.kind.convert ((t.block h).elem ns (shift os c)) =
        .ok ((t.block h).elem ns (shift os c)) :=
    fun c hc => ht.block.holds_elem (hmem c hc).2
  have hwalk := Block.foldlM_set (Block.sound_zeros hs hlt t.kind) hvisit
    (fun c hc => (hmem c hc).1) hval
  rw [load_eq_foldlM (a := t.backing) hn ho hos hs hss hlt]
  exact (bind_of_ok hwalk _).trans
    (congrArg (settle · h) (Masked.make_eq hs hv hle))

end Transfer

/-! ## Maps as walks -/

namespace Masked

variable {σ : Type}

/-- One visit of a map: the function of what is read goes to the buffer. -/
def fill (read : Index → EStateM Fault σ Element)
    (fn : Element → Index → EStateM Fault σ Element) (out : Block)
    (index : Index) : EStateM Fault σ Block := do
  let e ← read index
  let r ← fn e index
  settle (out.set index r)

/-- A map visits the valid box, whatever its function does. -/
theorem ofReads_eq_foldlM {kind : Kind} {shape valid : Shape} {ss vs : List Nat}
    (hs : shape.IsWhole ss) (hlt : ss.prod < Number.safeLimit)
    (hv : valid.IsWhole vs) (hle : List.Forall₂ (· ≤ ·) vs ss)
    (read : Index → EStateM Fault σ Element)
    (fn : Element → Index → EStateM Fault σ Element) :
    ofReads kind shape valid read fn =
      ((box vs).foldlM (fun out c => fill read fn out (whole c))
        ⟨kind, shape, Array.replicate ss.prod kind.zero⟩ >>=
      fun values => settle (make values valid)) := by
  have hprod := (prod_le_prod hle).trans (Nat.le_of_lt hlt)
  show (do
    let fresh ← settle (Block.zeros kind shape)
    let values ← Shape.visitAll .endless valid fresh fun out index _ =>
      fill read fn out index
    settle (make values valid)) = _
  rw [Block.zeros_eq hs hlt]
  simp only [settle, pure_bind]
  rw [visitAll_eq_box hv hprod]

end Masked

/-! ## Changing the cells of one storage -/

namespace Host

/-- The state with the cells of one storage changed. -/
def updateCells (h : Host ν) (storage : Nat)
    (f : Array Element → Array Element) : Host ν :=
  { h with storages := h.storages.modify storage f }

variable {h : Host ν} {storage : Nat}

theorem putCell_eq (p : Nat) (e : Element) :
    h.putCell storage p e = h.updateCells storage (·.setIfInBounds p e) := rfl

theorem updateCells_id : h.updateCells storage id = h := by
  have hid : h.storages.modify storage id = h.storages := by
    apply Array.ext_getElem?
    intro i
    rw [Array.getElem?_modify]
    split <;> simp
  rw [updateCells, hid]

/-- Only what becomes of the cells that there are matters. -/
theorem updateCells_congr {f g : Array Element → Array Element}
    (hfg : f (h.cells storage) = g (h.cells storage)) :
    h.updateCells storage f = h.updateCells storage g := by
  have hsame : h.storages.modify storage f = h.storages.modify storage g := by
    apply Array.ext_getElem?
    intro i
    simp only [Array.getElem?_modify]
    split
    · rename_i hi
      subst hi
      cases hget : h.storages[storage]? with
      | none => rfl
      | some held =>
          have hheld : h.cells storage = held := by simp [cells, hget]
          rw [hheld] at hfg
          simp [hfg]
    · rfl
  rw [updateCells, hsame, updateCells]

theorem updateCells_of_fixed {f : Array Element → Array Element}
    (hf : f (h.cells storage) = h.cells storage) :
    h.updateCells storage f = h :=
  (updateCells_congr hf).trans updateCells_id

theorem updateCells_updateCells (f g : Array Element → Array Element) :
    (h.updateCells storage f).updateCells storage g =
      h.updateCells storage (g ∘ f) := by
  have hcomp :
      (h.storages.modify storage f).modify storage g =
        h.storages.modify storage (g ∘ f) := by
    apply Array.ext_getElem?
    intro i
    simp only [Array.getElem?_modify]
    split <;> simp
  simp only [updateCells, hcomp]

theorem cells_updateCells (hs : storage < h.storages.size)
    (f : Array Element → Array Element) :
    (h.updateCells storage f).cells storage = f (h.cells storage) := by
  simp [updateCells, cells, hs, Array.getElem_modify_self]

theorem cells_updateCells_of_ne {other : Nat} (hne : other ≠ storage)
    (f : Array Element → Array Element) :
    (h.updateCells storage f).cells other = h.cells other := by
  simp [updateCells, cells, Array.getElem?_modify, hne.symm]

end Host

section

variable {t : Tensor} {h : Host ν} {ns : List Nat}

theorem Tensor.block_updateCells (hs : t.storage < h.storages.size)
    (g : Array Element → Array Element) :
    t.block (h.updateCells t.storage g) =
      { t.block h with cells := g (t.block h).cells } := by
  simp only [Tensor.block, Host.cells_updateCells hs]

theorem Tensor.block_updateCells_of_ne {storage : Nat}
    (hne : t.storage ≠ storage) (g : Array Element → Array Element) :
    t.block (h.updateCells storage g) = t.block h := by
  simp only [Tensor.block, Host.cells_updateCells_of_ne hne]

/-- A tensor stays sound where its cells are changed to others that
make a sound array. -/
theorem Tensor.Sound.updateCells (ht : t.Sound h ns)
    {g : Array Element → Array Element}
    (hg : Block.Sound { t.block h with cells := g (t.block h).cells } ns) :
    t.Sound (h.updateCells t.storage g) ns := by
  refine ⟨by simpa [Host.updateCells] using ht.allocated, ?_⟩
  rw [Tensor.block_updateCells ht.allocated]
  exact hg

end

namespace Transfer

variable {h : Host ν} {t : Tensor} {ns os ss vs : List Nat}
  {origin shape valid : Shape}
  {read : Index → Act ν Element} {v val : List Nat → Element}

/-- One visit of a store, or of another walk that copies: what is read at a
coordinate is written to the place it has in the array. -/
def copyAt (t : Tensor) (place : Index → Index) (read : Index → Act ν Element)
    (index : Index) : Act ν Unit := do
  let e ← read index
  t.set (place index) e

/-- The writes of such a walk, one after the other. What is read must not depend
on the cells that are written. -/
theorem foldlM_copyAt {place : Index → Index} {goal : List Nat → List Nat}
    (ht : t.Sound h ns) (cs : List (List Nat))
    (hplace : ∀ c ∈ cs, IsWhole (place (whole c)) (goal c))
    (hin : ∀ c ∈ cs, InBox ns (goal c))
    (hread : ∀ c ∈ cs, ∀ f, read (whole c) (h.updateCells t.storage f) =
      .ok (v c) (h.updateCells t.storage f))
    (hval : ∀ c ∈ cs, t.kind.convert (v c) = .ok (val c)) :
    cs.foldlM (fun _ c => copyAt t place read (whole c)) () h =
      .ok () (h.updateCells t.storage
        (writes (fun c => rank ns (goal c)) val cs)) := by
  induction cs generalizing h with
  | nil =>
      show EStateM.Result.ok () h = .ok () (h.updateCells t.storage id)
      rw [Host.updateCells_id]
  | cons c cs ih =>
      obtain ⟨hplacec, hplace⟩ := List.forall_mem_cons.mp hplace
      obtain ⟨hc, hin⟩ := List.forall_mem_cons.mp hin
      obtain ⟨hreadc, hread⟩ := List.forall_mem_cons.mp hread
      obtain ⟨hvalc, hval⟩ := List.forall_mem_cons.mp hval
      have hnow : read (whole c) h = .ok (v c) h := by
        have hr := hreadc id
        rwa [Host.updateCells_id] at hr
      have hset : t.set (place (whole c)) (v c) h =
          .ok () (h.updateCells t.storage
            (·.setIfInBounds (rank ns (goal c)) (val c))) := by
        rw [Tensor.set, ht.block.place_eq hplacec hc hvalc]
        rfl
      have hnext :=
        ht.updateCells (g := (·.setIfInBounds (rank ns (goal c)) (val c)))
        (ht.block.setCell (rank ns (goal c)) (Kind.holds_of_convert hvalc))
      have hvisit : copyAt t place read (whole c) h = _ :=
        (bind_of_ok hnow _).trans hset
      have hrest := ih hnext hplace hin (fun u hu f => by
        rw [Host.updateCells_updateCells]
        exact hread u hu _) hval
      rw [List.foldlM_cons, bind_of_ok hvisit, hrest,
        Host.updateCells_updateCells]
      rfl

/-- **What a store does**: one write for each valid element that falls
inside the array. -/
theorem store_eq (ht : t.Sound h ns) (ho : IsWhole origin os)
    (hos : os.length = ns.length) (hs : shape.IsWhole ss)
    (hss : ss.length = ns.length) (hv : valid.IsWhole vs)
    (hvs : vs.length = ns.length) (hlt : vs.prod ≤ Number.safeLimit)
    (hread : ∀ c, InBox (RowMajor.clip ns os vs) c →
      ∀ f, read (whole c) (h.updateCells t.storage f) =
        .ok (v c) (h.updateCells t.storage f))
    (hval : ∀ c, InBox (RowMajor.clip ns os vs) c →
      t.kind.convert (v c) = .ok (val c)) :
    store ⟨t.backing, origin⟩ shape valid read h =
      .ok () (h.updateCells t.storage
        (writes (fun c => rank ns (shift os c)) val
          (box (RowMajor.clip ns os vs)))) := by
  have hparts : ∀ c ∈ box (RowMajor.clip ns os vs), InBox vs c ∧
      InBox ns (shift os c) :=
    fun c hc => (inBox_clip_iff hos hvs).mp (mem_box.mp hc)
  have hplace : ∀ c ∈ box (RowMajor.clip ns os vs),
      IsWhole (Shape.offset origin (whole c)) (shift os c) := by
    intro c hc
    obtain ⟨hcv, hin⟩ := hparts c hc
    exact isWhole_offset_of_inBox (Nat.le_of_lt ht.block.bound) ho
      (by rw [length_of_inBox hcv, hvs, hos]) hin
  rw [store_eq_foldlM (a := t.backing) ht.block.shape ho hos hs hss hv hvs hlt]
  exact foldlM_copyAt ht (box (RowMajor.clip ns os vs)) hplace
    (fun c hc => (hparts c hc).2)
    (fun c hc => hread c (mem_box.mp hc)) (fun c hc => hval c (mem_box.mp hc))

end Transfer

namespace Block

variable {b : Block} {ns os vs : List Nat} {val : List Nat → Element}

/-- After writes to different places the array holds at each of them what
was written there. -/
theorem Sound.elem_writes (hb : b.Sound ns) {goal : List Nat → List Nat}
    {cs : List (List Nat)} (hin : ∀ c ∈ cs, InBox ns (goal c)) {c : List Nat}
    (hc : c ∈ cs) (hinj : ∀ u ∈ cs, goal u = goal c → u = c) :
    Block.elem { b with
      cells := writes (fun c => rank ns (goal c)) val cs b.cells } ns (goal c) =
      val c := by
  have hplace : ∀ u ∈ cs, rank ns (goal u) = rank ns (goal c) → u = c :=
    fun u hu heq => hinj u hu (rank_injective (hin u hu) (hin c hc) heq)
  have hbound : rank ns (goal c) < b.cells.size := by
    rw [hb.size]
    exact rank_lt (hin c hc)
  have hget :
      (writes (fun c => rank ns (goal c)) val cs b.cells)[rank ns (goal c)]? =
      some (val c) := getElem?_writes_of_mem hc hplace hbound
  simp [elem, hget]

/-- The array after a store of a box of values `vs` at the origin `os`. -/
def stored (b : Block) (ns os vs : List Nat)
    (val : List Nat → Element) : Block :=
  { b with
    cells := writes (fun c => rank ns (shift os c)) val (box vs) b.cells }

theorem Sound.stored (hb : b.Sound ns)
    (hval : ∀ c, InBox vs c → b.kind.Holds (val c)) :
    (b.stored ns os vs val).Sound ns :=
  hb.withWrites fun c hc => hval c (mem_box.mp hc)

/-- Where a value is stored, the array holds it. -/
theorem Sound.elem_stored (hb : b.Sound ns) (hlen : vs.length = os.length)
    (hin : ∀ c, InBox vs c → InBox ns (shift os c)) {c : List Nat}
    (hc : InBox vs c) :
    (b.stored ns os vs val).elem ns (shift os c) = val c := by
  apply hb.elem_writes (fun u hu => hin u (mem_box.mp hu)) (mem_box.mpr hc)
  intro u hu heq
  have hub := length_of_inBox (mem_box.mp hu)
  exact shift_injective (hub.trans hlen) ((length_of_inBox hc).trans hlen) heq

/-- Elsewhere it is as it was. -/
theorem elem_stored_of_forall_ne (hin : ∀ c, InBox vs c → InBox ns (shift os c))
    {x : List Nat} (hx : InBox ns x) (hne : ∀ c, InBox vs c → x ≠ shift os c) :
    (b.stored ns os vs val).elem ns x = b.elem ns x := by
  have hcells : ∀ c ∈ box vs, rank ns (shift os c) ≠ rank ns x := by
    intro c hc heq
    have hcb := mem_box.mp hc
    exact hne c hcb (rank_injective (hin c hcb) hx heq).symm
  have hget : (writes (fun c => rank ns (shift os c)) val
      (box vs) b.cells)[rank ns x]? =
      b.cells[rank ns x]? := getElem?_writes_of_forall_ne hcells b.cells
  simp [elem, Block.stored, hget]

end Block

/-! ## Fresh storage -/

namespace Host

/-- The state with one more storage. -/
def pushCells (h : Host ν) (cells : Array Element) : Host ν :=
  { h with storages := h.storages.push cells }

theorem cells_pushCells_of_lt {h : Host ν} {storage : Nat}
    (hs : storage < h.storages.size) (cells : Array Element) :
    (h.pushCells cells).cells storage = h.cells storage := by
  simp [pushCells, Host.cells, Array.getElem?_push_lt hs, hs]

theorem cells_pushCells_self (h : Host ν) (cells : Array Element) :
    (h.pushCells cells).cells h.storages.size = cells := by
  simp [pushCells, Host.cells]

end Host

theorem Tensor.block_pushCells {t : Tensor} {h : Host ν}
    (hs : t.storage < h.storages.size) (cells : Array Element) :
    t.block (h.pushCells cells) = t.block h := by
  rw [Tensor.block, Host.cells_pushCells_of_lt hs, Tensor.block]

theorem Tensor.Sound.pushCells {t : Tensor} {h : Host ν} {ns : List Nat}
    (ht : t.Sound h ns) (cells : Array Element) :
    t.Sound (h.pushCells cells) ns := by
  apply ht.of_block_eq
  · simp [Host.pushCells]
  · exact Tensor.block_pushCells ht.allocated cells

/-- An array that was put on storage of its own. -/
theorem Tensor.block_allocated (b : Block) (h : Host ν) :
    Tensor.block ⟨b.kind, b.shape,
      h.storages.size⟩ (h.pushCells b.cells) = b := by
  simp only [Tensor.block, Host.cells_pushCells_self]

theorem Tensor.sound_allocated {b : Block} {ns : List Nat} (hb : b.Sound ns)
    (h : Host ν) :
    Tensor.Sound ⟨b.kind, b.shape, h.storages.size⟩
      (h.pushCells b.cells) ns := by
  refine ⟨?_, ?_⟩
  · simp [Host.pushCells]
  · rw [Tensor.block_allocated]
    exact hb

namespace Buffer

variable {h : Host ν} {ns os ss vs : List Nat}

theorem load_filled {t : Tensor} {origin shape : Shape} (ht : t.Sound h ns)
    (ho : IsWhole origin os) (hos : os.length = ns.length)
    (hs : shape.IsWhole ss) (hss : ss.length = ns.length)
    (hlt : ss.prod < Number.safeLimit) :
    load ⟨t.backing, origin⟩ shape h =
      .ok ⟨⟨t.kind, shape, h.storages.size⟩, Transfer.clip t.shape origin shape⟩
        (h.pushCells (Block.filled t.kind shape ss (clip ns os ss) fun c =>
          (t.block h).elem ns (shift os c)).cells) :=
  bind_of_ok (Transfer.load_filled ht ho hos hs hss hlt) _

/-- A load of a box with no extent above the limit, where the valid part
is exact. -/
theorem load_eq {t : Tensor} {origin shape : Shape} (ht : t.Sound h ns)
    (ho : IsWhole origin os) (hos : os.length = ns.length)
    (hs : shape.IsWhole ss) (hss : ss.length = ns.length)
    (hlim : ∀ s ∈ ss, s ≤ Number.safeLimit) (hlt : ss.prod < Number.safeLimit) :
    load ⟨t.backing, origin⟩ shape h =
      .ok ⟨⟨t.kind, shape, h.storages.size⟩, whole (clip ns os ss)⟩
        (h.pushCells (Block.filled t.kind shape ss (clip ns os ss) fun c =>
          (t.block h).elem ns (shift os c)).cells) := by
  have hn : t.shape.IsWhole ns := ht.block.shape
  rw [load_filled ht ho hos hs hss hlt, clip_eq hn ho hs hos hss hlim]

/-- What a map makes of its walk. -/
theorem map_of_walk {b : Buffer} (hs : b.values.shape.IsWhole ss)
    (hlt : ss.prod < Number.safeLimit) (hv : b.valid.IsWhole vs)
    (hle : List.Forall₂ (· ≤ ·) vs ss) {fn : Element → Index → Act ν Element}
    {out : Block} {h' : Host ν}
    (hwalk : (box vs).foldlM
      (fun out c => Masked.fill b.values.get fn out (whole c))
      ⟨b.values.kind, b.values.shape,
        Array.replicate ss.prod b.values.kind.zero⟩ h = .ok out h')
    (hout : out.shape.IsWhole ss) :
    b.map fn h = .ok ⟨⟨out.kind, out.shape, h'.storages.size⟩,
      b.valid⟩ (h'.pushCells out.cells) := by
  have hmap : Masked.ofReads b.values.kind b.values.shape b.valid
      b.values.get fn h = .ok ⟨out, b.valid⟩ h' := by
    rw [Masked.ofReads_eq_foldlM hs hlt hv hle, bind_of_ok hwalk,
      Masked.make_eq hout hv hle]
    rfl
  exact bind_of_ok hmap _

/-- **What a map gives**, of a buffer whose array is `w`: the values of the
function on the valid elements, and zero elsewhere. -/
theorem map_eq {b : Buffer} {w : Block} (hw : b.values.block h = w)
    (hb : w.Sound ss) (hv : b.valid.IsWhole vs)
    (hle : List.Forall₂ (· ≤ ·) vs ss) {f : Element → Element}
    {val : List Nat → Element}
    (hval : ∀ c, InBox vs c → w.kind.convert (f (w.elem ss c)) = .ok (val c)) :
    b.map (fun e _ => pure (f e)) h =
      .ok ⟨⟨w.kind, w.shape, h.storages.size⟩, b.valid⟩
        (h.pushCells (Block.filled w.kind w.shape ss vs val).cells) := by
  subst hw
  have hs : b.values.shape.IsWhole ss := hb.shape
  have hvisit : ∀ c ∈ box vs, ∀ out,
      Masked.fill b.values.get (fun e _ => pure (f e)) out (whole c) h =
        settle (out.set (whole c) (f ((b.values.block h).elem ss c))) h := by
    intro c hc out
    have hcs := inBox_of_le (mem_box.mp hc) hle
    have hget : b.values.get (whole c) h =
        .ok ((b.values.block h).elem ss c) h := by
      rw [Tensor.get,
        hb.get_eq (isWhole_whole_of_inBox hcs (Nat.le_of_lt hb.bound)) hcs]
      rfl
    exact bind_of_ok hget _
  have hwalk :=
    Block.foldlM_set (Block.sound_zeros hs hb.bound b.values.kind) hvisit
    (fun c hc => inBox_of_le (mem_box.mp hc) hle)
      (fun c hc => hval c (mem_box.mp hc))
  exact map_of_walk hs hb.bound hv hle hwalk hs

/-- A store that is not refused, to whatever array. -/
theorem store_eq_foldlM {a : Backing (Host ν)} {origin : Shape} {b : Buffer}
    (hn : a.shape.IsWhole ns) (ho : IsWhole origin os)
    (hos : os.length = ns.length) (hs : b.values.shape.IsWhole ss)
    (hss : ss.length = ns.length) (hlt : ss.prod ≤ Number.safeLimit)
    (hv : b.valid.IsWhole vs) (hle : List.Forall₂ (· ≤ ·) vs ss) :
    store ⟨a, origin⟩ b =
      (box (clip ns os vs)).foldlM
        (fun _ c => Transfer.send a origin b.values.get (whole c)) () :=
  Transfer.store_eq_foldlM hn ho hos hs hss hv (by rw [hle.length_eq, hss])
    ((prod_le_prod hle).trans hlt) b.values.get

/-- Reading a buffer gives the same after any change to other storage. -/
theorem get_updateCells_of_ne {b : Buffer} {w : Block}
    (hw : b.values.block h = w) (hb : w.Sound ss) {storage : Nat}
    (hne : b.values.storage ≠ storage) {c : List Nat} (hc : InBox ss c)
    (f : Array Element → Array Element) :
    b.values.get (whole c) (h.updateCells storage f) =
      .ok (w.elem ss c) (h.updateCells storage f) := by
  have hsame := Tensor.block_updateCells_of_ne (h := h) hne f
  have hget := hb.get_eq (isWhole_whole_of_inBox hc (Nat.le_of_lt hb.bound)) hc
  rw [Tensor.get, hsame, hw, hget]
  rfl

/-- **A store of a buffer whose array is `w`**, to an array on other storage
that takes what is stored. -/
theorem store_writes {t : Tensor} {origin : Shape} {b : Buffer} {w : Block}
    (ht : t.Sound h ns) (ho : IsWhole origin os) (hos : os.length = ns.length)
    (hw : b.values.block h = w) (hb : w.Sound ss) (hss : ss.length = ns.length)
    (hv : b.valid.IsWhole vs) (hle : List.Forall₂ (· ≤ ·) vs ss)
    (hne : b.values.storage ≠ t.storage) {val : List Nat → Element}
    (hval : ∀ c, InBox (clip ns os vs) c →
      t.kind.convert (w.elem ss c) = .ok (val c)) :
    store ⟨t.backing, origin⟩ b h =
      .ok () (h.updateCells t.storage
        (writes (fun c => rank ns (shift os c)) val
          (box (clip ns os vs)))) := by
  have hs : b.values.shape.IsWhole ss := by
    rw [← hw] at hb
    exact hb.shape
  have hvs : vs.length = ns.length := by rw [hle.length_eq, hss]
  have hprod : vs.prod ≤ Number.safeLimit :=
    (prod_le_prod hle).trans (Nat.le_of_lt hb.bound)
  refine Transfer.store_eq ht ho hos hs hss hv hvs hprod (fun c hc f => ?_) hval
  have hcs := inBox_of_le ((inBox_clip_iff hos hvs).mp hc).1 hle
  exact get_updateCells_of_ne hw hb hne hcs f

/-- Where the kinds are the same, the elements are stored as they are. -/
theorem store_eq {t : Tensor} {origin : Shape} {b : Buffer} {w : Block}
    (ht : t.Sound h ns) (ho : IsWhole origin os) (hos : os.length = ns.length)
    (hw : b.values.block h = w) (hb : w.Sound ss) (hss : ss.length = ns.length)
    (hkind : w.kind = t.kind) (hv : b.valid.IsWhole vs)
    (hle : List.Forall₂ (· ≤ ·) vs ss) (hne : b.values.storage ≠ t.storage) :
    store ⟨t.backing, origin⟩ b h =
      .ok () (h.updateCells t.storage
        (writes (fun c => rank ns (shift os c)) (w.elem ss)
          (box (clip ns os vs)))) := by
  have hvs : vs.length = ns.length := by rw [hle.length_eq, hss]
  refine store_writes ht ho hos hw hb hss hv hle hne fun c hc => ?_
  have hholds :=
    hb.holds_elem (inBox_of_le ((inBox_clip_iff hos hvs).mp hc).1 hle)
  rwa [hkind] at hholds

end Buffer

end TileGrid
