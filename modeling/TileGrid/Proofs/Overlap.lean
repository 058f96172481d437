import TileGrid.Proofs.StoreOutcome

/-!
# Stores within one storage

A buffer may lie on the storage that it is stored to. A store reads each element
just before it writes it, in row-major order, so it reads what the writes before
it have left: an element whose cell has been written is lost, and what was put
there is stored in its place. The elements that are there when the store begins
are stored exactly where each lost one was equal to the one that took its cell.
-/

namespace TileGrid

open RowMajor Shape

variable {ν : Type}

/-! ## Copies from cell to cell -/

/-- The cells with what is at `p` put at `q`. -/
def copyCell (p q : Nat) (cells : Array Element) : Array Element :=
  match cells[p]? with
  | some e => cells.setIfInBounds q e
  | none => cells

/-- Copies one after the other, each of which reads what the ones
before it have left. -/
def copies (src dst : List Nat → Nat) (cs : List (List Nat))
    (cells : Array Element) : Array Element :=
  cs.foldl (fun cells c => copyCell (src c) (dst c) cells) cells

section Cells

variable {p q : Nat} {cells : Array Element}

theorem copyCell_eq {e : Element} (he : cells[p]? = some e) :
    copyCell p q cells = cells.setIfInBounds q e := by
  rw [copyCell, he]

@[simp] theorem size_copyCell : (copyCell p q cells).size = cells.size := by
  unfold copyCell
  split <;> simp

theorem mem_of_mem_copyCell {e : Element} (h : e ∈ copyCell p q cells) :
    e ∈ cells := by
  unfold copyCell at h
  split at h
  · rename_i held hheld
    rcases Array.mem_or_eq_of_mem_setIfInBounds h with hold | rfl
    · exact hold
    · exact Array.mem_of_getElem? hheld
  · exact h

theorem getElem?_copyCell_of_ne {i : Nat} (hne : q ≠ i) :
    (copyCell p q cells)[i]? = cells[i]? := by
  unfold copyCell
  split
  · exact Array.getElem?_setIfInBounds_ne hne
  · rfl

theorem getElem?_copyCell_self (hp : p < cells.size) (hq : q < cells.size) :
    (copyCell p q cells)[q]? = cells[p]? := by
  rw [copyCell_eq (Array.getElem?_eq_getElem hp),
    Array.getElem?_setIfInBounds_self_of_lt hq, Array.getElem?_eq_getElem hp]

variable {src dst : List Nat → Nat} {cs : List (List Nat)}

theorem copies_append (pre post : List (List Nat)) :
    copies src dst (pre ++ post) cells =
      copies src dst post (copies src dst pre cells) :=
  List.foldl_append

@[simp] theorem size_copies : (copies src dst cs cells).size = cells.size := by
  induction cs generalizing cells with
  | nil => rfl
  | cons c cs ih =>
      show (copies src dst cs _).size = _
      rw [ih, size_copyCell]

theorem mem_of_mem_copies {e : Element} (h : e ∈ copies src dst cs cells) :
    e ∈ cells := by
  induction cs generalizing cells with
  | nil => exact h
  | cons c cs ih => exact mem_of_mem_copyCell (ih h)

/-- Where nothing is put, the cells are as they were. -/
theorem getElem?_copies_of_forall_ne {i : Nat} (hne : ∀ c ∈ cs, dst c ≠ i) :
    (copies src dst cs cells)[i]? = cells[i]? := by
  induction cs generalizing cells with
  | nil => rfl
  | cons c cs ih =>
      obtain ⟨hc, hne⟩ := List.forall_mem_cons.mp hne
      show (copies src dst cs _)[i]? = _
      rw [ih hne, getElem?_copyCell_of_ne hc]

/-- Copies that are made in order, between cells that there are, and to a
cell once only. -/
structure Orderly (src dst : List Nat → Nat) (cs : List (List Nat))
    (size : Nat) : Prop where
  increasing : cs.Pairwise (· < ·)
  src_lt : ∀ c ∈ cs, src c < size
  dst_lt : ∀ c ∈ cs, dst c < size
  injective : ∀ u ∈ cs, ∀ c ∈ cs, dst u = dst c → u = c

namespace Orderly

/-- A copy, and the state in which it is made. What it puts is not
written again. -/
theorem getElem?_copies (hcs : Orderly src dst cs cells.size) {c : List Nat}
    (hc : c ∈ cs) :
    ∃ pre post, cs = pre ++ c :: post ∧ (∀ u ∈ pre, u < c) ∧
      (∀ u ∈ post, c < u) ∧
      (copies src dst cs cells)[dst c]? =
        (copies src dst pre cells)[src c]? := by
  obtain ⟨pre, post, rfl⟩ := List.append_of_mem hc
  obtain ⟨-, hpost, hpre⟩ := List.pairwise_append.mp hcs.increasing
  have hlater := (List.pairwise_cons.mp hpost).1
  refine ⟨pre, post, rfl, fun u hu => hpre u hu c List.mem_cons_self,
    hlater, ?_⟩
  have hne : ∀ u ∈ post, dst u ≠ dst c := by
    intro u hu heq
    have hsame := hcs.injective u (by simp [hu]) c hc heq
    exact List.lt_irrefl c (hsame ▸ hlater u hu)
  rw [copies_append]
  show (copies src dst post (copyCell (src c) (dst c) _))[dst c]? = _
  rw [getElem?_copies_of_forall_ne hne,
    getElem?_copyCell_self (by simpa using hcs.src_lt c hc)
      (by simpa using hcs.dst_lt c hc)]

/-- A copy from a cell to which nothing was put before takes what was there
from the start. -/
theorem getElem?_copies_first (hcs : Orderly src dst cs cells.size)
    {c : List Nat} (hc : c ∈ cs) (hfirst : ∀ u ∈ cs, u < c → dst u ≠ src c) :
    (copies src dst cs cells)[dst c]? = cells[src c]? := by
  obtain ⟨pre, post, hsplit, hpre, -, hget⟩ := hcs.getElem?_copies hc
  rw [hget]
  apply getElem?_copies_of_forall_ne
  intro u hu
  exact hfirst u (by simp [hsplit, hu]) (hpre u hu)

/-- A copy from a cell to which something was put before takes that. -/
theorem getElem?_copies_again (hcs : Orderly src dst cs cells.size)
    {u c : List Nat} (hu : u ∈ cs) (hc : c ∈ cs) (huc : u < c)
    (hover : dst u = src c) :
    (copies src dst cs cells)[dst c]? = (copies src dst cs cells)[dst u]? := by
  obtain ⟨pre, post, hsplit, -, hpost, hget⟩ := hcs.getElem?_copies hc
  have hne : ∀ v ∈ c :: post, dst v ≠ dst u := by
    intro v hv heq
    have hsame :=
      hcs.injective v (by simp [hsplit, List.mem_cons.mp hv]) u hu heq
    rcases List.mem_cons.mp hv with rfl | hv
    · exact List.lt_irrefl v (by rwa [← hsame] at huc)
    · have hcu := hpost v hv
      rw [hsame] at hcu
      exact List.lt_irrefl u (List.lt_trans huc hcu)
  have hkept : (copies src dst cs cells)[dst u]? =
      (copies src dst pre cells)[dst u]? := by
    rw [hsplit, copies_append, getElem?_copies_of_forall_ne hne]
  rw [hget, hkept, hover]

theorem init {c : List Nat} {size : Nat}
    (hcs : Orderly src dst (cs ++ [c]) size) :
    Orderly src dst cs size where
  increasing := (List.pairwise_append.mp hcs.increasing).1
  src_lt u hu := hcs.src_lt u (by simp [hu])
  dst_lt u hu := hcs.dst_lt u (by simp [hu])
  injective u hu v hv := hcs.injective u (by simp [hu]) v (by simp [hv])

/-- Where each cell that was written before it was read had been given what it
held, all copies take what was there from the start. -/
theorem getElem?_copies_of_alike (hcs : Orderly src dst cs cells.size)
    (halike : cs.Pairwise fun u c =>
      dst u = src c → cells[src u]? = cells[src c]?) :
    ∀ c ∈ cs, (copies src dst cs cells)[dst c]? = cells[src c]? := by
  -- from the end of the list: the copies before the last one satisfy the same
  induction cs using List.reverseRecOn with
  | nil => simp
  | append_singleton cs c ih =>
      obtain ⟨hinit, -, hlast⟩ := List.pairwise_append.mp halike
      have hbefore := ih hcs.init hinit
      intro v hv
      rw [copies_append]
      show (copyCell (src c) (dst c) (copies src dst cs cells))[dst v]? = _
      by_cases hvc : v = c
      · subst hvc
        rw [getElem?_copyCell_self (by simpa using hcs.src_lt v hv)
          (by simpa using hcs.dst_lt v hv)]
        by_cases hover : ∃ u ∈ cs, dst u = src v
        · obtain ⟨u, hu, heq⟩ := hover
          rw [← heq, hbefore u hu, hlast u hu v (by simp) heq, heq]
        · exact getElem?_copies_of_forall_ne fun u hu heq => hover ⟨u, hu, heq⟩
      · have hmem : v ∈ cs := by simpa [hvc] using hv
        have hne : dst c ≠ dst v :=
          fun heq => hvc (hcs.injective c (by simp) v hv heq).symm
        rw [getElem?_copyCell_of_ne hne, hbefore v hmem]

/-- **When copies take what was there from the start.** -/
theorem forall_getElem?_copies_iff (hcs : Orderly src dst cs cells.size) :
    (∀ c ∈ cs, (copies src dst cs cells)[dst c]? = cells[src c]?) ↔
      ∀ u ∈ cs, ∀ c ∈ cs, u < c → dst u = src c →
      cells[src u]? = cells[src c]? := by
  constructor
  · intro hall u hu c hc huc hover
    rw [← hall u hu, ← hall c hc, hcs.getElem?_copies_again hu hc huc hover]
  · intro hpairs
    exact hcs.getElem?_copies_of_alike <|
      hcs.increasing.imp_of_mem fun hu hc huc =>
      hpairs _ hu _ hc huc

end Orderly

end Cells

/-! ## Stores to the storage of the buffer -/

/-- A tensor stays sound where its cells are given what was held by
some of them. -/
theorem Tensor.Sound.updateHeld {t : Tensor} {h : Host ν} {ns : List Nat}
    (ht : t.Sound h ns) {f : Array Element → Array Element}
    (hsize : ∀ cells, (f cells).size = cells.size)
    (hmem : ∀ cells, ∀ e ∈ f cells, e ∈ cells) :
    t.Sound (h.updateCells t.storage f) ns :=
  ht.updateCells (ht.block.withCells (hsize _) fun e he =>
    ht.block.holds e (hmem _ e he))

/-- Two arrays hold the same at two coordinates exactly where the
cells are equal. -/
theorem Tensor.exists_get_iff {t u : Tensor} {h h' : Host ν}
    {ns ms x y : List Nat} (ht : t.Sound h ns) (hu : u.Sound h' ms)
    (hx : InBox ns x) (hy : InBox ms y) :
    (∃ e, t.get (whole x) h = .ok e h ∧ u.get (whole y) h' = .ok e h') ↔
      (h.cells t.storage)[rank ns x]? = (h'.cells u.storage)[rank ms y]? := by
  have hcell : (h.cells t.storage)[rank ns x]? = some _ :=
    ht.block.getElem?_rank hx
  have hcell' : (h'.cells u.storage)[rank ms y]? = some _ :=
    hu.block.getElem?_rank hy
  rw [Tensor.get_eq ht (isWhole_whole_of_inBox hx
    (Nat.le_of_lt ht.block.bound)) hx, Tensor.get_eq hu
    (isWhole_whole_of_inBox hy (Nat.le_of_lt hu.block.bound)) hy, hcell, hcell']
  simp [eq_comm]

namespace Buffer

/-- The element at `u` is stored before the one at `c`, on the cell
where that one lies. -/
def Overruns (ns os ss : List Nat) (b : Buffer) (u c : List Nat) : Prop :=
  Lands ns os b u ∧ Lands ns os b c ∧ u < c ∧ rank ns (shift os u) = rank ss c

/-- The element that the buffer had at `c` is where a store at the
origin `os` puts it. -/
def Arrives (dst : Tensor) (os : List Nat) (b : Buffer) (h h' : Host ν)
    (c : List Nat) : Prop :=
  ∃ e, b.get (whole c) h = .ok (some e) h ∧
    dst.get (whole (shift os c)) h' = .ok e h'

/-- What a store at the origin `os` leaves where the buffer, of extents `ss`,
lies on the storage of the array. -/
structure StoredWithin (dst : Tensor) (ns os ss : List Nat) (b : Buffer)
    (h h' : Host ν) : Prop where
  /-- An element whose cell is not written before it is read arrives. -/
  first : ∀ c, Lands ns os b c → (∀ u, ¬ Overruns ns os ss b u c) →
    Arrives dst os b h h' c
  /-- In the place of any other there is what was put on its cell. -/
  again : ∀ u c, Overruns ns os ss b u c →
    ∃ e, dst.get (whole (shift os u)) h' = .ok e h' ∧
      dst.get (whole (shift os c)) h' = .ok e h'
  /-- Where no valid element is placed, the array holds what it held. -/
  kept : ∀ x, InBox ns x → (∀ c, Lands ns os b c → x ≠ shift os c) →
    ∃ e, dst.get (whole x) h = .ok e h ∧ dst.get (whole x) h' = .ok e h'
  others : ∀ u : Tensor, u.storage ≠ dst.storage → u.block h' = u.block h
  /-- All elements arrive exactly where each one that is overrun was equal to
  the one on its cell. -/
  snapshot_iff : (∀ c, Lands ns os b c → Arrives dst os b h h' c) ↔
    ∀ u c, Overruns ns os ss b u c → b.get (whole u) h = b.get (whole c) h

section

variable {h : Host ν} {dst : Tensor} {b : Buffer} {ns os ss vs : List Nat}
  {origin : Index}

theorem arrives_iff {h' : Host ν} (hb : b.values.Sound h ss)
    (hdst : dst.Sound h' ns) (hsame : b.values.storage = dst.storage)
    (hv : b.valid.IsWhole vs) (hle : List.Forall₂ (· ≤ ·) vs ss) {c : List Nat}
    (hc : InBox vs c) (hin : InBox ns (shift os c)) :
    Arrives dst os b h h' c ↔
      (h'.cells dst.storage)[rank ns (shift os c)]? =
        (h.cells dst.storage)[rank ss c]? := by
  have hcs := inBox_of_le hc hle
  have hread :=
    Tensor.get_eq hb
      (isWhole_whole_of_inBox hcs (Nat.le_of_lt hb.block.bound)) hcs
  have hiff := Tensor.exists_get_iff hb hdst hcs hin
  rw [hsame, eq_comm] at hiff
  rw [← hiff, Arrives, get_of_inBox hb hv hle hc, hread]
  simp

theorem get_eq_get_iff (hb : b.values.Sound h ss) (hv : b.valid.IsWhole vs)
    (hle : List.Forall₂ (· ≤ ·) vs ss) {u c : List Nat} (hu : InBox vs u)
    (hc : InBox vs c) :
    b.get (whole u) h = b.get (whole c) h ↔
      (h.cells b.values.storage)[rank ss u]? =
        (h.cells b.values.storage)[rank ss c]? := by
  have hcellu : (h.cells b.values.storage)[rank ss u]? = some _ :=
    hb.block.getElem?_rank (inBox_of_le hu hle)
  have hcellc : (h.cells b.values.storage)[rank ss c]? = some _ :=
    hb.block.getElem?_rank (inBox_of_le hc hle)
  rw [get_of_inBox hb hv hle hu, get_of_inBox hb hv hle hc, hcellu, hcellc]
  simp

/-- One visit of such a store. -/
theorem send_within (hdst : dst.Sound h ns) (hb : b.values.Sound h ss)
    (hkind : b.values.kind = dst.kind) (hsame : b.values.storage = dst.storage)
    (ho : IsWhole origin os) {c : List Nat} (hlen : c.length = os.length)
    (hc : InBox ss c) (hin : InBox ns (shift os c)) :
    Transfer.send dst.backing origin b.values.get (whole c) h =
      .ok () (h.updateCells dst.storage
        (copyCell (rank ss c) (rank ns (shift os c)))) := by
  have hread :=
    Tensor.get_eq hb
      (isWhole_whole_of_inBox hc (Nat.le_of_lt hb.block.bound)) hc
  have hplace :=
    Transfer.isWhole_offset_of_inBox (Nat.le_of_lt hdst.block.bound) ho hlen hin
  have hholds : dst.kind.Holds ((b.values.block h).elem ss c) := by
    rw [← hkind]
    exact hb.block.holds_elem hc
  have hset : dst.set (offset origin (whole c))
      ((b.values.block h).elem ss c) h =
      .ok () (h.updateCells dst.storage
        (·.setIfInBounds (rank ns (shift os c))
          ((b.values.block h).elem ss c))) := by
    rw [Tensor.set, hdst.block.place_eq hplace hin hholds]
    rfl
  have hcell : (h.cells dst.storage)[rank ss c]? =
      some ((b.values.block h).elem ss c) := by
    rw [← hsame]
    exact hb.block.getElem?_rank hc
  refine ((bind_of_ok hread _).trans hset).trans (congrArg _ ?_)
  exact Host.updateCells_congr (copyCell_eq hcell).symm

/-- All visits, one after the other. -/
theorem foldlM_send_within (hdst : dst.Sound h ns) (hb : b.values.Sound h ss)
    (hkind : b.values.kind = dst.kind) (hsame : b.values.storage = dst.storage)
    (ho : IsWhole origin os) (hss : ss.length = os.length)
    (cs : List (List Nat))
    (hcs : ∀ c ∈ cs, InBox ss c ∧ InBox ns (shift os c)) :
    cs.foldlM (fun _ c =>
      Transfer.send dst.backing origin b.values.get (whole c)) () h =
      .ok () (h.updateCells dst.storage
        (copies (rank ss) (fun c => rank ns (shift os c)) cs)) := by
  induction cs generalizing h with
  | nil =>
      show EStateM.Result.ok () h = .ok () (h.updateCells dst.storage id)
      rw [Host.updateCells_id]
  | cons c cs ih =>
      obtain ⟨⟨hc, hin⟩, hcs⟩ := List.forall_mem_cons.mp hcs
      have hlen : c.length = os.length := by rw [length_of_inBox hc, hss]
      have hvisit := send_within hdst hb hkind hsame ho hlen hc hin
      let copy := copyCell (rank ss c) (rank ns (shift os c))
      have hdst' : dst.Sound (h.updateCells dst.storage copy) ns :=
        hdst.updateHeld (fun _ => size_copyCell) fun _ _ => mem_of_mem_copyCell
      have hb' : b.values.Sound (h.updateCells dst.storage copy) ss := by
        rw [← hsame]
        exact hb.updateHeld (fun _ => size_copyCell) fun _ _ =>
          mem_of_mem_copyCell
      rw [List.foldlM_cons, bind_of_ok hvisit, ih hdst' hb' hcs,
        Host.updateCells_updateCells]
      rfl

/-- A store to the storage of the buffer, as copies from cell to cell. -/
theorem store_eq_copies (hdst : dst.Sound h ns) (hb : b.values.Sound h ss)
    (hkind : b.values.kind = dst.kind) (hsame : b.values.storage = dst.storage)
    (hv : b.valid.IsWhole vs) (hle : List.Forall₂ (· ≤ ·) vs ss)
    (hss : ss.length = ns.length) (ho : IsWhole origin os)
    (hos : os.length = ns.length) :
    store ⟨dst.backing, origin⟩ b h = .ok () (h.updateCells dst.storage
      (copies (rank ss) (fun c => rank ns (shift os c))
        (box (clip ns os vs)))) := by
  have hvs : vs.length = ns.length := by rw [hle.length_eq, hss]
  rw [store_eq_foldlM (a := dst.backing) hdst.block.shape ho hos
    hb.block.shape hss
    (Nat.le_of_lt hb.block.bound) hv hle]
  refine foldlM_send_within hdst hb hkind hsame ho (by rw [hss, hos]) _
    fun c hc => ?_
  obtain ⟨hcv, hin⟩ := (inBox_clip_iff hos hvs).mp (mem_box.mp hc)
  exact ⟨inBox_of_le hcv hle, hin⟩

/-- A store comes by its coordinates in order and puts no two
elements on one cell. -/
theorem orderly_box_clip (hdst : dst.Sound h ns) (hb : b.values.Sound h ss)
    (hsame : b.values.storage = dst.storage) (hle : List.Forall₂ (· ≤ ·) vs ss)
    (hos : os.length = ns.length) (hvs : vs.length = ns.length) :
    Orderly (rank ss) (fun c => rank ns (shift os c)) (box (clip ns os vs))
      (h.cells dst.storage).size := by
  have hmem : ∀ c ∈ box (clip ns os vs), InBox vs c ∧ InBox ns (shift os c) :=
    fun c hc => (inBox_clip_iff hos hvs).mp (mem_box.mp hc)
  have hlen : ∀ c ∈ box (clip ns os vs), c.length = os.length :=
    fun c hc => by rw [length_of_inBox (hmem c hc).1, hvs, hos]
  have hsize : (h.cells dst.storage).size = ns.prod := hdst.block.size
  have hsize' : (h.cells dst.storage).size = ss.prod := by
    rw [← hsame]
    exact hb.block.size
  refine ⟨pairwise_box _, fun c hc => ?_, fun c hc => ?_,
    fun u hu c hc heq => ?_⟩
  · rw [hsize']
    exact rank_lt (inBox_of_le (hmem c hc).1 hle)
  · rw [hsize]
    exact rank_lt (hmem c hc).2
  · exact shift_injective (hlen u hu) (hlen c hc)
      (rank_injective (hmem u hu).2 (hmem c hc).2 heq)

end

/-- **What a store does to the storage of its own buffer**, for every buffer of
the kind and rank of the array, at every origin. -/
theorem store_within {h : Host ν} {dst : Tensor} {b : Buffer}
    {ns os ss : List Nat} {origin : Index} (hdst : dst.Sound h ns)
    (hb : b.values.Sound h ss) (hvalid : b.valid.fitsIn b.values.shape = true)
    (hkind : b.values.kind = dst.kind)
    (hrank : b.values.shape.length = dst.shape.length)
    (hsame : b.values.storage = dst.storage) (ho : IsWhole origin os)
    (horigin : origin.length = dst.shape.length) :
    ∃ h', store ⟨dst.backing, origin⟩ b h = .ok () h' ∧
      StoredWithin dst ns os ss b h h' := by
  have hn : dst.shape.IsWhole ns := hdst.block.shape
  have hs : b.values.shape.IsWhole ss := hb.block.shape
  obtain ⟨vs, hv, hle⟩ := (fitsIn_iff hs).mp hvalid
  have hos : os.length = ns.length := by
    rw [← ho.length_eq, horigin, hn.length_eq]
  have hss : ss.length = ns.length := by
    rw [← hs.length_eq, hrank, hn.length_eq]
  have hvs : vs.length = ns.length := by rw [hle.length_eq, hss]
  have hlands : ∀ c, Lands ns os b c ↔ c ∈ box (clip ns os vs) :=
    fun c => (lands_iff hb hv hle hos hvs).trans mem_box.symm
  have hmem : ∀ c ∈ box (clip ns os vs), InBox vs c ∧ InBox ns (shift os c) :=
    fun c hc => (inBox_clip_iff hos hvs).mp (mem_box.mp hc)
  let moved := copies (rank ss) (fun c => rank ns (shift os c))
    (box (clip ns os vs))
  have hcopies := orderly_box_clip hdst hb hsame hle hos hvs
  have hsound : dst.Sound (h.updateCells dst.storage moved) ns :=
    hdst.updateHeld (fun _ => size_copies) fun _ _ => mem_of_mem_copies
  have hcells : (h.updateCells dst.storage moved).cells dst.storage =
      moved (h.cells dst.storage) :=
    Host.cells_updateCells hdst.allocated moved
  have harrives : ∀ c ∈ box (clip ns os vs),
      (Arrives dst os b h (h.updateCells dst.storage moved) c ↔
        (moved (h.cells dst.storage))[rank ns (shift os c)]? =
          (h.cells dst.storage)[rank ss c]?) := by
    intro c hc
    rw [arrives_iff hb hsound hsame hv hle (hmem c hc).1 (hmem c hc).2, hcells]
  refine ⟨_, store_eq_copies hdst hb hkind hsame hv hle hss ho hos, ?_, ?_,
    ?_, ?_, ?_⟩
  · intro c hland hfirst
    have hc := (hlands c).mp hland
    refine (harrives c hc).mpr
      (hcopies.getElem?_copies_first hc fun u hu huc hover => ?_)
    exact hfirst u ⟨(hlands u).mpr hu, hland, huc, hover⟩
  · rintro u c ⟨hlandu, hlandc, huc, hover⟩
    have hu := (hlands u).mp hlandu
    have hc := (hlands c).mp hlandc
    rw [Tensor.exists_get_iff hsound hsound (hmem u hu).2 (hmem c hc).2, hcells]
    exact (hcopies.getElem?_copies_again hu hc huc hover).symm
  · intro x hx hfar
    rw [Tensor.exists_get_iff hdst hsound hx hx, hcells]
    refine (getElem?_copies_of_forall_ne fun c hc heq => ?_).symm
    exact hfar c ((hlands c).mpr hc) (rank_injective (hmem c hc).2 hx heq).symm
  · exact fun u hu => Tensor.block_updateCells_of_ne hu _
  · have hiff := hcopies.forall_getElem?_copies_iff
    constructor
    · rintro hall u c ⟨hlandu, hlandc, huc, hover⟩
      have hu := (hlands u).mp hlandu
      have hc := (hlands c).mp hlandc
      rw [get_eq_get_iff hb hv hle (hmem u hu).1 (hmem c hc).1, hsame]
      refine hiff.mp (fun w hw => ?_) u hu c hc huc hover
      exact (harrives w hw).mp (hall w ((hlands w).mpr hw))
    · intro hpairs c hland
      have hc := (hlands c).mp hland
      refine (harrives c hc).mpr (hiff.mpr (fun u hu w hw huw hover => ?_) c hc)
      have hget := hpairs u w ⟨(hlands u).mpr hu, (hlands w).mpr hw, huw, hover⟩
      rwa [get_eq_get_iff hb hv hle (hmem u hu).1 (hmem w hw).1, hsame] at hget

/-- The numbers from 0 to 3. -/
def counting : Array Element :=
  #[.integer 0, .integer 1, .integer 2, .integer 3]

theorem sound_counting :
    Tensor.Sound ⟨.i64, whole [4], 0⟩
      ((Host.empty .empty ()).pushCells counting : Host Unit) [4] := by
  have hblock : Block.Sound ⟨.i64, whole [4], counting⟩ [4] := by
    refine ⟨isWhole_whole (by decide), rfl, by decide, fun e he => ?_⟩
    simp only [counting, List.mem_toArray, List.mem_cons, List.not_mem_nil,
      or_false] at he
    rcases he with rfl | rfl | rfl | rfl <;> rfl
  exact Tensor.sound_allocated hblock (Host.empty .empty ())

/-- An array stored to itself one cell further on. -/
theorem store_within_shifted :
    let t : Tensor := ⟨.i64, whole [4], 0⟩
    let b : Buffer := ⟨t, whole [4]⟩
    let h : Host Unit := (Host.empty .empty ()).pushCells counting
    t.Sound h [4] ∧ b.valid.fitsIn b.values.shape = true ∧
      IsWhole (whole [1]) [1] ∧
      ∃ h', store ⟨t.backing, whole [1]⟩ b h = .ok () h' ∧
        StoredWithin t [4] [1] [4] b h h' := by
  intro t b h
  have hextent : (whole [4]).IsWhole [4] := isWhole_whole (by decide)
  have hvalid : b.valid.fitsIn b.values.shape = true :=
    (fitsIn_iff hextent).mpr ⟨[4], hextent, by simp⟩
  have horigin : IsWhole (whole [1]) [1] := isWhole_whole (by decide)
  exact ⟨sound_counting, hvalid, horigin,
    store_within sound_counting sound_counting hvalid rfl rfl rfl horigin
      (by simp [t])⟩

/-- Its first element then goes to every cell, and the second does
not arrive. -/
theorem store_shifted_not_snapshot :
    let t : Tensor := ⟨.i64, whole [4], 0⟩
    let b : Buffer := ⟨t, whole [4]⟩
    let h : Host Unit := (Host.empty .empty ()).pushCells counting
    t.Sound h [4] ∧ Lands [4] [1] b [1] ∧
      ∃ h', store ⟨t.backing, whole [1]⟩ b h = .ok () h' ∧
        h'.cells 0 = Array.replicate 4 (.integer 0) ∧
        ¬ Arrives t [1] b h h' [1] := by
  intro t b h
  have hextent : (whole [4]).IsWhole [4] := isWhole_whole (by decide)
  have horigin : IsWhole (whole [1]) [1] := isWhole_whole (by decide)
  have hle : List.Forall₂ (· ≤ ·) [4] [4] := by simp
  have hcovers : b.valid.covers (whole [1]) = true :=
    (covers_iff_inBox hextent horigin).mpr (by simp [InBox])
  let moved := copies (rank [4]) (fun c => rank [4] (shift [1] c))
    (box (clip [4] [1] [4]))
  have hmoved : moved counting = Array.replicate 4 (.integer 0) := by decide
  have hcells : (h.updateCells 0 moved).cells 0 =
      Array.replicate 4 (.integer 0) := by
    rw [Host.cells_updateCells (by decide)]
    exact hmoved
  have hsound : t.Sound (h.updateCells 0 moved) [4] :=
    sound_counting.updateHeld (fun _ => size_copies) fun _ _ =>
      mem_of_mem_copies
  refine ⟨sound_counting,
    ⟨whole [1], horigin, hcovers, by simp [InBox, shift]⟩, _,
    store_eq_copies sound_counting sound_counting rfl rfl hextent hle rfl
      horigin rfl, hcells, ?_⟩
  rw [arrives_iff sound_counting hsound rfl hextent hle (by simp [InBox])
    (by simp [InBox, shift]), hcells]
  decide

end Buffer

end TileGrid
