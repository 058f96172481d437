import TileGrid.Proofs.Drivers
import TileGrid.Proofs.Elementwise

/-!
# Tiled transposition through scratch space

The kernel loads its tile, copies it with its axes in reverse order to a scratch
buffer and stores that with the tile's offset reversed. Over all tiles of a
launch, of whatever extents, the destination ends as the source with its axes
reversed, which for two axes is its transpose.
-/

namespace TileGrid

open RowMajor Shape

variable {ν : Type}

/-! ## Axes in reverse order -/

namespace RowMajor

theorem inBox_reverse {ns is : List Nat} :
    InBox ns.reverse is.reverse ↔ InBox ns is :=
  List.forall₂_reverse_iff

theorem shift_reverse {os is : List Nat} (hlen : is.length = os.length) :
    shift os.reverse is.reverse = (shift os is).reverse :=
  (List.reverse_zipWith hlen.symm).symm

end RowMajor

theorem Shape.IsWhole.reverse {shape : Shape} {ns : List Nat}
    (h : shape.IsWhole ns) :
    IsWhole (List.reverse shape) ns.reverse := List.forall₂_reverse_iff.mpr h

/-! ## Scratch buffers -/

/-- A scratch buffer is a fresh array on storage of its own, valid
throughout. -/
theorem Buffer.scratch_eq {shape : Shape} {ss : List Nat}
    (hs : shape.IsWhole ss) (hne : shape ≠ [])
    (hlt : ss.prod < Number.safeLimit) (kind : Kind) (h : Host ν) :
    Buffer.scratch shape kind.name h =
      .ok ⟨⟨kind, shape, h.storages.size⟩, shape⟩
        (h.pushCells (Array.replicate ss.prod kind.zero)) := by
  have hself : List.Forall₂ (· ≤ ·) ss ss := List.forall₂_refl ss
  have hscratch : Masked.scratch shape kind.name =
      .ok ⟨⟨kind, shape, Array.replicate ss.prod kind.zero⟩, shape⟩ := by
    have hempty : List.isEmpty shape = false := by simpa using hne
    unfold Masked.scratch
    rw [hempty, Block.zerosNamed_eq hs hlt]
    exact Masked.make_eq hs hs hself
  unfold Buffer.scratch
  rw [hscratch]
  rfl

namespace Tensor

/-- Copies an array, with its axes in reverse order. -/
def copyReversed (a out : Tensor) : Act ν Unit :=
  Shape.visitAll .endless a.shape () fun _ index _ => do
    let e ← a.get index
    out.set (List.reverse index) e

/-- Loads the tile from `src` and copies it, with its axes in reverse order, to
a scratch buffer. -/
def loadReversed (src : Tensor) (t : Tile) : Act ν Buffer := do
  let b ← Buffer.load ⟨src.backing, t.offset⟩ t.shape
  let out ← Buffer.scratch (List.reverse t.shape) src.kind.name
  copyReversed b.values out.values
  return out

/-- Stores the tile of `src` to `dst`, with the axes of its elements and of its
offset in reverse order. -/
def transposeTile (src dst : Tensor) (t : Tile) : Act ν Completion := do
  let out ← loadReversed src t
  Buffer.store ⟨dst.backing, List.reverse t.offset⟩ out
  return .finished

variable {h : Host ν} {src dst : Tensor} {ns os ss : List Nat} {t : Tile}

theorem Sound.updateCells_of_ne {u : Tensor} (hu : u.Sound h ns) {storage : Nat}
    (hne : u.storage ≠ storage) (f : Array Element → Array Element) :
    u.Sound (h.updateCells storage f) ns := by
  apply hu.of_block_eq
  · simp [Host.updateCells]
  · exact block_updateCells_of_ne hne f

/-- **A copy with reversed axes** holds at each reversed coordinate what the
array holds at the coordinate. -/
theorem copyReversed_spec {a out : Tensor} (ha : a.Sound h ss)
    (hout : out.Sound h ss.reverse) (hkind : a.kind = out.kind)
    (hne : a.storage ≠ out.storage) :
    ∃ h', copyReversed a out h = .ok () h' ∧ out.Sound h' ss.reverse ∧
      (∀ c, InBox ss c →
        (out.block h').elem ss.reverse c.reverse = (a.block h).elem ss c) ∧
      h'.storages.size = h.storages.size ∧
      ∀ u : Tensor, u.storage ≠ out.storage → u.block h' = u.block h := by
  have hlt := Nat.le_of_lt ha.block.bound
  have hshape : a.shape.IsWhole ss := ha.block.shape
  have hwhole : ∀ c ∈ box ss, IsWhole (whole c) c :=
    fun c hc => isWhole_whole_of_inBox (mem_box.mp hc) hlt
  have hread :
      ∀ c ∈ box ss, ∀ f, a.get (whole c) (h.updateCells out.storage f) =
      .ok ((a.block h).elem ss c) (h.updateCells out.storage f) := by
    intro c hc f
    rw [get_eq (ha.updateCells_of_ne hne f) (hwhole c hc) (mem_box.mp hc),
      block_updateCells_of_ne hne]
  have hin : ∀ c ∈ box ss, InBox ss.reverse c.reverse :=
    fun c hc => inBox_reverse.mpr (mem_box.mp hc)
  have hholds : ∀ c ∈ box ss, out.kind.Holds ((a.block h).elem ss c) := by
    intro c hc
    rw [← hkind]
    exact ha.block.holds_elem (mem_box.mp hc)
  have hcopy := Transfer.foldlM_copyAt hout (box ss)
    (fun c hc => (hwhole c hc).reverse) hin hread
    hholds
  let put := writes (fun c => rank ss.reverse c.reverse)
    ((a.block h).elem ss) (box ss)
  have hput : Block.Sound { out.block h with cells := put (out.block h).cells }
      ss.reverse :=
    hout.block.withWrites hholds
  refine ⟨h.updateCells out.storage put, ?_, hout.updateCells hput, ?_, ?_, ?_⟩
  · show Shape.visitAll .endless a.shape ()
      (fun _ index _ => Transfer.copyAt out List.reverse a.get index) h = _
    rw [visitAll_eq_box hshape hlt]
    exact hcopy
  · intro c hc
    rw [block_updateCells hout.allocated]
    apply hout.block.elem_writes hin (mem_box.mpr hc)
    exact fun u _ heq => List.reverse_injective heq
  · simp [Host.updateCells]
  · exact fun u hu => block_updateCells_of_ne hu put

/-- What the scratch buffer holds, which lies on storage that was
not there before. -/
structure Reversed (src : Tensor) (ns os ss : List Nat) (t : Tile) (h : Host ν)
    (out : Buffer) (h' : Host ν) : Prop where
  kind : out.values.kind = src.kind
  valid : out.valid = List.reverse t.shape
  fresh : h.storages.size ≤ out.values.storage
  sound : out.values.Sound h' ss.reverse
  elem : ∀ c, InBox ss c →
    (out.values.block h').elem ss.reverse c.reverse =
      (src.block h).elem ns (shift os c)
  size_le : h.storages.size ≤ h'.storages.size
  others : ∀ u : Tensor, u.storage < h.storages.size → u.block h' = u.block h

/-- **The tile in scratch space**, for a tile that lies inside the array. -/
theorem loadReversed_spec (hsrc : src.Sound h ns) (ho : IsWhole t.offset os)
    (hs : t.shape.IsWhole ss) (hos : os.length = ns.length)
    (hss : ss.length = ns.length) (hrank : 0 < ns.length)
    (hlt : ss.prod < Number.safeLimit)
    (hin : ∀ c, InBox ss c → InBox ns (shift os c)) :
    ∃ out h', loadReversed src t h = .ok out h' ∧
      Reversed src ns os ss t h out h' := by
  let loaded := Block.filled src.kind t.shape ss (clip ns os ss) fun c =>
    (src.block h).elem ns (shift os c)
  have hloaded : loaded.Sound ss := Block.sound_filled hs hlt fun c hc =>
    hsrc.block.holds_elem ((inBox_clip_iff hos hss).mp hc).2
  have hload := Buffer.load_filled hsrc ho hos hs hss hlt
  -- first the storage of the tile, and then that of the scratch buffer
  let h₁ := h.pushCells loaded.cells
  let tile : Tensor := ⟨src.kind, t.shape, h.storages.size⟩
  let cells := Array.replicate ss.reverse.prod src.kind.zero
  let out : Buffer :=
    ⟨⟨src.kind, List.reverse t.shape, h₁.storages.size⟩, List.reverse t.shape⟩
  have hsize : h₁.storages.size = h.storages.size + 1 := by
    simp [h₁, Host.pushCells]
  have htile : tile.Sound h₁ ss := sound_allocated hloaded h
  have hblock : tile.block (h₁.pushCells cells) = loaded := by
    rw [block_pushCells htile.allocated]
    exact block_allocated loaded h
  have hprod : ss.reverse.prod < Number.safeLimit := by rwa [List.prod_reverse]
  have hne : List.reverse t.shape ≠ [] := by
    rw [← List.length_pos_iff, List.length_reverse, hs.length_eq, hss]
    exact hrank
  have hscratch := Buffer.scratch_eq hs.reverse hne hprod src.kind h₁
  have hout : out.values.Sound (h₁.pushCells cells) ss.reverse :=
    sound_allocated (Block.sound_zeros hs.reverse hprod src.kind) h₁
  have hapart : tile.storage ≠ out.values.storage := by
    show h.storages.size ≠ h₁.storages.size
    omega
  obtain ⟨h', hcopy, hsound, helem, hsize', hothers⟩ :=
    copyReversed_spec (htile.pushCells cells) hout rfl hapart
  refine ⟨out, h', ?_, rfl, rfl, ?_, hsound, ?_, ?_, ?_⟩
  · unfold loadReversed
    rw [bind_of_ok hload, bind_of_ok hscratch]
    exact bind_of_ok hcopy _
  · show h.storages.size ≤ h₁.storages.size
    omega
  · intro c hc
    rw [helem c hc, hblock]
    exact Block.elem_filled (clip_le hos hss)
      ((inBox_clip_iff hos hss).mpr ⟨hc, hin c hc⟩)
  · rw [hsize']
    simp only [Host.pushCells, Array.size_push]
    omega
  · intro u hu
    have hu₁ : u.storage < h₁.storages.size := by omega
    rw [hothers u (Nat.ne_of_lt hu₁), block_pushCells hu₁, block_pushCells hu]

/-- **One tile of the transposition.** The destination holds the elements of
the tile at their reversed places, and elsewhere what it held; all other arrays
are as they were. -/
theorem transposeTile_spec (hsrc : src.Sound h ns)
    (hdst : dst.Sound h ns.reverse) (hkind : src.kind = dst.kind)
    (ho : IsWhole t.offset os) (hs : t.shape.IsWhole ss)
    (hos : os.length = ns.length) (hss : ss.length = ns.length)
    (hrank : 0 < ns.length) (hlt : ss.prod < Number.safeLimit)
    (hin : ∀ c, InBox ss c → InBox ns (shift os c)) :
    ∃ h', transposeTile src dst t h = .ok .finished h' ∧
      dst.Sound h' ns.reverse ∧
      (∀ c, InBox ss c → (dst.block h').elem ns.reverse (shift os c).reverse =
        (src.block h).elem ns (shift os c)) ∧
      (∀ x, InBox ns x → (∀ c, InBox ss c → x ≠ shift os c) →
        (dst.block h').elem ns.reverse x.reverse =
          (dst.block h).elem ns.reverse x.reverse) ∧
      h.storages.size ≤ h'.storages.size ∧
      ∀ u : Tensor, u.storage < h.storages.size → u.storage ≠ dst.storage →
        u.block h' = u.block h := by
  obtain ⟨out, h₁, hload, hout⟩ :=
    loadReversed_spec hsrc ho hs hos hss hrank hlt hin
  have hdst₁ := hdst.of_block_eq hout.size_le (hout.others dst hdst.allocated)
  have hvalid : out.valid.IsWhole ss.reverse := by
    rw [hout.valid]
    exact hs.reverse
  have hshift : ∀ c, InBox ss c →
      shift os.reverse c.reverse = (shift os c).reverse :=
    fun c hc => shift_reverse (by rw [length_of_inBox hc, hss, hos])
  have hosr : os.reverse.length = ns.reverse.length := by simpa using hos
  have hssr : ss.reverse.length = ns.reverse.length := by simpa using hss
  -- all of the scratch buffer falls inside the destination
  have hclip : ∀ c, InBox (clip ns.reverse os.reverse ss.reverse) c.reverse ↔
      InBox ss c := by
    intro c
    rw [inBox_clip_iff hosr hssr, inBox_reverse]
    refine and_iff_left_of_imp fun hc => ?_
    rw [hshift c hc, inBox_reverse]
    exact hin c hc
  have hinside : ∀ c, InBox (clip ns.reverse os.reverse ss.reverse) c →
      InBox ns.reverse (shift os.reverse c) :=
    fun c hc => ((inBox_clip_iff hosr hssr).mp hc).2
  have hstore := Buffer.store_eq hdst₁ ho.reverse hosr rfl hout.sound.block hssr
    (hout.kind.trans hkind) hvalid (List.forall₂_refl _)
    (Nat.ne_of_gt (hdst.allocated.trans_le hout.fresh))
  let val := (out.values.block h₁).elem ss.reverse
  let stored := (dst.block h₁).stored ns.reverse os.reverse
    (clip ns.reverse os.reverse ss.reverse) val
  let put := writes (fun c => rank ns.reverse (shift os.reverse c)) val
    (box (clip ns.reverse os.reverse ss.reverse))
  have hstored : stored.Sound ns.reverse := by
    apply hdst₁.block.stored
    intro c hc
    have hholds :=
      hout.sound.block.holds_elem ((inBox_clip_iff hosr hssr).mp hc).1
    have hkinds : (out.values.block h₁).kind = dst.kind := hout.kind.trans hkind
    rwa [hkinds] at hholds
  have hblock : dst.block (h₁.updateCells dst.storage put) = stored :=
    block_updateCells hdst₁.allocated put
  refine ⟨h₁.updateCells dst.storage put, ?_, hdst₁.updateCells hstored, ?_,
    ?_, ?_, ?_⟩
  · unfold transposeTile
    rw [bind_of_ok hload]
    exact bind_of_ok hstore _
  · intro c hc
    have helem : stored.elem ns.reverse (shift os.reverse c.reverse) =
        val c.reverse :=
      hdst₁.block.elem_stored (by rw [length_clip hosr hssr, hosr]) hinside
        ((hclip c).mpr hc)
    rw [hblock, ← hshift c hc, helem]
    exact hout.elem c hc
  · intro x hx hfar
    have hne : ∀ c, InBox (clip ns.reverse os.reverse ss.reverse) c →
        x.reverse ≠ shift os.reverse c := by
      intro c hc heq
      rw [← List.reverse_reverse c, hclip] at hc
      rw [← List.reverse_reverse c, hshift _ hc] at heq
      exact hfar _ hc (List.reverse_injective heq)
    have helem : stored.elem ns.reverse x.reverse =
        (dst.block h₁).elem ns.reverse x.reverse :=
      Block.elem_stored_of_forall_ne hinside (inBox_reverse.mpr hx) hne
    rw [hblock, helem, hout.others dst hdst.allocated]
  · simpa [Host.updateCells] using hout.size_le
  · intro u hu hne
    rw [block_updateCells_of_ne hne, hout.others u hu]

/-! ## Along a run -/

/-- How far a run has come: at the reversed places of the coordinates that
are `done` the destination holds what the source holds there, and the
source is as it was. -/
structure Transposing (src dst : Tensor) (gs : List Nat) (h₀ h : Host ν)
    (done : List Nat → Prop) :
    Prop where
  src_sound : src.Sound h gs
  dst_sound : dst.Sound h gs.reverse
  source : src.block h = src.block h₀
  written : ∀ x, InBox gs x → done x →
    (dst.block h).elem gs.reverse x.reverse = (src.block h₀).elem gs x

theorem Transposing.congr {gs : List Nat} {h₀ h' : Host ν}
    {done : List Nat → Prop} (hp : Transposing src dst gs h₀ h done)
    (hsame : h.storages = h'.storages) :
    Transposing src dst gs h₀ h' done := by
  have hblock := block_congr hsame
  refine ⟨hp.src_sound.congr hsame, hp.dst_sound.congr hsame, ?_, ?_⟩
  · rw [hblock, hp.source]
  · rw [hblock]
    exact hp.written

section

variable {l : Launch} {gs ts : List Nat} (hl : l.Splits gs ts)

include hl

/-- **One tile carries the run on.** -/
theorem Transposing.tile (hrank : 0 < gs.length)
    (htile : ts.prod < Number.safeLimit) (hkind : src.kind = dst.kind)
    (hne : src.storage ≠ dst.storage) {k : Nat}
    (ht : (l.exactTiles gs ts)[k]? = some t) {h₀ : Host ν}
    (hp : Transposing src dst gs h₀ h (doneTiles gs ts k)) :
    ∃ h', transposeTile src dst t h = .ok .finished h' ∧
      Transposing src dst gs h₀ h' (doneTiles gs ts (k + 1)) := by
  obtain ⟨hk, rfl⟩ := Launch.getElem?_exactTiles.mp ht
  have hcount := inBox_coordinate hk
  have his := Tiling.length_of_inBox_counts hl.rank_eq hcount
  have hranks := hl.rank_eq
  have hoff := Tiling.length_offset his
  have hext := Tiling.length_extent hranks his
  have hg : ∀ g ∈ gs, g ≤ Number.safeLimit := fun g hg =>
    (le_prod_of_mem (prod_pos_iff.mpr hl.domain_pos) g hg).trans
      (Nat.le_of_lt hp.src_sound.block.bound)
  obtain ⟨-, ho, hs⟩ := hl.exactTile_isWhole hg hcount
  have hlt := (prod_le_prod (Tiling.extent_le hranks his)).trans_lt htile
  have hin : ∀ c,
      InBox (Tiling.extent gs ts (coordinate (Tiling.counts gs ts) k)) c →
      InBox gs
        (shift (Tiling.offset ts (coordinate (Tiling.counts gs ts) k)) c) :=
    fun c hc => ((Tiling.mem_tile_iff hranks hl.tile_pos his).mp ⟨c, hc, rfl⟩).1
  obtain ⟨h', hrun, hdst, hwritten, hkept, hsize, hothers⟩ :=
    transposeTile_spec hp.src_sound hp.dst_sound hkind ho hs (by omega)
      (by omega) hrank hlt hin
  have hsource := hothers src hp.src_sound.allocated hne
  refine ⟨h', hrun, hp.src_sound.of_block_eq hsize hsource, hdst,
    hsource.trans hp.source, ?_⟩
  intro x hx hdone
  rcases (doneTiles_succ hl hk x).mpr hdone with hbefore | ⟨c, hc, rfl⟩
  · -- what was done before is not touched again
    have hfar : ∀ c,
        InBox (Tiling.extent gs ts (coordinate (Tiling.counts gs ts) k)) c →
        x ≠ shift (Tiling.offset ts
          (coordinate (Tiling.counts gs ts) k)) c := by
      rintro c hc rfl
      exact not_doneTiles hl hk hc hbefore
    rw [hkept x hx hfar]
    exact hp.written x hx hbefore
  · rw [hwritten c hc, hp.source]

end

/-- **The kernel over all tiles of a launch** reverses the axes of
the whole array. -/
theorem run_transposeTile {l : Launch} (hl : l.check = .ok ()) {id : Nat}
    (hidle : (h.driver id).phase = .idle) (hsrc : src.Sound h l.domainNats)
    (hdst : dst.Sound h l.domainNats.reverse) (hkind : src.kind = dst.kind)
    (hne : src.storage ≠ dst.storage)
    (hg : ∀ g ∈ l.domain, g.le (.ofNat Number.safeLimit) = true)
    (htile : l.tileNats.prod < Number.safeLimit) :
    ∃ h', Host.run id l (transposeTile src dst) h = .ok () h' ∧
      Transposing src dst l.domainNats h h' (InBox l.domainNats) := by
  have hs := Launch.splits_of_check hl
  have hrank : 0 < l.domainNats.length := by
    obtain ⟨gs, ts, hsplit, hpos, -⟩ := Launch.check_iff.mp hl
    rw [hsplit.domainNats]
    exact hpos
  have hstart : Transposing src dst l.domainNats h h
      (doneTiles l.domainNats l.tileNats 0) :=
    ⟨hsrc, hdst, rfl, fun x _ hdone => absurd hdone.2 (Nat.not_lt_zero _)⟩
  obtain ⟨h', hrun, hlast⟩ := Host.run_invariant hl hg hidle
    (fun k h' => Transposing src dst l.domainNats h h'
      (doneTiles l.domainNats l.tileNats k))
    (fun k h₁ h₂ hsame _ hp => hp.congr hsame)
    (fun k t ht h₁ hp => hp.tile hs hrank htile hkind hne ht) hstart
  have hall : doneTiles l.domainNats l.tileNats l.tiles.length =
      InBox l.domainNats := by
    funext x
    rw [l.length_tiles]
    exact propext (doneTiles_all hs x)
  rw [hall] at hlast
  exact ⟨h', hrun, hlast⟩

/-- The destination holds, after what led from the one state to the other, the
transpose of what the source held before it, and the source is as it was. -/
def Transposed (src dst : Tensor) (m n : Nat) (h h' : Host ν) : Prop :=
  src.block h' = src.block h ∧
    ∀ i < m, ∀ j < n, ∃ e, src.get (whole [i, j]) h = .ok e h ∧
      dst.get (whole [j, i]) h' = .ok e h'

theorem Transposing.transposed {m n : Nat} {h' : Host ν}
    (hsrc : src.Sound h [m, n])
    (hp : Transposing src dst [m, n] h h' (InBox [m, n])) :
    Transposed src dst m n h h' := by
  refine ⟨hp.source,
    fun i hi j hj => ⟨(src.block h).elem [m, n] [i, j], ?_, ?_⟩⟩
  · have hin : InBox [m, n] [i, j] := .cons hi (.cons hj .nil)
    exact get_eq hsrc
      (isWhole_whole_of_inBox hin (Nat.le_of_lt hsrc.block.bound)) hin
  · have hin : InBox [n, m] [j, i] := .cons hj (.cons hi .nil)
    have hback : InBox [m, n] [i, j] := .cons hi (.cons hj .nil)
    have hwritten : (dst.block h').elem [n, m] [j, i] = _ :=
      hp.written [i, j] hback hback
    have hdst : dst.Sound h' [n, m] := hp.dst_sound
    have hbound := Nat.le_of_lt hdst.block.bound
    rw [get_eq hdst (isWhole_whole_of_inBox hin hbound) hin, hwritten]

theorem extent_le_of_prod_lt {xs : List Nat} (hpos : ∀ x ∈ xs, 0 < x)
    (hlt : xs.prod < Number.safeLimit) :
    ∀ x ∈ xs, 0 < x ∧ x ≤ Number.safeLimit := by
  intro x hx
  exact ⟨hpos x hx,
    (le_prod_of_mem (prod_pos_iff.mpr hpos) x hx).trans (Nat.le_of_lt hlt)⟩

/-- **Tiled transposition is correct for every matrix and every tile.** On any
driver at rest, and as a kernel with any options, it comes to its end, and the
destination holds the transpose of the source whatever it held before. -/
theorem transpose_any_tiles {m n p q : Nat} (hm : 0 < m) (hn : 0 < n)
    (hp : 0 < p) (hq : 0 < q) (htile : p * q < Number.safeLimit)
    (hsrc : src.Sound h [m, n]) (hdst : dst.Sound h [n, m])
    (hkind : src.kind = dst.kind) (hne : src.storage ≠ dst.storage) :
    (∀ id, (h.driver id).phase = .idle →
      ∃ h', Host.run id ⟨whole [m, n], whole [p, q]⟩ (transposeTile src dst) h =
        .ok () h' ∧ Transposed src dst m n h h') ∧
    ∀ o, ∃ h', Host.launch o ⟨whole [m, n], whole [p, q]⟩
      (transposeTile src dst) h = .ok () h' ∧
      Transposed src dst m n h h' := by
  let l : Launch := ⟨whole [m, n], whole [p, q]⟩
  have hprod : [p, q].prod < Number.safeLimit := by simpa using htile
  have hgs := extent_le_of_prod_lt (by simp [hm, hn]) hsrc.block.bound
  have hs : l.Splits [m, n] [p, q] :=
    Launch.splits_whole rfl hgs (extent_le_of_prod_lt (by simp [hp, hq]) hprod)
  have hl : l.check = .ok () :=
    Launch.check_iff.mpr ⟨_, _, hs, by simp, by simp [Launch.maxRank]⟩
  have hrun : ∀ (h₀ : Host ν) (id : Nat), (h₀.driver id).phase = .idle →
      src.Sound h₀ [m, n] →
      dst.Sound h₀ [n, m] →
      ∃ h', Host.run id l (transposeTile src dst) h₀ = .ok () h' ∧
        Transposing src dst [m, n] h₀ h' (InBox [m, n]) := by
    intro h₀ id hidle hsrc₀ hdst₀
    have hlast := run_transposeTile hl hidle (hs.domainNats ▸ hsrc₀)
      (hs.domainNats ▸ hdst₀) hkind
      hne (Launch.whole_le_safeLimit hgs) (hs.tileNats ▸ hprod)
    rwa [hs.domainNats] at hlast
  constructor
  · intro id hidle
    obtain ⟨h', hend, hlast⟩ := hrun h id hidle hsrc hdst
    exact ⟨h', hend, hlast.transposed hsrc⟩
  · intro o
    -- the driver that a kernel makes for itself is on no storage
    have hidle : ((h.withDriver o).driver h.drivers.size).phase = .idle := by
      rw [Host.driver_withDriver]
    obtain ⟨h', hend, hlast⟩ :=
      hrun (h.withDriver o) h.drivers.size hidle (hsrc.congr rfl)
        (hdst.congr rfl)
    have hwhole : Transposing src dst [m, n] h h' (InBox [m, n]) :=
      ⟨hlast.src_sound, hlast.dst_sound, hlast.source, hlast.written⟩
    rw [← Host.launch_eq] at hend
    exact ⟨h', hend, hwhole.transposed hsrc⟩

/-- Five rows of three, in tiles of two by two, four of which are
cut at an edge. -/
theorem transpose_any_tiles_ragged :
    let src : Tensor := ⟨.i64, whole [5, 3], 0⟩
    let dst : Tensor := ⟨.i64, whole [3, 5], 1⟩
    let numbered : Host Unit :=
      (Host.empty .empty ()).pushCells (Array.ofFn fun k : Fin 15 => .integer k)
    let h := numbered.pushCells (Array.replicate 15 (.integer 0))
    src.Sound h [5, 3] ∧ dst.Sound h [3, 5] ∧ src.kind = dst.kind ∧
    src.storage ≠ dst.storage ∧
    ∃ h', Host.launch ⟨none, none⟩ ⟨whole [5, 3], whole [2, 2]⟩
      (transposeTile src dst) h = .ok () h' ∧
      Transposed src dst 5 3 h h' := by
  intro src dst numbered h
  have hshape : ∀ m ≤ 5, ∀ n ≤ 5, (whole [m, n]).IsWhole [m, n] := by
    intro m hm n hn
    have hlim : 5 ≤ Number.safeLimit := by decide
    exact isWhole_whole (by simp [hm.trans hlim, hn.trans hlim])
  have hcells : Block.Sound ⟨.i64, whole [5, 3],
      Array.ofFn fun k : Fin 15 => .integer k⟩ [5, 3] := by
    refine ⟨hshape 5 (by decide) 3 (by decide), by simp, by decide,
      fun e he => ?_⟩
    obtain ⟨k, rfl⟩ := Array.mem_ofFn.mp he
    have hwrap : ∀ k : Fin 15, Kind.wrap 64 true (k : Nat) = (k : Nat) := by
      decide
    exact congrArg (fun n => Except.ok (Element.integer n)) (hwrap k)
  have hsrc : src.Sound h [5, 3] :=
    (sound_allocated hcells (Host.empty .empty ())).pushCells _
  have hdst : dst.Sound h [3, 5] := by
    have hzeros := Block.sound_zeros (hshape 3 (by decide) 5 (by decide))
      (by decide) .i64
    exact sound_allocated hzeros numbered
  have hne : src.storage ≠ dst.storage := by decide
  refine ⟨hsrc, hdst, rfl, hne, ?_⟩
  exact (transpose_any_tiles (by decide) (by decide) (by decide) (by decide)
    (by decide) hsrc hdst rfl
    hne).2 ⟨none, none⟩

end Tensor

end TileGrid
