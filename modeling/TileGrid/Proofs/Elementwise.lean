import TileGrid.Proofs.Transfer
import TileGrid.Proofs.Partition

/-!
# A tiled elementwise kernel equals the untiled one

The kernel loads its tile from one array, maps a function over it and stores
the result to another, or to the same one. Over all tiles of a launch that
writes, for every coordinate of the space that both arrays have, the
function of what the source held before the run, and nothing else. The tiles
may be of any extents.
-/

namespace TileGrid

open RowMajor Shape

variable {ν : Type}

/-- Every value of the function on what cells of the kind hold can be
written to them. -/
def Kind.Takes (kind : Kind) (f : Element → Element) : Prop :=
  ∀ e, kind.Holds e → ∃ r, kind.convert (f e) = .ok r

theorem Kind.Takes.convert {kind : Kind} {f : Element → Element}
    (hf : kind.Takes f) {e : Element} (he : kind.Holds e) :
    kind.convert (f e) = .ok (kind.written (f e)) := by
  obtain ⟨r, hr⟩ := hf e he
  rw [Kind.written, hr]

namespace Tensor

/-- Loads the tile from `src`, applies `f` to each element and stores
the tile to `dst`. -/
def elementwise (src dst : Tensor) (f : Element → Element) (t : Tile) :
    Act ν Completion := do
  let b ← Buffer.load ⟨src.backing, t.offset⟩ t.shape
  let m ← b.map fun e _ => pure (f e)
  Buffer.store ⟨dst.backing, t.offset⟩ m
  return .finished

variable {h : Host ν} {src dst : Tensor} {f : Element → Element}
  {ns ds os ss : List Nat}

/-- The kernel allocates two buffers and writes the cells of its destination. -/
theorem elementwise_eq (hsrc : src.Sound h ns) (hdst : dst.Sound h ds)
    (hkind : src.kind = dst.kind) (hf : dst.kind.Takes f) {t : Tile}
    (ho : IsWhole t.offset os) (hs : t.shape.IsWhole ss)
    (hos : os.length = ns.length) (hss : ss.length = ns.length)
    (hds : ds.length = ns.length) (hlim : ∀ s ∈ ss, s ≤ Number.safeLimit)
    (hlt : ss.prod < Number.safeLimit) :
    ∃ loaded mapped, elementwise src dst f t h = .ok .finished
      (((h.pushCells loaded).pushCells mapped).updateCells dst.storage
        (writes (fun c => rank ds (shift os c))
          (fun c => dst.kind.written (f ((src.block h).elem ns (shift os c))))
          (box (clip ds os (clip ns os ss))))) := by
  have hle := clip_le hos hss
  have hvalid := isWhole_clip hos hss hlim
  have hold : ∀ c, InBox (clip ns os ss) c →
      src.kind.Holds ((src.block h).elem ns (shift os c)) :=
    fun c hc => hsrc.block.holds_elem ((inBox_clip_iff hos hss).mp hc).2
  let val := fun c => dst.kind.written (f ((src.block h).elem ns (shift os c)))
  let loaded := Block.filled src.kind t.shape ss (clip ns os ss) fun c =>
    (src.block h).elem ns (shift os c)
  let mapped := Block.filled src.kind t.shape ss (clip ns os ss) val
  have hval : ∀ c, InBox (clip ns os ss) c →
      src.kind.convert (f (loaded.elem ss c)) = .ok (val c) := by
    intro c hc
    rw [Block.elem_filled hle hc, hkind]
    exact hf.convert (hkind ▸ hold c hc)
  have hloaded : loaded.Sound ss := Block.sound_filled hs hlt hold
  have hmapped : mapped.Sound ss :=
    Block.sound_filled hs hlt fun c hc => Kind.holds_of_convert (hval c hc)
  have hload := Buffer.load_eq hsrc ho hos hs hss hlim hlt
  have hmap := Buffer.map_eq (h := h.pushCells loaded.cells)
    (b := ⟨⟨src.kind, t.shape, h.storages.size⟩, whole (clip ns os ss)⟩)
    (Tensor.block_allocated loaded h) hloaded hvalid hle hval
  have hstore :=
    Buffer.store_eq (h := (h.pushCells loaded.cells).pushCells mapped.cells)
    (b := ⟨⟨src.kind, t.shape, (h.pushCells loaded.cells).storages.size⟩,
      whole (clip ns os ss)⟩)
    ((hdst.pushCells loaded.cells).pushCells mapped.cells) ho (by omega)
    (Tensor.block_allocated mapped (h.pushCells loaded.cells)) hmapped
      (by omega) hkind hvalid hle
    (Nat.ne_of_gt (hdst.pushCells loaded.cells).allocated)
  refine ⟨loaded.cells, mapped.cells, ?_⟩
  have hwrites : ∀ c ∈ box (clip ds os (clip ns os ss)),
      mapped.elem ss c = val c := by
    intro c hc
    have hvs : (clip ns os ss).length = ds.length := by
      rw [length_clip hos hss, hds]
    exact Block.elem_filled hle
      ((inBox_clip_iff (by omega) hvs).mp (mem_box.mp hc)).1
  rw [writes_congr hwrites] at hstore
  unfold elementwise
  rw [bind_of_ok hload, bind_of_ok hmap]
  exact bind_of_ok hstore _

/-- **One tile of the kernel.** It stores, for each coordinate of the tile that
lies inside both arrays, the function of what the source holds there, and leaves
all other arrays as they are. -/
theorem elementwise_spec (hsrc : src.Sound h ns) (hdst : dst.Sound h ds)
    (hkind : src.kind = dst.kind) (hf : dst.kind.Takes f) {t : Tile}
    (ho : IsWhole t.offset os) (hs : t.shape.IsWhole ss)
    (hos : os.length = ns.length) (hss : ss.length = ns.length)
    (hds : ds.length = ns.length) (hlim : ∀ s ∈ ss, s ≤ Number.safeLimit)
    (hlt : ss.prod < Number.safeLimit) :
    ∃ h', elementwise src dst f t h = .ok .finished h' ∧
      dst.block h' = (dst.block h).stored ds os (clip ds os (clip ns os ss))
        (fun c => dst.kind.written (f ((src.block h).elem ns (shift os c)))) ∧
      h.storages.size ≤ h'.storages.size ∧
      ∀ u : Tensor, u.storage < h.storages.size → u.storage ≠ dst.storage →
        u.block h' = u.block h := by
  obtain ⟨loaded, mapped, hrun⟩ :=
    elementwise_eq hsrc hdst hkind hf ho hs hos hss hds hlim hlt
  have hpushed := (hdst.pushCells loaded).pushCells mapped
  have hsize : ∀ storage, storage < h.storages.size →
      storage < (h.pushCells loaded).storages.size := by
    intro storage hlt
    simp only [Host.pushCells, Array.size_push]
    omega
  have hsame : ∀ u : Tensor, u.storage < h.storages.size →
      u.block ((h.pushCells loaded).pushCells mapped) = u.block h := by
    intro u hu
    rw [Tensor.block_pushCells (hsize _ hu), Tensor.block_pushCells hu]
  refine ⟨_, hrun, ?_, ?_, ?_⟩
  · rw [Tensor.block_updateCells hpushed.allocated, hsame dst hdst.allocated]
    rfl
  · simp only [Host.updateCells, Host.pushCells, Array.size_modify,
      Array.size_push]
    omega
  · intro u hu hne
    rw [Tensor.block_updateCells_of_ne hne, hsame u hu]

/-! ## Along a run -/

/-- How far a run has come: the coordinates that are `done` hold the function of
what the source held at the start, the others what they held, and the source
still has what is to be read. -/
structure Progress (src dst : Tensor) (f : Element → Element) (ns ds : List Nat)
    (h₀ h : Host ν) (done : List Nat → Prop) : Prop where
  src_sound : src.Sound h ns
  dst_sound : dst.Sound h ds
  written : ∀ x, InBox ds x → InBox ns x → done x →
    (dst.block h).elem ds x = dst.kind.written (f ((src.block h₀).elem ns x))
  kept : ∀ x, InBox ds x → ¬ (InBox ns x ∧ done x) →
    (dst.block h).elem ds x = (dst.block h₀).elem ds x
  source : ∀ x, InBox ns x → ¬ done x →
    (src.block h).elem ns x = (src.block h₀).elem ns x

theorem Progress.start (hsrc : src.Sound h ns) (hdst : dst.Sound h ds) :
    Progress src dst f ns ds h h fun _ => False where
  src_sound := hsrc
  dst_sound := hdst
  written := fun _ _ _ hdone => hdone.elim
  kept := fun _ _ _ => rfl
  source := fun _ _ _ => rfl

/-- Two tensors of one storage stand for one array, whose extents are
the same naturals. -/
theorem Sound.unique (ht : src.Sound h ns) (hu : src.Sound h ds) : ns = ds :=
  ht.block.shape.unique hu.block.shape

/-- What a tile touches: its own coordinates that both arrays have. -/
theorem inBox_clip_clip_iff (hos : os.length = ns.length)
    (hss : ss.length = ns.length) (hds : ds.length = ns.length) {c : List Nat} :
    InBox (clip ds os (clip ns os ss)) c ↔
      InBox ss c ∧ InBox ns (shift os c) ∧ InBox ds (shift os c) := by
  have hvs : (clip ns os ss).length = ds.length := by
    rw [length_clip hos hss, hds]
  rw [inBox_clip_iff (by omega) hvs, inBox_clip_iff hos hss, and_assoc]

section Tile

variable {b : Block} {val : List Nat → Element} (hb : b.Sound ds)
  (hos : os.length = ns.length)
  (hss : ss.length = ns.length) (hds : ds.length = ns.length)

include hos hss hds

include hb in
/-- The array holds what a tile stored. -/
theorem elem_stored_tile {c : List Nat} (hc : InBox ss c)
    (hn : InBox ns (shift os c)) (hd : InBox ds (shift os c)) :
    (b.stored ds os (clip ds os (clip ns os ss)) val).elem ds
      (shift os c) = val c := by
  have hlen : (clip ds os (clip ns os ss)).length = os.length := by
    rw [length_clip (by omega) (by rw [length_clip hos hss, hds])]
    omega
  exact hb.elem_stored hlen
    (fun c hc => ((inBox_clip_clip_iff hos hss hds).mp hc).2.2)
    ((inBox_clip_clip_iff hos hss hds).mpr ⟨hc, hn, hd⟩)

/-- Where the tile does not reach, the array is as it was. -/
theorem elem_stored_tile_of_not {x : List Nat} (hx : InBox ds x)
    (hout : ¬ (InBox ns x ∧ ∃ c, InBox ss c ∧ x = shift os c)) :
    (b.stored ds os (clip ds os (clip ns os ss)) val).elem ds x =
      b.elem ds x := by
  apply Block.elem_stored_of_forall_ne
    (fun c hc => ((inBox_clip_clip_iff hos hss hds).mp hc).2.2) hx
  rintro c hc rfl
  obtain ⟨hcs, hn, -⟩ := (inBox_clip_clip_iff hos hss hds).mp hc
  exact hout ⟨hn, c, hcs, rfl⟩

end Tile

/-- **One tile carries the run on**: what it covers is done after it, and
was not before. -/
theorem Progress.step {h₀ : Host ν} {done : List Nat → Prop}
    (hp : Progress src dst f ns ds h₀ h done) (hkind : src.kind = dst.kind)
    (hf : dst.kind.Takes f) (hshare : src = dst ∨ src.storage ≠ dst.storage)
    {t : Tile} (ho : IsWhole t.offset os) (hs : t.shape.IsWhole ss)
    (hos : os.length = ns.length) (hss : ss.length = ns.length)
    (hds : ds.length = ns.length) (hlim : ∀ s ∈ ss, s ≤ Number.safeLimit)
    (hlt : ss.prod < Number.safeLimit)
    (hfresh : ∀ c, InBox ss c → ¬ done (shift os c)) :
    ∃ h', elementwise src dst f t h = .ok .finished h' ∧
      Progress src dst f ns ds h₀ h' fun x => done x ∨ ∃ c,
        InBox ss c ∧ x = shift os c := by
  obtain ⟨h', hrun, hblock, hsize, hother⟩ :=
    elementwise_spec hp.src_sound hp.dst_sound hkind hf ho hs hos hss
      hds hlim hlt
  have hdst : dst.Sound h' ds := by
    refine ⟨hp.dst_sound.allocated.trans_le hsize, ?_⟩
    rw [hblock]
    apply hp.dst_sound.block.stored
    intro c hc
    have hn := ((inBox_clip_clip_iff hos hss hds).mp hc).2.1
    exact Kind.holds_of_convert
      (hf.convert (hkind ▸ hp.src_sound.block.holds_elem hn))
  have hsame : ∀ x, InBox ds x →
      ¬ (InBox ns x ∧ ∃ c, InBox ss c ∧ x = shift os c) →
      (dst.block h').elem ds x = (dst.block h).elem ds x := by
    intro x hx hout
    rw [hblock, elem_stored_tile_of_not hos hss hds hx hout]
  refine ⟨h', hrun, ?_, hdst, ?_, ?_, ?_⟩
  · rcases hshare with rfl | hne
    · rw [hp.src_sound.unique hp.dst_sound]
      exact hdst
    · exact hp.src_sound.of_block_eq hsize
        (hother src hp.src_sound.allocated hne)
  · rintro x hxd hxn (hdone | ⟨c, hc, rfl⟩)
    · have hout : ¬ (InBox ns x ∧ ∃ c, InBox ss c ∧ x = shift os c) := by
        rintro ⟨-, c, hc, rfl⟩
        exact hfresh c hc hdone
      rw [hsame x hxd hout]
      exact hp.written x hxd hxn hdone
    · -- what is stored is the function of what the source held at the start
      rw [hblock, elem_stored_tile hp.dst_sound.block hos hss hds hc hxn hxd,
        hp.source _ hxn (hfresh c hc)]
  · intro x hxd hout
    rw [hsame x hxd fun hx => hout ⟨hx.1, .inr hx.2⟩]
    exact hp.kept x hxd fun hx => hout ⟨hx.1, .inl hx.2⟩
  · intro x hxn hout
    rw [← hp.source x hxn fun hx => hout (.inl hx)]
    rcases hshare with rfl | hne
    · -- in place: what the tile wrote is not what is asked for
      obtain rfl := hp.src_sound.unique hp.dst_sound
      exact hsame x hxn fun hx => hout (.inr hx.2)
    · rw [hother src hp.src_sound.allocated hne]

theorem Progress.congr {h₀ h' : Host ν} {done : List Nat → Prop}
    (hp : Progress src dst f ns ds h₀ h done)
    (hsame : h.storages = h'.storages) :
    Progress src dst f ns ds h₀ h' done := by
  have hblock := Tensor.block_congr hsame
  refine ⟨hp.src_sound.congr hsame, hp.dst_sound.congr hsame, ?_, ?_, ?_⟩
  · rw [hblock]
    exact hp.written
  · rw [hblock]
    exact hp.kept
  · rw [hblock]
    exact hp.source

/-- The coordinates whose tile is among the first `k`. -/
def doneTiles (gs ts : List Nat) (k : Nat) (x : List Nat) : Prop :=
  InBox gs x ∧ rank (Tiling.counts gs ts) (Tiling.quotient ts x) < k

section

variable {l : Launch} {gs ts : List Nat} (hl : l.Splits gs ts)

include hl

theorem doneTiles_succ {k : Nat} (hk : k < (Tiling.counts gs ts).prod)
    (x : List Nat) :
    (doneTiles gs ts k x ∨
      ∃ c, InBox (Tiling.extent gs ts (coordinate (Tiling.counts gs ts) k)) c ∧
        x = shift (Tiling.offset ts (coordinate (Tiling.counts gs ts) k)) c) ↔
      doneTiles gs ts (k + 1) x := by
  have his := Tiling.length_of_inBox_counts hl.rank_eq (inBox_coordinate hk)
  rw [Tiling.mem_tile_iff hl.rank_eq hl.tile_pos his, doneTiles, doneTiles,
    ← and_or_left]
  refine and_congr_right fun hx => ?_
  have hquot := Tiling.inBox_quotient hl.rank_eq hl.domain_pos hl.tile_pos hx
  have heq : coordinate (Tiling.counts gs ts) k = Tiling.quotient ts x ↔
      rank (Tiling.counts gs ts) (Tiling.quotient ts x) = k := by
    constructor
    · intro h
      rw [← h, rank_coordinate hk]
    · intro h
      rw [← h, coordinate_rank hquot]
  rw [heq]
  omega

theorem not_doneTiles {k : Nat} (hk : k < (Tiling.counts gs ts).prod)
    {c : List Nat}
    (hc : InBox (Tiling.extent gs ts (coordinate (Tiling.counts gs ts) k)) c) :
    ¬ doneTiles gs ts k
      (shift (Tiling.offset ts (coordinate (Tiling.counts gs ts) k)) c) := by
  have his := Tiling.length_of_inBox_counts hl.rank_eq (inBox_coordinate hk)
  obtain ⟨-, hquot⟩ := (Tiling.mem_tile_iff hl.rank_eq hl.tile_pos his).mp
    ⟨c, hc, rfl⟩
  rintro ⟨-, hlt⟩
  rw [← hquot, rank_coordinate hk] at hlt
  exact Nat.lt_irrefl k hlt

theorem doneTiles_all (x : List Nat) :
    doneTiles gs ts (Tiling.counts gs ts).prod x ↔ InBox gs x := by
  constructor
  · exact fun h => h.1
  · intro hx
    exact ⟨hx,
      rank_lt (Tiling.inBox_quotient hl.rank_eq hl.domain_pos hl.tile_pos hx)⟩

theorem Progress.tile (hg : ∀ g ∈ gs, g ≤ Number.safeLimit)
    (htile : ts.prod < Number.safeLimit) (hkind : src.kind = dst.kind)
    (hshare : src = dst ∨ src.storage ≠ dst.storage)
    (hns : ns.length = gs.length) (hds : ds.length = gs.length)
    (hf : dst.kind.Takes f) {k : Nat} {t : Tile}
    (ht : (l.exactTiles gs ts)[k]? = some t) {h₀ : Host ν}
    (hp : Progress src dst f ns ds h₀ h (doneTiles gs ts k)) :
    ∃ h', elementwise src dst f t h = .ok .finished h' ∧
      Progress src dst f ns ds h₀ h' (doneTiles gs ts (k + 1)) := by
  obtain ⟨hk, rfl⟩ := Launch.getElem?_exactTiles.mp ht
  have hin := inBox_coordinate hk
  have his := Tiling.length_of_inBox_counts hl.rank_eq hin
  have hrank := hl.rank_eq
  have hoff := Tiling.length_offset his
  have hext := Tiling.length_extent hrank his
  obtain ⟨-, ho, hs⟩ := hl.exactTile_isWhole hg hin
  have hle := Tiling.extent_le hrank his
  have hlt := (prod_le_prod hle).trans_lt htile
  have hlim := forall_le_of_le hle fun t ht =>
    (le_prod_of_mem (prod_pos_iff.mpr hl.tile_pos) t ht).trans
      (Nat.le_of_lt htile)
  obtain ⟨h', hrun, hnext⟩ :=
    hp.step hkind hf hshare ho hs (by omega) (by omega) (by omega) hlim hlt
    fun c hc => not_doneTiles hl hk hc
  refine ⟨h', hrun, ?_⟩
  have hdone := funext fun x => propext (doneTiles_succ hl hk x)
  rw [hdone] at hnext
  exact hnext

end

/-- **The kernel over all tiles of a launch.** -/
theorem run_elementwise {l : Launch} (hl : l.check = .ok ())
    (hg : ∀ g ∈ l.domain, g.le (.ofNat Number.safeLimit) = true)
    (htile : l.tileNats.prod < Number.safeLimit) {id : Nat}
    (hidle : (h.driver id).phase = .idle) (hsrc : src.Sound h ns)
    (hdst : dst.Sound h ds) (hkind : src.kind = dst.kind)
    (hshare : src = dst ∨ src.storage ≠ dst.storage)
    (hns : ns.length = l.domain.length) (hds : ds.length = l.domain.length)
    (hf : dst.kind.Takes f) :
    ∃ h', Host.run id l (elementwise src dst f) h = .ok () h' ∧
      Progress src dst f ns ds h h' (InBox l.domainNats) := by
  have hs := Launch.splits_of_check hl
  have hdomain := hs.domain.length_eq
  have hstart : Progress src dst f ns ds h h
      (doneTiles l.domainNats l.tileNats 0) := by
    have hnone : doneTiles l.domainNats l.tileNats 0 = fun _ => False := by
      funext x
      simp [doneTiles]
    rw [hnone]
    exact Progress.start hsrc hdst
  obtain ⟨h', hrun, hlast⟩ := Host.run_invariant hl hg hidle
    (fun k h' =>
      Progress src dst f ns ds h h' (doneTiles l.domainNats l.tileNats k))
    (fun k h₁ h₂ hsame _ hp => Progress.congr hp hsame)
    (fun k t ht h₁ hp =>
      hp.tile hs (Launch.domainNats_le hl hg) htile hkind hshare (by omega)
      (by omega) hf ht) hstart
  refine ⟨h', hrun, ?_⟩
  have hall : doneTiles l.domainNats l.tileNats l.tiles.length =
      InBox l.domainNats := by
    funext x
    rw [l.length_tiles]
    exact propext (doneTiles_all hs x)
  rw [hall] at hlast
  exact hlast

/-- **A tiled elementwise kernel equals the untiled one.** There is one array
that the destination ends as, whatever the extents of the tiles: at the
coordinates of the space that both arrays have it holds the function of what the
source held, and elsewhere what the destination held. The source may be the
destination itself. -/
theorem elementwise_any_tiles (domain : Shape) (hsrc : src.Sound h ns)
    (hdst : dst.Sound h ds) (hkind : src.kind = dst.kind)
    (hshare : src = dst ∨ src.storage ≠ dst.storage)
    (hns : src.shape.length = domain.length)
    (hds : dst.shape.length = domain.length) (hf : dst.kind.Takes f) :
    ∃ b : Block,
      (∀ x, InBox ds x → InBox ns x ∧ InBox (domain.map Number.toNat) x →
        ∃ e r, (src.block h).get (whole x) = .ok e ∧
          dst.kind.convert (f e) = .ok r ∧ b.get (whole x) = .ok r) ∧
      (∀ x, InBox ds x → ¬ (InBox ns x ∧ InBox (domain.map Number.toNat) x) →
        b.get (whole x) = (dst.block h).get (whole x)) ∧
      ∀ (l : Launch) (id : Nat), l.domain = domain → l.check = .ok () →
        (∀ g ∈ domain, g.le (.ofNat Number.safeLimit) = true) →
        l.tileNats.prod < Number.safeLimit → (h.driver id).phase = .idle →
        ∃ h', Host.run id l (elementwise src dst f) h = .ok () h' ∧
          dst.block h' = b := by
  let val := fun x =>
    if InBox ns x ∧ InBox (domain.map Number.toNat) x then
      dst.kind.written (f ((src.block h).elem ns x))
    else (dst.block h).elem ds x
  have hwritten : ∀ x, InBox ns x →
      dst.kind.convert (f ((src.block h).elem ns x)) =
      .ok (dst.kind.written (f ((src.block h).elem ns x))) :=
    fun x hx => hf.convert (hkind ▸ hsrc.block.holds_elem hx)
  have hb : ((dst.block h).tabulate ds val).Sound ds := by
    apply hdst.block.tabulate
    intro x hx
    show dst.kind.Holds (if _ then _ else _)
    split
    · rename_i hin
      exact Kind.holds_of_convert (hwritten x hin.1)
    · exact hdst.block.holds_elem hx
  have hget : ∀ x, InBox ds x →
      ((dst.block h).tabulate ds val).get (whole x) = .ok (val x) := by
    intro x hx
    rw [hb.get_eq (isWhole_whole_of_inBox hx (Nat.le_of_lt hb.bound)) hx,
      Block.elem_tabulate hx]
  refine ⟨(dst.block h).tabulate ds val, ?_, ?_, ?_⟩
  · rintro x hxd ⟨hxn, hxg⟩
    refine ⟨(src.block h).elem ns x, _, ?_, hwritten x hxn, ?_⟩
    · exact hsrc.block.get_eq
        (isWhole_whole_of_inBox hxn (Nat.le_of_lt hsrc.block.bound)) hxn
    · rw [hget x hxd]
      simp only [val, if_pos (And.intro hxn hxg)]
  · intro x hxd hout
    rw [hget x hxd,
      hdst.block.get_eq
        (isWhole_whole_of_inBox hxd (Nat.le_of_lt hdst.block.bound)) hxd]
    simp only [val, if_neg hout]
  · rintro l id rfl hl hg htile hidle
    have hnsl : ns.length = l.domain.length :=
      hsrc.block.shape.length_eq.symm.trans hns
    have hdsl : ds.length = l.domain.length :=
      hdst.block.shape.length_eq.symm.trans hds
    obtain ⟨h', hrun, hp⟩ :=
      run_elementwise hl hg htile hidle hsrc hdst hkind hshare hnsl hdsl hf
    refine ⟨h', hrun, hp.dst_sound.block.ext hb rfl rfl fun x hx => ?_⟩
    rw [Block.elem_tabulate hx]
    show _ = if _ then _ else _
    split
    · rename_i hin
      exact hp.written x hx hin.1 hin.2
    · rename_i hout
      exact hp.kept x hx hout

/-- A space of four columns over arrays of three and of five, in tiles of
three and of one. -/
theorem elementwise_any_tiles_ragged :
    let src : Tensor := ⟨.u8, whole [3], 0⟩
    let dst : Tensor := ⟨.u8, whole [5], 1⟩
    let f : Element → Element := fun _ => .number (.ofNat 300)
    let h : Host Unit :=
      ((Host.empty .empty ()).pushCells
        (Array.replicate 3 (.number 0))).pushCells
        (Array.replicate 5 (.number 0))
    src.Sound h [3] ∧ dst.Sound h [5] ∧ dst.kind.Takes f ∧
    ∃ b : Block,
      (∀ x, InBox [5] x → InBox [3] x ∧ InBox ((whole [4]).map Number.toNat) x →
        ∃ e r, (src.block h).get (whole x) = .ok e ∧
          dst.kind.convert (f e) = .ok r ∧ b.get (whole x) = .ok r) ∧
      (∃ h', Host.run 0 ⟨whole [4], whole [3]⟩ (elementwise src dst f) h =
        .ok () h' ∧ dst.block h' = b) ∧
      ∃ h', Host.run 0 ⟨whole [4], whole [1]⟩ (elementwise src dst f) h =
        .ok () h' ∧ dst.block h' = b := by
  intro src dst f h
  have hextent : ∀ n ≤ 5, (whole [n]).IsWhole [n] := fun n hn =>
    isWhole_whole (by simpa using hn.trans (by decide))
  have hsrc : src.Sound h [3] := by
    have hzeros := Block.sound_zeros (hextent 3 (by decide)) (by decide) .u8
    exact (sound_allocated hzeros (Host.empty .empty ())).pushCells _
  have hdst : dst.Sound h [5] := by
    have hzeros := Block.sound_zeros (hextent 5 (by decide)) (by decide) .u8
    exact sound_allocated hzeros
      ((Host.empty .empty ()).pushCells (Array.replicate 3 (.number 0)))
  have hf : dst.kind.Takes f := fun e _ => ⟨_, rfl⟩
  have hgs : ∀ g ∈ [4], 0 < g ∧ g ≤ Number.safeLimit := by decide
  have hrun : ∀ t ∈ [3, 1], Launch.Splits ⟨whole [4], whole [t]⟩ [4] [t] := by
    intro t ht
    refine Launch.splits_whole rfl hgs ?_
    simp only [List.mem_cons, List.not_mem_nil, or_false] at ht
    rcases ht with rfl | rfl <;> decide
  refine ⟨hsrc, hdst, hf, ?_⟩
  have hrank : src.shape.length = (whole [4]).length ∧
      dst.shape.length = (whole [4]).length := by
    simp [src, dst]
  obtain ⟨b, hin, -, hall⟩ :=
    elementwise_any_tiles (whole [4]) hsrc hdst rfl (.inr (by decide))
    hrank.1 hrank.2 hf
  have htiles : ∀ t ∈ [3, 1], ∃ h',
      Host.run 0 ⟨whole [4], whole [t]⟩ (elementwise src dst f) h = .ok () h' ∧
        dst.block h' = b := by
    intro t ht
    have hs := hrun t ht
    refine hall ⟨whole [4], whole [t]⟩ 0 rfl ?_
      (Launch.whole_le_safeLimit hgs) ?_ rfl
    · exact Launch.check_iff.mpr ⟨_, _, hs, by decide, by decide⟩
    · rw [hs.tileNats]
      simp only [List.mem_cons, List.not_mem_nil, or_false] at ht
      rcases ht with rfl | rfl <;> decide
  exact ⟨b, hin, htiles 3 (by decide), htiles 1 (by decide)⟩

end Tensor

end TileGrid
