import TileGrid.Proofs.Transfer
import TileGrid.Proofs.Partition

/-!
# The order of stores does not matter

A buffer that is stored to its own tile writes no cell that a store to another
tile writes, wherever the array ends and whatever part of the buffer is valid.
So the stores of all tiles of a launch may be made in any order.
-/

namespace TileGrid

open RowMajor Shape

variable {ν : Type}

/-! ## Writes to different cells -/

section Writes

variable {place place' : List Nat → Nat} {val val' : List Nat → Element}

theorem writes_setIfInBounds {cs : List (List Nat)} {p : Nat}
    (hne : ∀ c ∈ cs, place c ≠ p) (e : Element) (cells : Array Element) :
    writes place val cs (cells.setIfInBounds p e) =
      (writes place val cs cells).setIfInBounds p e := by
  induction cs generalizing cells with
  | nil => rfl
  | cons c cs ih =>
      obtain ⟨hc, hne⟩ := List.forall_mem_cons.mp hne
      rw [writes_cons, writes_cons,
        Array.setIfInBounds_comm _ _ hc.symm, ih hne]

/-- Two rounds of writes that have no cell in common can be made in
either order. -/
theorem writes_writes_comm {cs cs' : List (List Nat)}
    (hne : ∀ c ∈ cs, ∀ c' ∈ cs', place c ≠ place' c') (cells : Array Element) :
    writes place val cs (writes place' val' cs' cells) =
      writes place' val' cs' (writes place val cs cells) := by
  induction cs generalizing cells with
  | nil => rfl
  | cons c cs ih =>
      obtain ⟨hc, hne⟩ := List.forall_mem_cons.mp hne
      have hfirst :
          writes place' val' cs' (cells.setIfInBounds (place c) (val c)) =
          (writes place' val' cs' cells).setIfInBounds (place c) (val c) :=
        writes_setIfInBounds (fun c' hc' => (hc c' hc').symm) (val c) cells
      rw [writes_cons, writes_cons, ← hfirst, ih hne]

end Writes

/-! ## Buffers for tiles -/

/-- A buffer on sound storage whose valid box fits its shape. -/
structure Buffer.Sound (b : Buffer) (h : Host ν) (ss vs : List Nat) : Prop where
  values : b.values.Sound h ss
  valid : b.valid.IsWhole vs
  fits : List.Forall₂ (· ≤ ·) vs ss

/-- A buffer that can be stored to the tile of an array: of its kind, on other
storage, and no larger than the tile. Any leading box of it may be valid. -/
structure Buffer.FitsTile (b : Buffer) (h : Host ν) (dst : Tensor)
    (t : Tile) : Prop where
  sound : ∃ ss vs, b.Sound h ss vs
  kind : b.values.kind = dst.kind
  apart : b.values.storage ≠ dst.storage
  rank_eq : b.values.shape.length = t.shape.length
  within : ∀ d < t.shape.length, natAt b.values.shape d ≤ natAt t.shape d

namespace Tensor

/-- Stores the buffer of each tile at the place of the tile, one tile
after the other. -/
def storeTiles (dst : Tensor) (buffer : Tile → Buffer)
    (ts : List Tile) : Act ν Unit :=
  ts.forM fun t => Buffer.store ⟨dst.backing, t.offset⟩ (buffer t)

/-- What the store of a buffer to a tile does to the cells of an array
of extents `ns`. -/
def tileWrites (ns : List Nat) (h : Host ν) (b : Buffer) (t : Tile) :
    Array Element → Array Element :=
  let os := t.offset.map Number.toNat
  writes (fun c => rank ns (shift os c))
    ((b.values.block h).elem (b.values.shape.map Number.toNat))
    (box (clip ns os (b.valid.map Number.toNat)))

variable {h : Host ν} {dst : Tensor} {ns : List Nat} {l : Launch}
  {gs ts : List Nat}

section Tile

variable (hs : l.Splits gs ts) (hg : ∀ g ∈ gs, g ≤ Number.safeLimit)
  (hns : ns.length = gs.length)

include hs hg hns

/-- Where a store to a tile writes: inside the array, at a
coordinate of the tile. -/
theorem mem_tileWrites {b : Buffer} {is : List Nat}
    (hin : InBox (Tiling.counts gs ts) is)
    (hb : b.FitsTile h dst (l.exactTile gs ts is)) {c : List Nat}
    (hc : c ∈ box (clip ns ((l.exactTile gs ts is).offset.map Number.toNat)
      (b.valid.map Number.toNat))) :
    InBox ns (shift (Tiling.offset ts is) c) ∧
      InBox gs (shift (Tiling.offset ts is) c) ∧
      is = Tiling.quotient ts (shift (Tiling.offset ts is) c) := by
  have hrank := hs.rank_eq
  have his := Tiling.length_of_inBox_counts hrank hin
  have hlen := Tiling.length_offset his
  obtain ⟨-, hoff, hext⟩ := hs.exactTile_isWhole hg hin
  obtain ⟨ss, vs, hsound⟩ := hb.sound
  have hshape : b.values.shape.IsWhole ss := hsound.values.block.shape
  have hss : ss.length = (Tiling.extent gs ts is).length := by
    rw [← hshape.length_eq, hb.rank_eq, hext.length_eq]
  have hextlen := Tiling.length_extent hrank his
  -- the buffer is no larger than the tile, and what is valid no larger
  -- than the buffer
  have hwithin : List.Forall₂ (· ≤ ·) ss (Tiling.extent gs ts is) := by
    rw [List.forall₂_iff_get]
    refine ⟨hss, fun d hd hd' => ?_⟩
    have hle := hb.within d (by rw [hext.length_eq]; exact hd')
    rw [hshape.natAt, hext.natAt, List.getD_eq_getElem _ _ hd,
      List.getD_eq_getElem _ _ hd'] at hle
    exact hle
  have hvs := hsound.fits.length_eq
  rw [hoff.map_toNat, hsound.valid.map_toNat, mem_box,
    inBox_clip_iff (by omega) (by omega)] at hc
  have htile := inBox_of_le (inBox_of_le hc.1 hsound.fits) hwithin
  exact ⟨hc.2, (Tiling.mem_tile_iff hrank hs.tile_pos his).mp ⟨c, htile, rfl⟩⟩

/-- **Stores to different tiles write different cells**, so either
may come first. -/
theorem tileWrites_comm {buffer : Tile → Buffer} {t u : Tile}
    (ht : t ∈ l.exactTiles gs ts) (hu : u ∈ l.exactTiles gs ts)
    (hbt : (buffer t).FitsTile h dst t) (hbu : (buffer u).FitsTile h dst u)
    (cells : Array Element) :
    tileWrites ns h (buffer u) u (tileWrites ns h (buffer t) t cells) =
      tileWrites ns h (buffer t) t (tileWrites ns h (buffer u) u cells) := by
  by_cases heq : t = u
  · rw [heq]
  obtain ⟨is, hi, rfl⟩ := Launch.exists_of_mem_exactTiles ht
  obtain ⟨js, hj, rfl⟩ := Launch.exists_of_mem_exactTiles hu
  apply writes_writes_comm
  intro c hc c' hc' hplace
  obtain ⟨hcn, -, hquot⟩ := mem_tileWrites hs hg hns hj hbu hc
  obtain ⟨hcn', -, hquot'⟩ := mem_tileWrites hs hg hns hi hbt hc'
  obtain ⟨-, hoff, -⟩ := hs.exactTile_isWhole hg hi
  obtain ⟨-, hoff', -⟩ := hs.exactTile_isWhole hg hj
  rw [hoff.map_toNat, hoff'.map_toNat] at hplace
  -- one cell is one coordinate, and a coordinate lies in one tile only
  have hsame := rank_injective hcn hcn' hplace
  apply heq
  rw [hquot, hquot', hsame]

end Tile

/-! ## Stores one after the other -/

/-- The store to one tile, from a state in which only the array's own
cells have changed. -/
theorem store_tile {b : Buffer} {t : Tile} {os : List Nat}
    (ho : IsWhole t.offset os) (hos : os.length = ns.length)
    (hrank : t.shape.length = ns.length) (hb : b.FitsTile h dst t)
    {f : Array Element → Array Element}
    (hdst : dst.Sound (h.updateCells dst.storage f) ns) :
    Buffer.store ⟨dst.backing, t.offset⟩ b (h.updateCells dst.storage f) =
        .ok () ((h.updateCells dst.storage f).updateCells dst.storage
          (tileWrites ns h b t)) ∧
      dst.Sound ((h.updateCells dst.storage f).updateCells dst.storage
        (tileWrites ns h b t)) ns := by
  obtain ⟨ss, vs, hsound⟩ := hb.sound
  have hblock := hsound.values.block
  have hshape : b.values.shape.IsWhole ss := hblock.shape
  have hss : ss.length = ns.length := by
    rw [← hshape.length_eq, hb.rank_eq, hrank]
  have hvs := hsound.fits.length_eq
  have hsame : b.values.block (h.updateCells dst.storage f) =
      b.values.block h :=
    block_updateCells_of_ne hb.apart f
  have hstore := Buffer.store_eq hdst ho hos hsame hblock hss hb.kind
    hsound.valid hsound.fits
    hb.apart
  have hwrites : tileWrites ns h b t = writes (fun c => rank ns (shift os c))
      ((b.values.block h).elem ss) (box (clip ns os vs)) := by
    simp only [tileWrites, ho.map_toNat, hshape.map_toNat,
      hsound.valid.map_toNat]
  rw [hwrites]
  refine ⟨hstore, hdst.updateCells (hdst.block.withWrites fun c hc => ?_)⟩
  -- what is written was held by a buffer of the same kind
  have hc' := ((inBox_clip_iff hos (by omega)).mp (mem_box.mp hc)).1
  have hholds := hblock.holds_elem (inBox_of_le hc' hsound.fits)
  have hkind : (b.values.block h).kind = dst.kind := hb.kind
  rwa [hkind] at hholds

/-- The stores of a list of tiles, as one change of the array's cells. -/
theorem storeTiles_eq (hs : l.Splits gs ts)
    (hg : ∀ g ∈ gs, g ≤ Number.safeLimit) (hns : ns.length = gs.length)
    {buffer : Tile → Buffer} (us : List Tile)
    (hmem : ∀ t ∈ us, t ∈ l.exactTiles gs ts)
    (hb : ∀ t ∈ us, (buffer t).FitsTile h dst t)
    {f : Array Element → Array Element}
    (hdst : dst.Sound (h.updateCells dst.storage f) ns) :
    storeTiles dst buffer us (h.updateCells dst.storage f) =
      .ok () (h.updateCells dst.storage fun cells =>
        us.foldl (fun cells t => tileWrites ns h (buffer t) t cells)
          (f cells)) := by
  induction us generalizing f with
  | nil => rfl
  | cons t us ih =>
      obtain ⟨hfirst, hothers⟩ := List.forall_mem_cons.mp hmem
      obtain ⟨hbt, hbs⟩ := List.forall_mem_cons.mp hb
      obtain ⟨is, hin, rfl⟩ := Launch.exists_of_mem_exactTiles hfirst
      have hrank := hs.rank_eq
      have his := Tiling.length_of_inBox_counts hrank hin
      have hoff := Tiling.length_offset his
      have hextlen := Tiling.length_extent hrank his
      obtain ⟨-, ho, hext⟩ := hs.exactTile_isWhole hg hin
      obtain ⟨hstore, hnext⟩ :=
        store_tile ho (by omega) (by rw [hext.length_eq]; omega) hbt hdst
      rw [Host.updateCells_updateCells] at hstore hnext
      have hrest := ih hothers hbs hnext
      show (Buffer.store _ (buffer _) >>= fun _ =>
          storeTiles dst buffer us) _ = _
      rw [bind_of_ok hstore]
      exact hrest

/-- **Tiles may be stored in any order.** Storing a buffer for each tile of a
launch, no larger than the tile, succeeds in every order of the tiles, and
leaves the same state as the row-major one. -/
theorem storeTiles_any_order (hl : l.check = .ok ())
    (hg : ∀ g ∈ l.domain, g.le (.ofNat Number.safeLimit) = true)
    (hdst : dst.Sound h ns) (hrank : dst.shape.length = l.domain.length)
    {buffer : Tile → Buffer} (hb : ∀ t ∈ l.tiles, (buffer t).FitsTile h dst t)
    {us : List Tile} (hperm : us.Perm l.tiles) :
    ∃ h', storeTiles dst buffer us h = .ok () h' ∧
      storeTiles dst buffer l.tiles h = .ok () h' := by
  have hs := Launch.splits_of_check hl
  have hle := Launch.domainNats_le hl hg
  have hns : ns.length = l.domainNats.length := by
    have hshape : dst.shape.IsWhole ns := hdst.block.shape
    rw [← hshape.length_eq, hrank, hs.domain.length_eq]
  have hstart : dst.Sound (h.updateCells dst.storage id) ns := by
    rw [Host.updateCells_id]
    exact hdst
  have hmem : ∀ t ∈ us, t ∈ l.tiles := fun t ht => hperm.mem_iff.mp ht
  have hany :=
    storeTiles_eq hs hle hns us hmem (fun t ht => hb t (hmem t ht)) hstart
  have hrow := storeTiles_eq hs hle hns l.tiles (fun _ ht => ht) hb hstart
  rw [Host.updateCells_id] at hany hrow
  have hsame : ∀ cells : Array Element,
      us.foldl (fun cells t => tileWrites ns h (buffer t) t cells) cells =
        l.tiles.foldl
          (fun cells t => tileWrites ns h (buffer t) t cells) cells := by
    intro cells
    apply hperm.foldl_eq'
    intro t ht u hu cells
    have ht := hmem t ht
    have hu := hmem u hu
    exact tileWrites_comm hs hle hns ht hu (hb t ht) (hb u hu) cells
  simp only [hsame] at hany
  exact ⟨_, hany, hrow⟩

/-- Three tiles over an array that ends before the last of them, stored from the
last to the first. -/
theorem storeTiles_any_order_reversed :
    let l : Launch := ⟨whole [5], whole [2]⟩
    let dst : Tensor := ⟨.u8, whole [4], 0⟩
    let buffer : Tile → Buffer := fun _ => ⟨⟨.u8, whole [1], 1⟩, whole [1]⟩
    let h : Host Unit :=
      ((Host.empty .empty ()).pushCells
        (Array.replicate 4 (.number 0))).pushCells
        (Array.replicate 1 (.number 0))
    l.check = .ok () ∧ dst.Sound h [4] ∧
    (∀ t ∈ l.tiles, (buffer t).FitsTile h dst t) ∧
    l.tiles.reverse.Perm l.tiles ∧
    ∃ h', storeTiles dst buffer l.tiles.reverse h = .ok () h' ∧
      storeTiles dst buffer l.tiles h = .ok () h' := by
  intro l dst buffer h
  have hgs : ∀ g ∈ [5], 0 < g ∧ g ≤ Number.safeLimit := by decide
  have hs : l.Splits [5] [2] := Launch.splits_whole rfl hgs (by decide)
  have hl : l.check = .ok () :=
    Launch.check_iff.mpr ⟨_, _, hs, by decide, by decide⟩
  have hextent : ∀ n ≤ 4, (whole [n]).IsWhole [n] := fun n hn =>
    isWhole_whole (by simpa using hn.trans (by decide))
  have hdst : dst.Sound h [4] := by
    have hzeros := Block.sound_zeros (hextent 4 (by decide)) (by decide) .u8
    exact (sound_allocated hzeros (Host.empty .empty ())).pushCells _
  have hvalues : Tensor.Sound ⟨.u8, whole [1], 1⟩ h [1] := by
    have hzeros := Block.sound_zeros (hextent 1 (by decide)) (by decide) .u8
    exact sound_allocated hzeros
      ((Host.empty .empty ()).pushCells (Array.replicate 4 (.number 0)))
  have hb : ∀ t ∈ l.tiles, (buffer t).FitsTile h dst t := by
    intro t ht
    have hparts := (Launch.splits_of_check hl).partitioned
      (Launch.domainNats_le hl (Launch.whole_le_safeLimit hgs))
    have hlen : t.shape.length = 1 := (hparts.whole t ht t.shape (by simp)).1
    refine ⟨⟨[1], [1], hvalues, hextent 1 (by decide), by simp⟩,
      rfl, by decide, ?_, ?_⟩
    · rw [hlen]
      rfl
    · intro d hd
      obtain rfl : d = 0 := by omega
      have hone : natAt (whole [1]) 0 = 1 := (hextent 1 (by decide)).natAt 0
      exact hone.le.trans (hparts.inside t ht 0 Nat.zero_lt_one).1
  have hrank : dst.shape.length = l.domain.length := by simp [dst, l]
  have hperm := List.reverse_perm l.tiles
  exact ⟨hl, hdst, hb, hperm,
    storeTiles_any_order hl (Launch.whole_le_safeLimit hgs) hdst hrank hb hperm⟩

end Tensor

end TileGrid
