import TileGrid.Proofs.RunFold

/-!
# The tiles of a run partition its iteration space

Every coordinate of the space lies in the box of exactly one tile that a run
hands to its body, the one whose index is the coordinate divided by the tile's
extents. The boxes are inside the space and none is empty; they fall short of
the nominal extents only at the end of a dimension that these do not divide.
-/

namespace TileGrid

open RowMajor Shape

/-! ## One dimension -/

namespace Tiling

/-- A tile that falls short is the last, and the extent is no multiple of
the nominal one. -/
theorem last_of_short {g t i : Nat} (hg : 0 < g) (ht : 0 < t)
    (hi : i < (g + t - 1) / t) (hshort : min t (g - i * t) < t) :
    (g + t - 1) / t = i + 1 ∧ ¬ t ∣ g := by
  have hlt := (lt_count_iff hg ht).mp hi
  have hroom : g < i * t + t := by omega
  constructor
  · apply le_antisymm
    · by_contra hmore
      have hnext := (lt_count_iff (i := i + 1) hg ht).mp (by omega)
      rw [Nat.succ_mul] at hnext
      omega
    · exact hi
  · rintro ⟨q, rfl⟩
    -- a multiple of `t` that is above `i * t` is at least `(i + 1) * t`
    have hqi : i < q := Nat.lt_of_mul_lt_mul_right (a := t)
      (by rwa [Nat.mul_comm q t])
    have hle := Nat.mul_le_mul_left t (Nat.succ_le_of_lt hqi)
    rw [Nat.mul_succ, Nat.mul_comm t i] at hle
    omega

/-- A place of the dimension lies in the tile of its quotient and in
no other. -/
theorem covers_iff_div {g t i x : Nat} (ht : 0 < t) (hx : x < g) :
    i * t ≤ x ∧ x < i * t + min t (g - i * t) ↔ i = x / t := by
  rw [eq_comm (a := i), Nat.div_eq_iff ht]
  omega

/-! ## All dimensions -/

/-- The index of the tile that a coordinate lies in. -/
def quotient (ts x : List Nat) : List Nat := List.zipWith (· / ·) x ts

section Components

variable {gs ts is x : List Nat} {d : Nat}

theorem length_offset (his : is.length = ts.length) :
    (offset ts is).length = ts.length := by
  simp [offset, his]

theorem length_extent (hlen : gs.length = ts.length)
    (his : is.length = ts.length) :
    (extent gs ts is).length = ts.length := by
  simp [extent, length_offset his, hlen]

theorem getD_counts (hlen : gs.length = ts.length) (hd : d < ts.length) :
    (counts gs ts).getD d 0 = (gs.getD d 0 + ts.getD d 0 - 1) / ts.getD d 0 :=
  getD_zipWith (by omega) hd

theorem getD_offset (his : is.length = ts.length) (hd : d < ts.length) :
    (offset ts is).getD d 0 = is.getD d 0 * ts.getD d 0 :=
  getD_zipWith (by omega) hd

theorem getD_extent (hlen : gs.length = ts.length) (his : is.length = ts.length)
    (hd : d < ts.length) :
    (extent gs ts is).getD d 0 =
      min (ts.getD d 0) (gs.getD d 0 - is.getD d 0 * ts.getD d 0) := by
  have hoff := length_offset his
  have hroom : (List.zipWith (fun o g => g - o) (offset ts is) gs).getD d 0 =
      gs.getD d 0 - (offset ts is).getD d 0 :=
    getD_zipWith (by omega) (by omega)
  rw [extent, getD_zipWith (by simp; omega) hd, hroom, getD_offset his hd]

theorem length_of_inBox_counts (hlen : gs.length = ts.length)
    (hin : InBox (counts gs ts) is) :
    is.length = ts.length := by
  rw [length_of_inBox hin, length_counts hlen, hlen]

/-- The index of a tile in one dimension. -/
theorem getD_lt_count (hlen : gs.length = ts.length)
    (hin : InBox (counts gs ts) is) (hd : d < ts.length) :
    is.getD d 0 < (gs.getD d 0 + ts.getD d 0 - 1) / ts.getD d 0 := by
  have hlt := (inBox_iff.mp hin).2 d (by rw [length_counts hlen]; omega)
  rwa [getD_counts hlen hd] at hlt

theorem inBox_quotient (hlen : gs.length = ts.length) (hgs : ∀ g ∈ gs, 0 < g)
    (hts : ∀ t ∈ ts, 0 < t) (hx : InBox gs x) :
    InBox (counts gs ts) (quotient ts x) := by
  have hxlen := length_of_inBox hx
  have hcounts := length_counts hlen
  apply inBox_iff.mpr
  refine ⟨by simp [quotient, hxlen, hcounts, hlen], fun d hd => ?_⟩
  have hg := getD_pos hgs (d := d) (by omega)
  have ht := getD_pos hts (d := d) (by omega)
  have hlt := (inBox_iff.mp hx).2 d (by omega)
  rw [getD_counts hlen (by omega), quotient, getD_zipWith (by omega) (by omega),
    lt_count_iff hg ht]
  exact (Nat.div_mul_le_self _ _).trans_lt hlt

/-- **A coordinate lies in the tile of its quotient and in no other.** -/
theorem covers_iff (hlen : gs.length = ts.length) (hts : ∀ t ∈ ts, 0 < t)
    (his : is.length = ts.length) (hx : InBox gs x) :
    (∀ d < ts.length, (offset ts is).getD d 0 ≤ x.getD d 0 ∧
      x.getD d 0 < (offset ts is).getD d 0 + (extent gs ts is).getD d 0) ↔
      is = quotient ts x := by
  have hxlen := length_of_inBox hx
  have hdim : ∀ d < ts.length, ((offset ts is).getD d 0 ≤ x.getD d 0 ∧
      x.getD d 0 < (offset ts is).getD d 0 + (extent gs ts is).getD d 0 ↔
        is.getD d 0 = (quotient ts x).getD d 0) := by
    intro d hd
    have hlt := (inBox_iff.mp hx).2 d (by omega)
    rw [getD_offset his hd, getD_extent hlen his hd, quotient,
      getD_zipWith (by omega) hd]
    exact covers_iff_div (getD_pos hts hd) hlt
  constructor
  · intro h
    apply ext_getD (by simp [quotient]; omega)
    exact fun d hd => (hdim d (by omega)).mp (h d (by omega))
  · rintro rfl d hd
    exact (hdim d hd).mpr rfl

theorem extent_le (hlen : gs.length = ts.length) (his : is.length = ts.length) :
    List.Forall₂ (· ≤ ·) (extent gs ts is) ts := by
  rw [List.forall₂_iff_get]
  refine ⟨length_extent hlen his, fun d hd hd' => ?_⟩
  simp [extent]

/-- The coordinates of a tile are those of the space whose quotient is
its index. -/
theorem mem_tile_iff (hlen : gs.length = ts.length) (hts : ∀ t ∈ ts, 0 < t)
    (his : is.length = ts.length) :
    (∃ c, InBox (extent gs ts is) c ∧ x = shift (offset ts is) c) ↔
      InBox gs x ∧ is = quotient ts x := by
  have hoff := length_offset his
  have hext := length_extent hlen his
  constructor
  · intro h
    have hxlen : x.length = (offset ts is).length := by
      obtain ⟨c, hc, rfl⟩ := h
      rw [length_shift (by rw [length_of_inBox hc, hext, hoff])]
    have hdim := (exists_shift_iff (by omega) hxlen).mp h
    have hin : InBox gs x := by
      refine inBox_iff.mpr ⟨by omega, fun d hd => ?_⟩
      have hd' := hdim d (by omega)
      rw [getD_offset his (by omega), getD_extent hlen his (by omega)] at hd'
      omega
    rw [hoff] at hdim
    exact ⟨hin, (covers_iff hlen hts his hin).mp hdim⟩
  · rintro ⟨hin, hquot⟩
    have hxlen := length_of_inBox hin
    apply (exists_shift_iff (by omega) (by omega)).mpr
    rw [hoff]
    exact (covers_iff hlen hts his hin).mpr hquot

end Components

end Tiling

/-! ## Partitions -/

/-- A component of a shape or a coordinate, as a natural. -/
def Shape.natAt (shape : Shape) (d : Nat) : Nat :=
  (shape.map Number.toNat).getD d 0

theorem Shape.IsWhole.natAt {shape : Shape} {ns : List Nat}
    (h : shape.IsWhole ns) (d : Nat) :
    shape.natAt d = ns.getD d 0 := by
  rw [Shape.natAt, h.map_toNat]

/-- The box of a tile holds a coordinate. -/
def Tile.Covers (t : Tile) (x : List Nat) : Prop :=
  ∀ d < x.length, natAt t.offset d ≤ x.getD d 0 ∧
    x.getD d 0 < natAt t.offset d + natAt t.shape d

/-- The tiles partition the iteration space of a launch. -/
structure Launch.Partitioned (l : Launch) (ts : List Tile) : Prop where
  /-- Where a tile lies is said in whole numbers, one for each dimension. -/
  whole : ∀ t ∈ ts, ∀ s ∈ [t.id, t.offset, t.shape],
    s.length = l.domain.length ∧ s.all Number.isExtent = true
  /-- No box is empty, larger than the nominal extents or partly
  outside the space. -/
  inside : ∀ t ∈ ts, ∀ d < l.domain.length,
    1 ≤ natAt t.shape d ∧ natAt t.shape d ≤ natAt l.tile d ∧
      natAt t.offset d + natAt t.shape d ≤ natAt l.domain d
  /-- A box falls short of the nominal extents only at the end of a dimension
  that is no multiple. -/
  ragged : ∀ t ∈ ts, ∀ d < l.domain.length, natAt t.shape d < natAt l.tile d →
    (∀ u ∈ ts, natAt u.id d ≤ natAt t.id d) ∧
    ¬ natAt l.tile d ∣ natAt l.domain d
  /-- Every coordinate of the space lies in one box. -/
  covered : ∀ x : List Nat, x.length = l.domain.length →
    (∀ d < l.domain.length, x.getD d 0 < natAt l.domain d) →
      ∃! k : Nat, ∃ t : Tile, ts[k]? = some t ∧ t.Covers x
  /-- It is the one whose index is the quotient by the nominal extents. -/
  quotient : ∀ x : List Nat, x.length = l.domain.length →
    (∀ d < l.domain.length, x.getD d 0 < natAt l.domain d) →
    ∀ t ∈ ts, t.Covers x →
      ∀ d < l.domain.length, natAt t.id d = x.getD d 0 / natAt l.tile d

namespace Launch

/-- The tile of an index has exact numbers. -/
theorem Splits.exactTile_isWhole {l : Launch} {gs ts is : List Nat}
    (hs : l.Splits gs ts) (hg : ∀ g ∈ gs, g ≤ Number.safeLimit)
    (hin : InBox (Tiling.counts gs ts) is) :
    Shape.IsWhole (l.exactTile gs ts is).id is ∧
      Shape.IsWhole (l.exactTile gs ts is).offset (Tiling.offset ts is) ∧
      Shape.IsWhole (l.exactTile gs ts is).shape (Tiling.extent gs ts is) := by
  have his := Tiling.length_of_inBox_counts hs.rank_eq hin
  have hrank := hs.rank_eq
  -- each component is at most the extent of the space in its dimension
  have hwhole : ∀ ns : List Nat, ns.length = ts.length →
      (∀ d < ts.length, ns.getD d 0 ≤ gs.getD d 0) →
      (Shape.whole ns).IsWhole ns := by
    intro ns hlen hle
    apply isWhole_whole
    intro n hn
    obtain ⟨d, hd, rfl⟩ := List.mem_iff_getElem.mp hn
    have hdim := hle d (by omega)
    have hlim := hg (gs.getD d 0) (by
      rw [List.getD_eq_getElem _ _ (by omega)]
      exact List.getElem_mem _)
    rw [List.getD_eq_getElem _ _ hd] at hdim
    omega
  refine ⟨hwhole _ his ?_, hwhole _ (Tiling.length_offset his) ?_,
    hwhole _ (Tiling.length_extent hrank his) ?_⟩
  · intro d hd
    have hi := Tiling.getD_lt_count hrank hin hd
    exact hi.le.trans (Tiling.count_le (getD_pos hs.domain_pos (by omega))
      (getD_pos hs.tile_pos hd))
  · intro d hd
    have hlt :=
      (inBox_iff.mp (Tiling.offset_lt hs.domain_pos hs.tile_pos hrank hin)).2 d
        (by omega)
    exact hlt.le
  · intro d hd
    rw [Tiling.getD_extent hrank his hd]
    omega

theorem exists_of_mem_exactTiles {l : Launch} {gs ts : List Nat} {t : Tile}
    (ht : t ∈ l.exactTiles gs ts) :
    ∃ is, InBox (Tiling.counts gs ts) is ∧ t = l.exactTile gs ts is := by
  obtain ⟨k, hk, rfl⟩ := List.mem_map.mp ht
  exact ⟨_, inBox_coordinate (List.mem_range.mp hk), rfl⟩

section

variable {l : Launch} {gs ts : List Nat}

/-- In one dimension: what the tile of an index says of its place. -/
theorem Splits.natAt_exactTile (hs : l.Splits gs ts)
    (hg : ∀ g ∈ gs, g ≤ Number.safeLimit) {is : List Nat}
    (hin : InBox (Tiling.counts gs ts) is) {d : Nat} (hd : d < ts.length) :
    natAt (l.exactTile gs ts is).id d = is.getD d 0 ∧
      natAt (l.exactTile gs ts is).offset d = is.getD d 0 * ts.getD d 0 ∧
      natAt (l.exactTile gs ts is).shape d =
        min (ts.getD d 0) (gs.getD d 0 - is.getD d 0 * ts.getD d 0) := by
  have his := Tiling.length_of_inBox_counts hs.rank_eq hin
  obtain ⟨hid, hoff, hext⟩ := hs.exactTile_isWhole hg hin
  rw [hid.natAt, hoff.natAt, hext.natAt, Tiling.getD_offset his hd,
    Tiling.getD_extent hs.rank_eq his hd]
  exact ⟨rfl, rfl, rfl⟩

/-- Of the tiles of a launch, the one of an index holds a coordinate just when
the index is the quotient. -/
theorem Splits.covers_exactTile (hs : l.Splits gs ts)
    (hg : ∀ g ∈ gs, g ≤ Number.safeLimit) {is x : List Nat}
    (hin : InBox (Tiling.counts gs ts) is) (hx : InBox gs x) :
    (l.exactTile gs ts is).Covers x ↔ is = Tiling.quotient ts x := by
  obtain ⟨-, hoff, hext⟩ := hs.exactTile_isWhole hg hin
  have hxlen := (length_of_inBox hx).trans hs.rank_eq
  have his := Tiling.length_of_inBox_counts hs.rank_eq hin
  rw [← Tiling.covers_iff hs.rank_eq hs.tile_pos his hx, Tile.Covers, hxlen]
  simp only [hoff.natAt, hext.natAt]

theorem Splits.existsUnique_covers (hs : l.Splits gs ts)
    (hg : ∀ g ∈ gs, g ≤ Number.safeLimit) {x : List Nat} (hx : InBox gs x) :
    ∃! k : Nat, ∃ t : Tile, (l.exactTiles gs ts)[k]? = some t ∧ t.Covers x := by
  have hquot := Tiling.inBox_quotient hs.rank_eq hs.domain_pos hs.tile_pos hx
  refine ⟨rank (Tiling.counts gs ts) (Tiling.quotient ts x), ?_, ?_⟩
  · refine ⟨_, getElem?_exactTiles.mpr ⟨rank_lt hquot, rfl⟩, ?_⟩
    rw [coordinate_rank hquot]
    exact (hs.covers_exactTile hg hquot hx).mpr rfl
  · rintro k ⟨t, ht, hcov⟩
    obtain ⟨hk, rfl⟩ := getElem?_exactTiles.mp ht
    rw [← (hs.covers_exactTile hg (inBox_coordinate hk) hx).mp hcov,
      rank_coordinate hk]

/-- **The tiles of a launch partition its iteration space.** -/
theorem Splits.partitioned (hs : l.Splits gs ts)
    (hg : ∀ g ∈ gs, g ≤ Number.safeLimit) :
    l.Partitioned (l.exactTiles gs ts) := by
  have hrank := hs.rank_eq
  have hlen : l.domain.length = ts.length := by rw [hs.domain.length_eq, hrank]
  have hpos : ∀ d < ts.length, 0 < gs.getD d 0 ∧ 0 < ts.getD d 0 :=
    fun d hd => ⟨getD_pos hs.domain_pos (by omega), getD_pos hs.tile_pos hd⟩
  have hspace : ∀ x : List Nat, x.length = ts.length →
      (∀ d < ts.length, x.getD d 0 < gs.getD d 0) → InBox gs x :=
    fun x hxlen h => inBox_iff.mpr ⟨by omega, fun d hd => h d (by omega)⟩
  constructor
  case whole =>
    intro t ht s hmem
    obtain ⟨is, hin, rfl⟩ := exists_of_mem_exactTiles ht
    have his := Tiling.length_of_inBox_counts hrank hin
    obtain ⟨hid, hoff, hext⟩ := hs.exactTile_isWhole hg hin
    simp only [List.mem_cons, List.not_mem_nil, or_false] at hmem
    rcases hmem with rfl | rfl | rfl
    · exact ⟨by rw [hid.length_eq, his, hlen], all_isExtent_iff.mpr ⟨_, hid⟩⟩
    · exact ⟨by rw [hoff.length_eq, Tiling.length_offset his, hlen],
        all_isExtent_iff.mpr ⟨_, hoff⟩⟩
    · exact ⟨by rw [hext.length_eq, Tiling.length_extent hrank his, hlen],
        all_isExtent_iff.mpr ⟨_, hext⟩⟩
  case inside =>
    intro t ht d hd
    rw [hlen] at hd
    obtain ⟨is, hin, rfl⟩ := exists_of_mem_exactTiles ht
    obtain ⟨-, hoff, hext⟩ := hs.natAt_exactTile hg hin hd
    have hstart := (Tiling.lt_count_iff (hpos d hd).1 (hpos d hd).2).mp
      (Tiling.getD_lt_count hrank hin hd)
    have htpos := (hpos d hd).2
    rw [hoff, hext, hs.tile.natAt, hs.domain.natAt]
    omega
  case ragged =>
    intro t ht d hd hshort
    rw [hlen] at hd
    obtain ⟨is, hin, rfl⟩ := exists_of_mem_exactTiles ht
    obtain ⟨hid, -, hext⟩ := hs.natAt_exactTile hg hin hd
    rw [hext, hs.tile.natAt] at hshort
    obtain ⟨hlast, hdvd⟩ := Tiling.last_of_short (hpos d hd).1 (hpos d hd).2
      (Tiling.getD_lt_count hrank hin hd) hshort
    rw [hs.tile.natAt, hs.domain.natAt]
    refine ⟨fun u hu => ?_, hdvd⟩
    obtain ⟨js, hjn, rfl⟩ := exists_of_mem_exactTiles hu
    have hj := Tiling.getD_lt_count hrank hjn hd
    rw [hid, (hs.natAt_exactTile hg hjn hd).1]
    omega
  case covered =>
    intro x hxlen h
    simp only [hs.domain.natAt, hlen] at h
    exact hs.existsUnique_covers hg (hspace x (by omega) h)
  case quotient =>
    intro x hxlen h t ht hcov d hd
    simp only [hs.domain.natAt, hlen] at h
    rw [hlen] at hd
    obtain ⟨is, hin, rfl⟩ := exists_of_mem_exactTiles ht
    have hquot := (hs.covers_exactTile hg hin (hspace x (by omega) h)).mp hcov
    rw [(hs.natAt_exactTile hg hin hd).1, hs.tile.natAt, hquot, Tiling.quotient,
      getD_zipWith (by omega) hd]

end

end Launch

namespace Host

variable {ν : Type}

/-- **Exact tiling.** The tiles that a run hands to a body that always finishes
partition the iteration space of the launch. -/
theorem run_partitions {l : Launch} (hl : l.check = .ok ())
    (hg : ∀ g ∈ l.domain, g.le (.ofNat Number.safeLimit) = true) {id : Nat}
    {h : Host ν} (hidle : (h.driver id).phase = .idle)
    {body : Tile → Act ν Completion}
    (hbody : ∀ t h, ∃ h', body t h = .ok .finished h') :
    ∃ (h' : Host ν) (ts : List Tile),
      run id l (noting body) (h.withNotes []) = .ok () (h'.withNotes ts) ∧
        l.Partitioned ts := by
  obtain ⟨h', hfold⟩ := foldTiles_of_finished hbody id l.tiles 0
    ((h.setPhase id .running).emit id
    (.start l.domain l.tile (whole (Tiling.counts l.domainNats l.tileNats))))
  have hrun := run_noting hl hg hidle body
  rw [hfold] at hrun
  have hs := Launch.splits_of_check hl
  exact ⟨_, l.tiles, hrun, hs.partitioned (Launch.domainNats_le hl hg)⟩

/-- A ragged launch in two dimensions, with a body that does nothing. -/
theorem run_partitions_ragged :
    let l : Launch := ⟨whole [5, 4], whole [2, 7]⟩
    let body : Tile → Act Unit Completion := fun _ => pure .finished
    l.check = .ok () ∧ (∀ t h, ∃ h', body t h = .ok .finished h') ∧
    ∃ (h' : Host Unit) (ts : List Tile),
      run 0 l (noting body) ((Host.empty .empty ()).withNotes []) =
        .ok () (h'.withNotes ts) ∧ l.Partitioned ts := by
  have hgs : ∀ g ∈ [5, 4], 0 < g ∧ g ≤ Number.safeLimit := by decide
  have hts : ∀ t ∈ [2, 7], 0 < t ∧ t ≤ Number.safeLimit := by decide
  have hl : Launch.check ⟨whole [5, 4], whole [2, 7]⟩ = .ok () :=
    Launch.check_iff.mpr ⟨_, _,
      Launch.splits_whole rfl hgs hts, by decide, by decide⟩
  intro l body
  have hbody : ∀ t h, ∃ h', body t h = .ok .finished h' := fun _ h => ⟨h, rfl⟩
  exact ⟨hl, hbody, run_partitions hl (Launch.whole_le_safeLimit hgs) rfl hbody⟩

end Host

end TileGrid
