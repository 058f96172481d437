import TileGrid.Launch
import TileGrid.Proofs.Shape.Walk

/-!
# The tiles of a launch, exactly

For a launch that is accepted and whose iteration space has no extent above
`Number.safeLimit`, the number of tiles, where each starts and how much of it
lies inside are what they are over the naturals, although each is computed by
rounded arithmetic. Nothing is asked of the nominal extents of a tile.
-/

namespace TileGrid.Launch

open RowMajor Shape

/-! ## Accepted launches -/

/-- A whole number above zero is an extent. -/
theorem isExtent_of_pos {x : Number} (hint : x.isInteger = true)
    (hpos : Number.lt 0 x = true) :
    x.isExtent = true := by
  rw [Number.isExtent, hint, Bool.true_and]
  cases x with
  | finite s m =>
      obtain ⟨t, z, hz, -, -⟩ := Number.isWhole_zero
      rw [hz, Number.lt_finite, decide_eq_true_eq] at hpos
      rw [hz, Number.le, Number.lt_finite, decide_eq_false (by omega)]
      rfl
  | nan => cases hint
  | infinite s => cases hint
  | stray s => cases hint

theorem isPositive_iff {x : Number} :
    isPositive x = true ↔ ∃ n, 0 < n ∧ x.IsWhole n := by
  unfold isPositive
  rw [Bool.and_eq_true]
  constructor
  · rintro ⟨hint, hpos⟩
    obtain ⟨n, hn⟩ := Number.isExtent_iff.mp (isExtent_of_pos hint hpos)
    rw [Number.isWhole_zero.lt hn, decide_eq_true_eq] at hpos
    exact ⟨n, hpos, hn⟩
  · rintro ⟨n, hpos, hn⟩
    rw [Number.isWhole_zero.lt hn, decide_eq_true_eq]
    exact ⟨hn.isInteger, hpos⟩

theorem all_isPositive_iff {shape : Shape} :
    shape.all isPositive = true ↔ ∃ ns, shape.IsWhole ns ∧ ∀ n ∈ ns, 0 < n := by
  induction shape with
  | nil => exact ⟨fun _ => ⟨[], .nil, by simp⟩, fun _ => rfl⟩
  | cons x shape ih =>
      rw [List.all_cons, Bool.and_eq_true, isPositive_iff, ih]
      constructor
      · rintro ⟨⟨n, hpos, hn⟩, ns, hs, hall⟩
        exact ⟨n :: ns, .cons hn hs, List.forall_mem_cons.mpr ⟨hpos, hall⟩⟩
      · rintro ⟨ns, hs, hall⟩
        cases hs with
        | cons hn hs =>
            obtain ⟨hpos, hall⟩ := List.forall_mem_cons.mp hall
            exact ⟨⟨_, hpos, hn⟩, _, hs, hall⟩

/-- The launch splits a space of extents `gs` into tiles of extents `ts`, all
of them positive. -/
structure Splits (l : Launch) (gs ts : List Nat) : Prop where
  domain : l.domain.IsWhole gs
  tile : l.tile.IsWhole ts
  rank_eq : gs.length = ts.length
  domain_pos : ∀ g ∈ gs, 0 < g
  tile_pos : ∀ t ∈ ts, 0 < t

theorem check_iff {l : Launch} :
    l.check = .ok () ↔
      ∃ gs ts, l.Splits gs ts ∧ 1 ≤ gs.length ∧ gs.length ≤ maxRank := by
  unfold check
  constructor
  · intro h
    split at h
    · rename_i hc
      obtain ⟨h1, h3, hlen, hd, ht⟩ := hc
      obtain ⟨gs, hgs, hgpos⟩ := all_isPositive_iff.mp hd
      obtain ⟨ts, hts, htpos⟩ := all_isPositive_iff.mp ht
      rw [hgs.length_eq] at h1 h3 hlen
      rw [hts.length_eq] at hlen
      exact ⟨gs, ts, ⟨hgs, hts, hlen, hgpos, htpos⟩, h1, h3⟩
    · cases h
  · rintro ⟨gs, ts, hs, h1, h3⟩
    have hd := all_isPositive_iff.mpr ⟨gs, hs.domain, hs.domain_pos⟩
    have ht := all_isPositive_iff.mpr ⟨ts, hs.tile, hs.tile_pos⟩
    have hlen : l.domain.length = l.tile.length := by
      rw [hs.domain.length_eq, hs.tile.length_eq, hs.rank_eq]
    rw [if_pos]
    rw [← hs.domain.length_eq] at h1 h3
    exact ⟨h1, h3, hlen, hd, ht⟩

end TileGrid.Launch

/-! ## Tiles over the naturals -/

namespace TileGrid.Tiling

open RowMajor

/-- How many tiles of extents `ts` cover a space of extents `gs`. -/
def counts (gs ts : List Nat) : List Nat :=
  List.zipWith (fun g t => (g + t - 1) / t) gs ts

/-- Where the tile of an index starts. -/
def offset (ts is : List Nat) : List Nat := List.zipWith (· * ·) is ts

/-- How much of a tile lies inside the space. -/
def extent (gs ts is : List Nat) : List Nat :=
  List.zipWith (fun room t => min t room)
    (List.zipWith (fun o g => g - o) (offset ts is) gs) ts

/-- The last index of a dimension is the one whose tile still starts inside. -/
theorem lt_count_iff {g t i : Nat} (hg : 0 < g) (ht : 0 < t) :
    i < (g + t - 1) / t ↔ i * t < g := by
  rw [Nat.lt_iff_add_one_le, Nat.le_div_iff_mul_le ht, Nat.succ_mul]
  omega

theorem count_eq {g t : Nat} (hg : 0 < g) (ht : 0 < t) :
    (g + t - 1) / t = (g - 1) / t + 1 := by
  have h : g + t - 1 = (g - 1) + t := by omega
  rw [h, Nat.add_div_right _ ht]

/-- The space ends in the tile after `(g - 1) / t` others. -/
theorem quotient_bounds {g t : Nat} (hg : 0 < g) (ht : 0 < t) :
    (g - 1) / t * t < g ∧ g ≤ ((g - 1) / t + 1) * t := by
  have hdm := Nat.div_add_mod (g - 1) t
  have hmod := Nat.mod_lt (g - 1) ht
  rw [Nat.succ_mul, Nat.mul_comm]
  omega

theorem count_le {g t : Nat} (hg : 0 < g) (ht : 0 < t) :
    (g + t - 1) / t ≤ g := by
  have h := Nat.div_le_self (g - 1) t
  rw [count_eq hg ht]
  omega

@[simp] theorem length_counts {gs ts : List Nat} (h : gs.length = ts.length) :
    (counts gs ts).length = gs.length := by
  simp [counts, h]

/-- Every tile starts inside the space. -/
theorem offset_lt {gs ts is : List Nat} (hgs : ∀ g ∈ gs, 0 < g)
    (hts : ∀ t ∈ ts, 0 < t) (hlen : gs.length = ts.length)
    (hin : InBox (counts gs ts) is) :
    InBox gs (offset ts is) := by
  induction gs generalizing ts is with
  | nil =>
      have hts0 : ts = [] := List.eq_nil_of_length_eq_zero hlen.symm
      subst hts0
      cases hin
      exact .nil
  | cons g gs ih =>
      cases ts with
      | nil => simp at hlen
      | cons t ts =>
          obtain ⟨hg, hgs⟩ := List.forall_mem_cons.mp hgs
          obtain ⟨ht, hts⟩ := List.forall_mem_cons.mp hts
          cases hin with
          | cons hi hin =>
              exact .cons ((lt_count_iff hg ht).mp hi)
                (ih hgs hts (by simpa using hlen) hin)

theorem index_pairs {gs ts is : List Nat} {bound : Nat} (hgs : ∀ g ∈ gs, 0 < g)
    (hts : ∀ t ∈ ts, 0 < t) (hg : ∀ g ∈ gs, g ≤ bound)
    (hlen : gs.length = ts.length) (hin : InBox (counts gs ts) is) :
    List.Forall₂ (fun i t => 0 < t ∧ i * t < bound) is ts := by
  have hrank : is.length = ts.length := by
    rw [length_of_inBox hin, length_counts hlen, hlen]
  obtain ⟨-, hlt⟩ := List.forall₂_iff_get.mp (offset_lt hgs hts hlen hin)
  rw [List.forall₂_iff_get]
  refine ⟨hrank, fun d hi ht => ⟨hts _ (List.get_mem _ _), ?_⟩⟩
  have hd := hlt d (by simp [offset]; omega) (by omega)
  simp only [offset, List.get_eq_getElem, List.getElem_zipWith] at hd
  exact hd.trans_le (hg _ (List.getElem_mem _))

theorem room_pairs {gs ts os : List Nat} {bound : Nat} (hts : ∀ t ∈ ts, 0 < t)
    (hg : ∀ g ∈ gs, g ≤ bound) (hlen : gs.length = ts.length)
    (hlt : InBox gs os) :
    List.Forall₂ (fun r t => 0 < r ∧ r ≤ bound ∧ 0 < t)
      (List.zipWith (fun o g => g - o) os gs) ts := by
  induction hlt generalizing ts with
  | nil =>
      have hts0 : ts = [] := List.eq_nil_of_length_eq_zero hlen.symm
      subst hts0
      exact .nil
  | cons hog _ ih =>
      cases ts with
      | nil => simp at hlen
      | cons t ts =>
          obtain ⟨ht, hts⟩ := List.forall_mem_cons.mp hts
          obtain ⟨hgle, hg⟩ := List.forall_mem_cons.mp hg
          exact .cons ⟨Nat.sub_pos_of_lt hog, (Nat.sub_le _ _).trans hgle, ht⟩
            (ih hts hg (by simpa using hlen))

end TileGrid.Tiling

namespace TileGrid.Shape

theorem forall₂_and_mem {α β : Type} {R : α → β → Prop} {xs : List α}
    {ys : List β} (h : List.Forall₂ R xs ys) :
    List.Forall₂ (fun x y => R x y ∧ y ∈ ys) xs ys := by
  rw [List.forall₂_iff_get] at h ⊢
  exact ⟨h.1, fun d hx hy => ⟨h.2 d hx hy, List.get_mem _ _⟩⟩

/-- Pairing components that stand for naturals, where each pair gives the
number of a natural. -/
theorem pairWith_eq_whole {f : Number → Number → Number} {g : Nat → Nat → Nat}
    {R S : Number → Nat → Prop} {P : Nat → Nat → Prop}
    (hf : ∀ {x m y n}, R x m → S y n → P m n → f x y = .ofNat (g m n))
    {xs ys : Shape} {ms ns : List Nat} (hx : List.Forall₂ R xs ms)
    (hy : List.Forall₂ S ys ns) (hP : List.Forall₂ P ms ns) :
    pairWith f xs ys = whole (List.zipWith g ms ns) := by
  induction hx generalizing ys ns with
  | nil => rfl
  | cons hxm _ ih =>
      cases hP with
      | cons hp hP =>
          cases hy with
          | cons hyn hy =>
            simp only [pairWith, List.zipWith, whole_cons,
              hf hxm hyn hp, ih hy hP]

theorem forall₂_whole (ns : List Nat) :
    List.Forall₂ (fun x n => x = Number.ofNat n) (whole ns) ns := by
  induction ns with
  | nil => exact .nil
  | cons n ns ih => exact .cons rfl ih

end TileGrid.Shape

namespace TileGrid.Launch

open RowMajor Shape

/-! ## Counts, origins and extents -/

theorem Splits.pairs {l : Launch} {gs ts : List Nat} (hs : l.Splits gs ts) :
    List.Forall₂ (fun g t => 0 < g ∧ 0 < t ∧ g ∈ gs) gs ts := by
  rw [List.forall₂_iff_get]
  refine ⟨hs.rank_eq,
    fun d hg ht => ⟨hs.domain_pos _ (List.get_mem _ _), ?_, List.get_mem _ _⟩⟩
  exact hs.tile_pos _ (List.get_mem _ _)

/-- **The number of tiles** of each dimension is the exact quotient
rounded up. -/
theorem Splits.counts {l : Launch} {gs ts : List Nat} (hs : l.Splits gs ts)
    (hl : l.check = .ok ()) (hg : ∀ g ∈ gs, g ≤ Number.safeLimit) :
    l.counts = .ok (whole (Tiling.counts gs ts)) := by
  have hpairs : Shape.pairWith (fun g t => (g / t).ceil) l.domain l.tile =
      whole (Tiling.counts gs ts) := by
    refine pairWith_eq_whole ?_ hs.domain hs.tile hs.pairs
    rintro x g y t hx hy ⟨hgpos, htpos, hmem⟩
    obtain ⟨hlo, hhi⟩ := Tiling.quotient_bounds hgpos htpos
    rw [Tiling.count_eq hgpos htpos]
    exact hx.ceil_div hy (hg g hmem) hlo hhi
  unfold Launch.counts
  rw [hl, ← hpairs]
  rfl

/-- **Where a tile starts** is exact: it starts inside the space. -/
theorem Splits.origin {l : Launch} {gs ts is : List Nat} (hs : l.Splits gs ts)
    (hg : ∀ g ∈ gs, g ≤ Number.safeLimit)
    (hin : InBox (Tiling.counts gs ts) is) :
    Launch.origin (whole is) l.tile = whole (Tiling.offset ts is) := by
  have hpairs := Tiling.index_pairs hs.domain_pos hs.tile_pos hg hs.rank_eq hin
  refine pairWith_eq_whole ?_ (forall₂_whole is) hs.tile hpairs
  rintro x i y t rfl hy ⟨htpos, hle⟩
  have hi : i ≤ i * t := Nat.le_mul_of_pos_right i htpos
  exact Number.ofNat_mul hy htpos (by omega) hle.le

/-- **How much of a tile lies inside** is exact, however large its
nominal extents are. -/
theorem Splits.extent {l : Launch} {gs ts is : List Nat} (hs : l.Splits gs ts)
    (hg : ∀ g ∈ gs, g ≤ Number.safeLimit)
    (hin : InBox (Tiling.counts gs ts) is) :
    Launch.extent (whole (Tiling.offset ts is)) l.tile l.domain =
      whole (Tiling.extent gs ts is) := by
  have hlt := Tiling.offset_lt hs.domain_pos hs.tile_pos hs.rank_eq hin
  have hroom :
      Shape.pairWith (fun o g => g - o) (whole (Tiling.offset ts is)) l.domain =
      whole (List.zipWith (fun o g => g - o) (Tiling.offset ts is) gs) := by
    refine pairWith_eq_whole ?_ (forall₂_whole _) hs.domain
      (forall₂_and_mem hlt)
    rintro x o y g rfl hy ⟨hog, hmem⟩
    have hle := hg g hmem
    exact hy.sub (Number.isWhole_ofNat (by omega)) hog (by omega)
  unfold Launch.extent
  rw [hroom]
  have hpairs := Tiling.room_pairs hs.tile_pos hg hs.rank_eq hlt
  refine pairWith_eq_whole ?_ (forall₂_whole _) hs.tile hpairs
  rintro x r y t rfl hy ⟨hrpos, hr, htpos⟩
  exact (hy.min (Number.isWhole_ofNat hr)).eq_ofNat (by omega)

/-- The tile of an index, with every number exact. -/
def exactTile (l : Launch) (gs ts is : List Nat) : Tile where
  id := whole is
  offset := whole (Tiling.offset ts is)
  shape := whole (Tiling.extent gs ts is)
  nominal := l.tile
  domain := l.domain
  counts := whole (Tiling.counts gs ts)

theorem Splits.tileAt {l : Launch} {gs ts is : List Nat} (hs : l.Splits gs ts)
    (hg : ∀ g ∈ gs, g ≤ Number.safeLimit)
    (hin : InBox (Tiling.counts gs ts) is) :
    l.tileAt (whole (Tiling.counts gs ts)) (whole is) =
      l.exactTile gs ts is := by
  rw [Launch.tileAt, exactTile, hs.origin hg hin, hs.extent hg hin]

/-- All tiles of a launch in row-major order. -/
def exactTiles (l : Launch) (gs ts : List Nat) : List Tile :=
  (List.range (Tiling.counts gs ts).prod).map fun k =>
    l.exactTile gs ts (coordinate (Tiling.counts gs ts) k)

theorem getElem?_exactTiles {l : Launch} {gs ts : List Nat} {k : Nat}
    {t : Tile} :
    (l.exactTiles gs ts)[k]? = some t ↔ k < (Tiling.counts gs ts).prod ∧
      t = l.exactTile gs ts (coordinate (Tiling.counts gs ts) k) := by
  rw [exactTiles, List.getElem?_map]
  by_cases hk : k < (Tiling.counts gs ts).prod
  · simp [hk, eq_comm]
  · simp [hk]

/-- The extents of the space and of a tile, as naturals. -/
def domainNats (l : Launch) : List Nat := l.domain.map Number.toNat

def tileNats (l : Launch) : List Nat := l.tile.map Number.toNat

/-- The tiles that a run of the launch goes through. -/
def tiles (l : Launch) : List Tile := l.exactTiles l.domainNats l.tileNats

theorem length_tiles (l : Launch) :
    l.tiles.length = (Tiling.counts l.domainNats l.tileNats).prod := by
  simp [tiles, exactTiles]

theorem Splits.domainNats {l : Launch} {gs ts : List Nat}
    (hs : l.Splits gs ts) :
    l.domainNats = gs := hs.domain.map_toNat

theorem Splits.tileNats {l : Launch} {gs ts : List Nat} (hs : l.Splits gs ts) :
    l.tileNats = ts := hs.tile.map_toNat

theorem splits_of_check {l : Launch} (hl : l.check = .ok ()) :
    l.Splits l.domainNats l.tileNats := by
  obtain ⟨gs, ts, hs, -, -⟩ := check_iff.mp hl
  rwa [hs.domainNats, hs.tileNats]

theorem splits_whole {gs ts : List Nat} (hrank : gs.length = ts.length)
    (hgs : ∀ g ∈ gs, 0 < g ∧ g ≤ Number.safeLimit)
    (hts : ∀ t ∈ ts, 0 < t ∧ t ≤ Number.safeLimit) :
    Splits ⟨whole gs, whole ts⟩ gs ts :=
  ⟨isWhole_whole fun g hg => (hgs g hg).2, isWhole_whole fun t ht =>
    (hts t ht).2, hrank, fun g hg => (hgs g hg).1, fun t ht => (hts t ht).1⟩

theorem whole_le_safeLimit {gs : List Nat}
    (hgs : ∀ g ∈ gs, 0 < g ∧ g ≤ Number.safeLimit) :
    ∀ x ∈ whole gs, x.le (.ofNat Number.safeLimit) = true := by
  intro x hx
  obtain ⟨g, hg, rfl⟩ := List.mem_map.mp hx
  have hle := (hgs g hg).2
  rw [(Number.isWhole_ofNat hle).le (Number.isWhole_ofNat (le_refl _)),
    decide_eq_true_eq]
  exact hle

/-- The extents of the space are bounded as naturals where they are
bounded as numbers. -/
theorem domainNats_le {l : Launch} (hl : l.check = .ok ())
    (hg : ∀ g ∈ l.domain, g.le (.ofNat Number.safeLimit) = true) :
    ∀ g ∈ l.domainNats, g ≤ Number.safeLimit := by
  have hs := (splits_of_check hl).domain
  have hlim := Number.isWhole_ofNat (le_refl Number.safeLimit)
  generalize l.domainNats = gs at hs
  revert hg
  generalize l.domain = domain at hs
  intro hg
  induction hs with
  | nil => simp
  | cons hx _ ih =>
      obtain ⟨hx', hg⟩ := List.forall_mem_cons.mp hg
      rw [hx.le hlim, decide_eq_true_eq] at hx'
      exact List.forall_mem_cons.mpr ⟨hx', ih hg⟩

end TileGrid.Launch
