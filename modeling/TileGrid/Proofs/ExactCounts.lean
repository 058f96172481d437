import Mathlib.Order.Bounds.Basic
import TileGrid.Proofs.Number.Nearest
import TileGrid.Proofs.Partition

/-!
# Exact numbers of tiles

The number of tiles of a dimension is a quotient that is first rounded to the
nearest number and then rounded up. Up to `Number.safeLimit` the first rounding
never reaches the whole number below, so the result is the exact quotient
rounded up: the least number of tiles that cover the dimension. Nothing that is
computed for a tile of such a launch is rounded either.
-/

namespace TileGrid

open RowMajor Shape

/-! ## Quotients -/

/-- Rounding up a magnitude is rounding up what it stands for. -/
theorem Magnitude.ceil_value {m : Magnitude} {j : Nat}
    (hlo : j * unitsPerOne < m.units) (hhi : m.units ≤ (j + 1) * unitsPerOne) :
    ⌈m.value⌉₊ = j + 1 := by
  have hu : (0 : ℚ) < unitsPerOne := by exact_mod_cast unitsPerOne_pos
  rw [Nat.ceil_eq_iff (by omega), Magnitude.value, lt_div_iff₀ hu,
    div_le_iff₀ hu]
  constructor
  · exact_mod_cast hlo
  · exact_mod_cast hhi

namespace Tiling

/-- The number of tiles is the exact quotient rounded up. -/
theorem count_eq_ceil {g t : Nat} (hg : 0 < g) (ht : 0 < t) :
    (g + t - 1) / t = ⌈(g : ℚ) / t⌉₊ := by
  have ht' : (0 : ℚ) < t := by exact_mod_cast ht
  refine eq_of_forall_ge_iff fun k => ?_
  rw [Nat.ceil_le, div_le_iff₀ ht', ← Nat.not_lt, lt_count_iff hg ht,
    Nat.not_lt]
  norm_cast

/-- It is the least number of tiles that cover the dimension. -/
theorem isLeast_count {g t : Nat} (hg : 0 < g) (ht : 0 < t) :
    IsLeast {k | g ≤ k * t} ((g + t - 1) / t) := by
  constructor
  · have hend := (lt_count_iff (i := (g + t - 1) / t) hg ht).not.mp
      (Nat.lt_irrefl _)
    exact Nat.not_lt.mp hend
  · intro k hk
    by_contra hlt
    exact Nat.not_lt.mpr hk ((lt_count_iff hg ht).mp (Nat.not_le.mp hlt))

end Tiling

/-- **Rounding up forgives the rounding of the quotient.** The quotient is the
magnitude nearest to the exact one, and rounded up the two are the same. -/
theorem Number.IsWhole.ceil_nearest {x y : Number} {g l : Nat}
    (hx : x.IsWhole g) (hy : y.IsWhole l) (hg : 0 < g)
    (hle : g ≤ Number.safeLimit) (hl : 0 < l) :
    ∃ q : Magnitude, (∀ p : Magnitude, p.Nearest ((g : ℚ) / l) ↔ p = q) ∧
      ⌈q.value⌉₊ = ⌈(g : ℚ) / l⌉₊ ∧ x / y = .finite false q ∧
      (x / y).ceil.IsWhole ⌈(g : ℚ) / l⌉₊ := by
  obtain ⟨hlo, hhi⟩ := Tiling.quotient_bounds hg hl
  have hcount := Tiling.count_le hg hl
  obtain ⟨q, hunits, hdiv, hnear⟩ := hx.div_nearest hy hg hl
  obtain ⟨hbot, htop⟩ := Number.nearest_div_bounds hy.holds hle hlo hhi
  rw [← hunits] at hbot htop
  rw [← Tiling.count_eq_ceil hg hl, hx.ceil_div hy hle hlo hhi,
    ← Tiling.count_eq hg hl]
  refine ⟨q, hnear, ?_, hdiv, Number.isWhole_ofNat (by omega)⟩
  rw [Magnitude.ceil_value hbot htop, Tiling.count_eq hg hl]

/-! ## Components of a tile -/

namespace Shape

theorem length_pairWith (f : Number → Number → Number) (xs ys : Shape) :
    (pairWith f xs ys).length = xs.length := by
  induction xs generalizing ys with
  | nil => rfl
  | cons x xs ih => cases ys <;> simp [pairWith, ih]

theorem getD_pairWith (f : Number → Number → Number) {xs : Shape}
    (ys : Shape) {d : Nat} (hd : d < xs.length) :
    (pairWith f xs ys).getD d .nan = f (xs.getD d .nan) (ys.getD d .nan) := by
  induction xs generalizing ys d with
  | nil => simp at hd
  | cons x xs ih =>
      cases d with
      | zero => cases ys <;> rfl
      | succ d =>
          have hd' : d < xs.length := by simpa using hd
          cases ys with
          | nil => simpa [pairWith] using ih [] hd'
          | cons y ys => simpa [pairWith] using ih ys hd'

theorem IsWhole.getD {shape : Shape} {ns : List Nat}
    (h : shape.IsWhole ns) {d : Nat} (hd : d < ns.length) :
    (shape.getD d .nan).IsWhole (Shape.natAt shape d) := by
  have hlen := h.length_eq
  rw [h.natAt, List.getD_eq_getElem _ _ (by omega), List.getD_eq_getElem _ _ hd]
  exact (List.forall₂_iff_get.mp h).2 d (by omega) hd

end Shape

namespace Launch

variable {l : Launch} {counts : Shape} {index : Index} {d : Nat}

theorem getD_offset_tileAt (hd : d < index.length) :
    (l.tileAt counts index).offset.getD d .nan =
      index.getD d .nan * l.tile.getD d .nan :=
  getD_pairWith _ _ hd

theorem getD_shape_tileAt (hd : d < index.length) :
    (l.tileAt counts index).shape.getD d .nan =
      Number.min (l.tile.getD d .nan)
        (l.domain.getD d .nan -
          (l.tileAt counts index).offset.getD d .nan) := by
  have hoff : d < (l.tileAt counts index).offset.length := by
    rw [tileAt, origin, length_pairWith]
    exact hd
  change (extent (l.tileAt counts index).offset l.tile l.domain).getD d .nan = _
  rw [extent, getD_pairWith _ _ (by rw [length_pairWith]; exact hoff),
    getD_pairWith _ _ hoff]

/-- The tiles of a launch are those of the indices that its counts enumerate. -/
theorem Splits.map_tileAt_indices {l : Launch} {gs ts : List Nat}
    (hs : l.Splits gs ts) (hg : ∀ g ∈ gs, g ≤ Number.safeLimit) :
    (indices (whole (Tiling.counts gs ts))).map
      (l.tileAt (whole (Tiling.counts gs ts))) =
      l.exactTiles gs ts := by
  have hcounts := Host.counts_le_safeLimit hs hg
  rw [indices_eq (isWhole_whole hcounts) hcounts, exactTiles, List.map_map]
  apply List.map_congr_left
  intro k hk
  exact hs.tileAt hg (inBox_coordinate (List.mem_range.mp hk))

theorem Splits.exists_of_mem_indices {l : Launch} {gs ts : List Nat}
    (hs : l.Splits gs ts) (hg : ∀ g ∈ gs, g ≤ Number.safeLimit) {index : Index}
    (h : index ∈ indices (whole (Tiling.counts gs ts))) :
    ∃ is, InBox (Tiling.counts gs ts) is ∧
      l.tileAt (whole (Tiling.counts gs ts)) index = l.exactTile gs ts is := by
  apply exists_of_mem_exactTiles
  rw [← hs.map_tileAt_indices hg]
  exact List.mem_map_of_mem h

end Launch

/-- Whatever the body does, a run hands it the first tiles of the launch. -/
theorem Host.exists_run_noting {ν : Type} {l : Launch} (hl : l.check = .ok ())
    (hg : ∀ g ∈ l.domain, g.le (.ofNat Number.safeLimit) = true) {id : Nat}
    {h : Host ν} (hidle : (h.driver id).phase = .idle)
    (body : Tile → Act ν Completion) :
    ∃ (k : Nat) (ending : Option Fault) (h' : Host ν),
      run id l (noting body) (h.withNotes []) =
        ended ending (h'.withNotes (l.tiles.take k)) := by
  rw [run_noting hl hg hidle body]
  cases foldTiles id body l.tiles 0 ((h.setPhase id .running).emit id
      (.start l.domain l.tile
        (whole (Tiling.counts l.domainNats l.tileNats)))) with
  | ok tiles h' =>
      refine ⟨l.tiles.length, none,
        (h'.emit id (.finish (.tally tiles))).setPhase id .idle, ?_⟩
      rw [List.take_length]
      rfl
  | error a h' => exact ⟨a.finished + 1, some a.fault, _, rfl⟩

/-! ## Launches -/

/-- In one dimension, nothing that a tile is computed from was rounded: neither
the product that says where it starts nor the difference to which it is cut. -/
structure Tile.ExactAt (t : Tile) (d : Nat) : Prop where
  index : (t.id.getD d .nan).IsWhole (natAt t.id d)
  product : (t.id.getD d .nan * t.nominal.getD d .nan).IsWhole
    (natAt t.id d * natAt t.nominal d)
  starts : t.offset.getD d .nan = t.id.getD d .nan * t.nominal.getD d .nan
  inside : natAt t.offset d < natAt t.domain d
  room : (t.domain.getD d .nan - t.offset.getD d .nan).IsWhole
    (natAt t.domain d - natAt t.offset d)

/-- The counts are the least that cover the iteration space, and no
tile is rounded. -/
structure Launch.CountedExactly (l : Launch) (counts : Shape) : Prop where
  rank : counts.length = l.domain.length
  whole : ∀ d < l.domain.length, (counts.getD d .nan).IsWhole (natAt counts d)
  least : ∀ d < l.domain.length,
    IsLeast {k | natAt l.domain d ≤ k * natAt l.tile d} (natAt counts d)
  tiles : ∀ index ∈ indices counts, ∀ d < l.domain.length,
    (l.tileAt counts index).ExactAt d

namespace Launch

variable {l : Launch} {gs ts : List Nat}

/-- The tile of an index is computed without rounding. -/
theorem Splits.exactAt (hs : l.Splits gs ts)
    (hg : ∀ g ∈ gs, g ≤ Number.safeLimit) {is : List Nat}
    (hin : InBox (Tiling.counts gs ts) is) {d : Nat} (hd : d < ts.length) :
    (l.exactTile gs ts is).ExactAt d := by
  have hrank := hs.rank_eq
  have his := Tiling.length_of_inBox_counts hrank hin
  obtain ⟨hid, hoff, -⟩ := hs.exactTile_isWhole hg hin
  obtain ⟨hid', hoff', -⟩ := hs.natAt_exactTile hg hin hd
  have hlt :=
    (Tiling.lt_count_iff (getD_pos hs.domain_pos (by omega))
      (getD_pos hs.tile_pos hd)).mp
    (Tiling.getD_lt_count hrank hin hd)
  have hdom : gs.getD d 0 ≤ Number.safeLimit := by
    rw [List.getD_eq_getElem _ _ (by omega)]
    exact hg _ (List.getElem_mem _)
  have hindex := hid.getD (d := d) (by omega)
  have htile := hs.tile.getD hd
  have hstart := hoff.getD (d := d) (by rw [Tiling.length_offset his]; exact hd)
  have hdomain := hs.domain.getD (d := d) (by omega)
  have hstarts : (l.exactTile gs ts is).offset.getD d .nan =
      (l.exactTile gs ts is).id.getD d .nan * l.tile.getD d .nan := by
    rw [← hs.tileAt hg hin]
    exact getD_offset_tileAt (by rw [length_whole]; omega)
  have htile' : natAt l.tile d = ts.getD d 0 := hs.tile.natAt d
  have hinside : natAt (l.exactTile gs ts is).offset d < natAt l.domain d := by
    rw [hoff', hs.domain.natAt]
    exact hlt
  constructor
  case index => exact hindex
  case product =>
    have hle : natAt (l.exactTile gs ts is).id d * natAt l.tile d ≤
        Number.safeLimit := by
      rw [hid', htile']
      omega
    exact hindex.mul htile hle
  case starts => exact hstarts
  case inside => exact hinside
  case room =>
    have hle : natAt l.domain d - natAt (l.exactTile gs ts is).offset d ≤
        Number.safeLimit := by
      rw [hs.domain.natAt]
      omega
    change (l.domain.getD d .nan - _).IsWhole (natAt l.domain d - _)
    rw [hdomain.sub hstart hinside hle]
    exact Number.isWhole_ofNat hle

theorem Splits.countedExactly (hs : l.Splits gs ts)
    (hg : ∀ g ∈ gs, g ≤ Number.safeLimit) :
    l.CountedExactly (Shape.whole (Tiling.counts gs ts)) := by
  have hrank := hs.rank_eq
  have hlen : l.domain.length = ts.length := by rw [hs.domain.length_eq, hrank]
  have hcounts := Host.counts_le_safeLimit hs hg
  have hwhole := isWhole_whole hcounts
  constructor
  case rank => rw [length_whole, Tiling.length_counts hrank,
    hs.domain.length_eq]
  case whole =>
    intro d hd
    exact hwhole.getD (by rw [Tiling.length_counts hrank]; omega)
  case least =>
    intro d hd
    rw [hwhole.natAt, Tiling.getD_counts hrank (by omega), hs.domain.natAt,
      hs.tile.natAt]
    exact Tiling.isLeast_count (getD_pos hs.domain_pos (by omega))
      (getD_pos hs.tile_pos (by omega))
  case tiles =>
    intro index hindex d hd
    obtain ⟨is, hin, htile⟩ := hs.exists_of_mem_indices hg hindex
    rw [htile]
    exact hs.exactAt hg hin (by omega)

/-- **Counts are exact up to `Number.safeLimit`.** The quotient of two
positive whole numbers is the magnitude nearest to the exact quotient, and
where the dividend is at most the limit the two are the same when rounded up.
Hence the counts of a launch whose iteration space is within the limit are the
least that cover it, and no run computes a tile from a rounded product or
difference: the tiles that it hands to its body are the first of those that
the counts enumerate. -/
theorem counts_exact {ν : Type} :
    (∀ (g l : Nat) (y : Number),
      0 < g → g ≤ Number.safeLimit → 0 < l → y.IsWhole l →
      ∃ q : Magnitude, (∀ p : Magnitude, p.Nearest ((g : ℚ) / l) ↔ p = q) ∧
        ⌈q.value⌉₊ = ⌈(g : ℚ) / l⌉₊ ∧ .ofNat g / y = Number.finite false q ∧
        (.ofNat g / y : Number).ceil.IsWhole ⌈(g : ℚ) / l⌉₊) ∧
    ∀ l : Launch, l.check = .ok () →
      (∀ g ∈ l.domain, g.le (.ofNat Number.safeLimit) = true) →
      ∃ counts, l.counts = .ok counts ∧ l.CountedExactly counts ∧
        ∀ (id : Nat) (h : Host ν) (body : Tile → Act ν Completion),
          (h.driver id).phase = .idle →
          ∃ (k : Nat) (ending : Option Fault) (h' : Host ν),
            Host.run id l (Host.noting body) (h.withNotes []) =
              Host.ended ending
                (h'.withNotes
                  (((indices counts).map (l.tileAt counts)).take k)) := by
  constructor
  · intro g l y hg hle hl hy
    exact (Number.isWhole_ofNat hle).ceil_nearest hy hg hle hl
  · intro l hl hg
    have hs := splits_of_check hl
    have hle := domainNats_le hl hg
    refine ⟨_, hs.counts hl hle, hs.countedExactly hle, ?_⟩
    intro id h body hidle
    rw [hs.map_tileAt_indices hle]
    exact Host.exists_run_noting hl hg hidle body

/-- The limit divided by three, which is rounded, and a launch over a space of
as many columns in tiles of three. -/
theorem counts_exact_limit :
    let l : Launch := ⟨Shape.whole [Number.safeLimit, 5], Shape.whole [3, 7]⟩
    (∃ q : Magnitude,
      (∀ p : Magnitude,
        p.Nearest ((Number.safeLimit : ℚ) / (3 : Nat)) ↔ p = q) ∧
      ⌈q.value⌉₊ = ⌈(Number.safeLimit : ℚ) / (3 : Nat)⌉₊ ∧
      .ofNat Number.safeLimit / .ofNat 3 = Number.finite false q ∧
      (.ofNat Number.safeLimit / .ofNat 3 : Number).ceil.IsWhole
        ⌈(Number.safeLimit : ℚ) / (3 : Nat)⌉₊) ∧
    l.check = .ok () ∧
    ∃ counts, l.counts = .ok counts ∧ l.CountedExactly counts ∧
      ∀ (id : Nat) (h : Host Unit) (body : Tile → Act Unit Completion),
        (h.driver id).phase = .idle →
        ∃ (k : Nat) (ending : Option Fault) (h' : Host Unit),
          Host.run id l (Host.noting body) (h.withNotes []) =
            Host.ended ending
              (h'.withNotes
                (((indices counts).map (l.tileAt counts)).take k)) := by
  have hgs : ∀ g ∈ [Number.safeLimit, 5], 0 < g ∧ g ≤ Number.safeLimit := by
    decide
  have hts : ∀ t ∈ [3, 7], 0 < t ∧ t ≤ Number.safeLimit := by decide
  have hl : Launch.check ⟨Shape.whole [Number.safeLimit, 5],
      Shape.whole [3, 7]⟩ = .ok () :=
    check_iff.mpr ⟨_, _, splits_whole rfl hgs hts, by decide, by decide⟩
  obtain ⟨hdiv, hlaunch⟩ := counts_exact (ν := Unit)
  exact ⟨hdiv Number.safeLimit 3 (.ofNat 3) (by decide) le_rfl (by decide)
      (Number.isWhole_ofNat (by decide)), hl,
        hlaunch _ hl (whole_le_safeLimit hgs)⟩

end Launch

end TileGrid
