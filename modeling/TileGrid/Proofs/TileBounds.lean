import TileGrid.Proofs.ExactCounts

/-!
# Where the tiles of any accepted launch lie

Past `Number.safeLimit` the quotient that counts the tiles and the product that
says where one starts are rounded on their own. Each tile that is enumerated
starts inside the iteration space over the naturals, but the product may be
rounded up to the end of the space, and then the tile has no extent left. This
is the only way out of bounds, it takes an extent above the limit, and there is
a launch that meets it.
-/

namespace TileGrid

open RowMajor Shape

/-! ## Numbers of any size -/

namespace Number

/-- **A rounded quotient rounded up** is a whole number, and every held whole
number below it is below the exact quotient. -/
theorem IsWhole.exists_ceil_div {x y : Number} {g l : Nat} (hx : x.IsWhole g)
    (hy : y.IsWhole l) (hg : 0 < g) (hl : 0 < l) :
    ∃ c, 0 < c ∧ (x / y).ceil.IsWhole c ∧
      ∀ k, Format.binary64.Holds (k * unitsPerOne) → k < c → k * l < g := by
  have hu := unitsPerOne_pos
  obtain ⟨q, hunits, hdiv, -⟩ := hx.div_nearest hy hg hl
  have hpos : 0 < q.units := by
    rw [hunits]
    exact nearest_div_pos hy.holds hl hg
  have hceil : ∀ k, k < (q.units + (unitsPerOne - 1)) / unitsPerOne ↔
      k * unitsPerOne < q.units := by
    intro k
    rw [← Nat.add_sub_assoc hu]
    exact Tiling.lt_count_iff hpos hu
  refine ⟨(q.units + (unitsPerOne - 1)) / unitsPerOne, ?_, ?_,
    fun k hk hlt => ?_⟩
  · rw [hceil, Nat.zero_mul]
    exact hpos
  · rw [hdiv, ceil_finite]
    by_cases hle : (q.units + (unitsPerOne - 1)) / unitsPerOne ≤ safeLimit
    · exact isWhole_ofNat hle
    · -- past the limit the quotient is whole as it is
      obtain ⟨k, hk⟩ :=
        exists_whole_of_holds q.held ((hceil safeLimit).mp (by omega)).le
      have heq : (q.units + (unitsPerOne - 1)) / unitsPerOne = k := by
        rw [hk, Nat.add_comm, Nat.add_mul_div_right _ _ hu,
          Nat.div_eq_of_lt (by omega), Nat.zero_add]
      rw [heq]
      exact isWhole_ofNat_of_holds (hk ▸ q.held)
  · rw [hceil, hunits] at hlt
    by_contra hge
    have hmul : g * unitsPerOne * unitsPerOne ≤
        k * unitsPerOne * (l * unitsPerOne) := by
      calc g * unitsPerOne * unitsPerOne ≤ k * l * unitsPerOne * unitsPerOne :=
            Nat.mul_le_mul_right _ (Nat.mul_le_mul_right _ (Nat.not_lt.mp hge))
        _ = k * unitsPerOne * (l * unitsPerOne) := by ring
    have hle := hk.nearest_le (Nat.mul_pos hl hu) hmul
    omega

/-- The room from a start that is not past the end. It is zero just when the
start is at the end, for what is left of more is never rounded to zero. -/
theorem IsWhole.exists_room {x y : Number} {g o : Nat} (hx : x.IsWhole g)
    (hy : y.IsWhole o) (hle : o ≤ g) :
    ∃ r, (x - y).IsWhole r ∧ (r = 0 ↔ o = g) := by
  rcases Nat.lt_or_eq_of_le hle with hlt | rfl
  · obtain ⟨r, hpos, hr⟩ := hx.exists_sub hy hlt
    exact ⟨r, hr, by omega⟩
  · exact ⟨0, hx.sub_self hy, by simp⟩

/-- A whole number of the format is the value of a magnitude, which has
no other value. -/
theorem IsWhole.exists_value_iff {x : Number} {g o : Nat} (hx : x.IsWhole g) :
    (∃ p : Magnitude, p.value = g ∧ p.value = o) ↔ o = g := by
  constructor
  · rintro ⟨p, hg, ho⟩
    exact_mod_cast ho.symm.trans hg
  · rintro rfl
    exact ⟨⟨_, hx.holds⟩, Magnitude.value_eq_iff.mpr rfl,
      Magnitude.value_eq_iff.mpr rfl⟩

end Number

/-! ## Enumerations that need not end -/

namespace Shape

/-- A coordinate of the box that counting by ones can reach. -/
def Reached (counts : List Nat) (index : Index) : Prop :=
  ∃ is, IsWhole index is ∧ InBox counts is ∧ ∀ i ∈ is, i ≤ Number.safeLimit

variable {counts : Shape} {cs : List Nat}

/-- **One step** of the enumeration of a box of any size. -/
theorem reached_advance (hc : counts.IsWhole cs) {index : Index}
    (h : Reached cs index) :
    Reached cs (advance counts index).1 := by
  induction hc generalizing index with
  | nil =>
      obtain ⟨is, hi, hin, -⟩ := h
      cases hin
      cases hi
      exact ⟨[], .nil, .nil, by simp⟩
  | @cons x c counts cs hx _ ih =>
      obtain ⟨is, hi, hin, hlim⟩ := h
      cases hin with
      | @cons m _ is _ hlt hin =>
          cases hi with
          | @cons i _ index _ hm hi =>
              obtain ⟨hmle, hlim⟩ := List.forall_mem_cons.mp hlim
              obtain ⟨js, hjs, hinjs, hjlim⟩ := ih ⟨is, hi, hin, hlim⟩
              cases hstep : advance counts index with
              | mk rest carry =>
                  rw [hstep] at hjs
                  cases carry with
                  | false =>
                      rw [advance_cons_false hstep]
                      exact ⟨m :: js, .cons hm hjs, .cons hlt hinjs,
                        List.forall_mem_cons.mpr ⟨hmle, hjlim⟩⟩
                  | true =>
                      rw [advance_cons_true hstep]
                      obtain ⟨k, hkle, hk⟩ := hm.add_one hmle
                      by_cases hroom : (i + 1).lt x = true
                      · rw [if_pos hroom]
                        rw [hk.lt hx, decide_eq_true_eq] at hroom
                        exact ⟨k :: js, .cons hk hjs, .cons hroom hinjs,
                          List.forall_mem_cons.mpr ⟨hkle, hjlim⟩⟩
                      · rw [if_neg hroom]
                        exact ⟨0 :: js, .cons Number.isWhole_zero hjs,
                          .cons (by omega) hinjs,
                          List.forall_mem_cons.mpr ⟨Nat.zero_le _, hjlim⟩⟩

theorem reached_of_next? (hc : counts.IsWhole cs) {index next : Index}
    (h : Reached cs index) (hnext : next? counts index = some next) :
    Reached cs next := by
  have hstep := reached_advance hc h
  unfold next? at hnext
  split at hnext
  · rename_i hadvance
    cases hnext
    rwa [hadvance] at hstep
  · cases hnext

theorem reached_of_first? (hc : counts.IsWhole cs) {index : Index}
    (h : first? counts = some index) : Reached cs index := by
  rw [first?_eq hc, cursor] at h
  split at h
  · rename_i hprod
    cases h
    have hzero : ∀ i ∈ coordinate cs 0, i ≤ Number.safeLimit := by
      simp [coordinate_zero]
    exact ⟨coordinate cs 0, isWhole_whole hzero, inBox_coordinate hprod, hzero⟩
  · cases h

theorem reached_of_mem_takeFrom (hc : counts.IsWhole cs) {n : Nat}
    {cursor : Option Index}
    (hcursor : ∀ index, cursor = some index → Reached cs index) :
    ∀ index ∈ (takeFrom counts n cursor).1, Reached cs index := by
  induction n generalizing cursor with
  | zero => cases cursor <;> simp [takeFrom]
  | succ n ih =>
      cases cursor with
      | none => simp [takeFrom]
      | some index =>
          have hindex := hcursor index rfl
          rw [takeFrom]
          refine List.forall_mem_cons.mpr ⟨hindex, ih fun next hnext => ?_⟩
          exact reached_of_next? hc hindex hnext

theorem reached_of_mem_take (hc : counts.IsWhole cs) (n : Nat) :
    ∀ index ∈ (take counts n).1, Reached cs index :=
  reached_of_mem_takeFrom hc fun _ => reached_of_first? hc

end Shape

/-! ## Tiles -/

/-- In one dimension, a tile starts inside the iteration space, is not empty
and not larger than nominal. The comparisons are those of the numbers that
it consists of. -/
def Tile.InBounds (t : Tile) (d : Nat) : Prop :=
  (Number.le 0 (t.offset.getD d .nan) = true ∧
    (t.offset.getD d .nan).lt (t.domain.getD d .nan) = true) ∧
  Number.le 1 (t.shape.getD d .nan) = true ∧
    (t.shape.getD d .nan).le (t.nominal.getD d .nan) = true

/-- What holds of a tile in one dimension, however large the numbers are. -/
structure Tile.Placed (t : Tile) (d : Nat) : Prop where
  /-- Over the naturals, the tile starts inside the space. -/
  starts : natAt t.id d * natAt t.nominal d < natAt t.domain d
  /-- As computed it starts there or at the end. -/
  offset : Number.le 0 (t.offset.getD d .nan) = true ∧
    (t.offset.getD d .nan).le (t.domain.getD d .nan) = true
  shape : Number.le 0 (t.shape.getD d .nan) = true ∧
    (t.shape.getD d .nan).le (t.nominal.getD d .nan) = true
  /-- It is in bounds unless the exact start is rounded to the end of
  the space. -/
  inBounds_iff : t.InBounds d ↔ ¬ ∃ p : Magnitude, p.value = natAt t.domain d ∧
    p.Nearest ((natAt t.id d : ℚ) * natAt t.nominal d)
  /-- Where it is, the tile lies at the end and is empty. -/
  empty : ¬ t.InBounds d → t.offset.getD d .nan = t.domain.getD d .nan ∧
    (t.shape.getD d .nan).IsWhole 0
  /-- Up to the limit it is not. -/
  limit : natAt t.domain d ≤ Number.safeLimit → t.InBounds d

/-- A tile in one dimension, from how its start and its extent are computed. -/
theorem Tile.Placed.of_components {t : Tile} {d : Nat}
    (hi : (t.id.getD d .nan).IsWhole (natAt t.id d))
    (hx : (t.domain.getD d .nan).IsWhole (natAt t.domain d))
    (hy : (t.nominal.getD d .nan).IsWhole (natAt t.nominal d))
    (hl : 0 < natAt t.nominal d)
    (hstart : natAt t.id d * natAt t.nominal d < natAt t.domain d)
    (hoffset : t.offset.getD d .nan = t.id.getD d .nan * t.nominal.getD d .nan)
    (hshape : t.shape.getD d .nan =
      Number.min (t.nominal.getD d .nan)
        (t.domain.getD d .nan - t.offset.getD d .nan)) :
    t.Placed d := by
  -- `o` is the start as computed and `r` the room from there
  obtain ⟨o, hog, hprod, hnear⟩ := hi.mul_nearest hy hx hstart.le
  rw [← hoffset] at hprod
  obtain ⟨r, hr, hzero⟩ := hx.exists_room hprod hog
  have hextent := hy.min hr
  rw [← hshape] at hextent
  have hbounds : t.InBounds d ↔ o < natAt t.domain d := by
    unfold Tile.InBounds
    rw [Number.isWhole_zero.le hprod, hprod.lt hx,
      Number.isWhole_one.le hextent, hextent.le hy]
    simp only [decide_eq_true_eq]
    omega
  constructor
  case starts => exact hstart
  case offset =>
    rw [Number.isWhole_zero.le hprod, hprod.le hx]
    simp only [decide_eq_true_eq]
    omega
  case shape =>
    rw [Number.isWhole_zero.le hextent, hextent.le hy]
    simp only [decide_eq_true_eq]
    omega
  case inBounds_iff =>
    simp only [hnear]
    rw [hx.exists_value_iff, hbounds]
    omega
  case empty =>
    intro hout
    rw [hbounds] at hout
    obtain rfl : o = natAt t.domain d := by omega
    obtain rfl : r = 0 := hzero.mpr rfl
    refine ⟨?_, by simpa using hextent⟩
    rw [hprod.eq_ofNat (by omega), hx.eq_ofNat (by omega)]
  case limit =>
    intro hlim
    have hexact := hi.mul hy (by omega)
    rw [← hoffset] at hexact
    rw [hbounds, hprod.unique hexact]
    exact hstart

namespace Launch

variable {l : Launch} {gs ts : List Nat}

theorem Splits.exists_count (hs : l.Splits gs ts) {d : Nat}
    (hd : d < l.domain.length) :
    ∃ c, 0 < c ∧
      ((pairWith (fun g t => (g / t).ceil) l.domain l.tile).getD d
        .nan).IsWhole c ∧ ∀ k, Format.binary64.Holds (k * unitsPerOne) → k < c →
        k * natAt l.tile d < natAt l.domain d := by
  have hrank := hs.rank_eq
  have hlen := hs.domain.length_eq
  have hg := getD_pos hs.domain_pos (d := d) (by omega)
  have ht := getD_pos hs.tile_pos (d := d) (by omega)
  rw [← hs.domain.natAt] at hg
  rw [← hs.tile.natAt] at ht
  obtain ⟨c, hpos, hc, hlt⟩ :=
    (hs.domain.getD (d := d) (by omega)).exists_ceil_div
      (hs.tile.getD (by omega)) hg ht
  rw [getD_pairWith _ _ hd]
  exact ⟨c, hpos, hc, hlt⟩

/-- The counts of an accepted launch are positive whole numbers. -/
theorem Splits.exists_counts (hs : l.Splits gs ts) :
    ∃ cs, (pairWith (fun g t => (g / t).ceil) l.domain l.tile).IsWhole cs ∧
      ∀ c ∈ cs, 0 < c := by
  rw [← all_isPositive_iff, List.all_eq_true]
  intro x hx
  obtain ⟨d, hd, rfl⟩ := List.mem_iff_getElem.mp hx
  obtain ⟨c, hpos, hc, -⟩ :=
    hs.exists_count (d := d) (by rwa [length_pairWith] at hd)
  rw [List.getD_eq_getElem _ _ hd] at hc
  exact isPositive_iff.mpr ⟨c, hpos, hc⟩

/-- **Every tile that an accepted launch enumerates is in bounds, unless its
start is rounded to the end of the iteration space.** Nothing bounds the
extents here: the enumeration starts at the corner, need not end, and is taken
as far as one likes. -/
theorem bounds_of_any_size (hl : l.check = .ok ()) :
    ∃ counts, l.counts = .ok counts ∧ first? counts = some (corner counts) ∧
      ∀ n, ∀ index ∈ (take counts n).1, ∀ d < l.domain.length,
        (l.tileAt counts index).Placed d := by
  have hs := splits_of_check hl
  have hrank := hs.rank_eq
  have hlen := hs.domain.length_eq
  obtain ⟨cs, hcs, hpos⟩ := hs.exists_counts
  have hcounts :
      l.counts = .ok (pairWith (fun g t => (g / t).ceil) l.domain l.tile) := by
    unfold Launch.counts
    rw [hl]
    rfl
  have hcslen : cs.length = l.domain.length := by
    rw [← hcs.length_eq, length_pairWith]
  have hfirst := first?_eq hcs
  rw [cursor, if_pos (prod_pos_iff.mpr hpos), ← corner_eq hcs] at hfirst
  refine ⟨_, hcounts, hfirst, fun n index hindex d hd => ?_⟩
  obtain ⟨is, hi, hin, hlim⟩ := reached_of_mem_take hcs n index hindex
  have hislen := length_of_inBox hin
  have hilen := hi.length_eq
  -- the index is below the count, and so its tile starts inside
  obtain ⟨c, -, hc, hbelow⟩ := hs.exists_count hd
  have hceq : natAt (pairWith (fun g t => (g / t).ceil) l.domain l.tile) d =
      c :=
    (hcs.getD (by omega)).unique hc
  have hlt := (inBox_iff.mp hin).2 d (by omega)
  rw [← hi.natAt, ← hcs.natAt, hceq] at hlt
  have hile : natAt index d ≤ Number.safeLimit := by
    rw [hi.natAt, List.getD_eq_getElem _ _ (by omega)]
    exact hlim _ (List.getElem_mem _)
  have hstart := hbelow _ (Number.holds_whole hile) hlt
  have ht := getD_pos hs.tile_pos (d := d) (by omega)
  rw [← hs.tile.natAt] at ht
  exact Tile.Placed.of_components (hi.getD (by omega))
    (hs.domain.getD (by omega))
    (hs.tile.getD (by omega)) ht hstart (getD_offset_tileAt (by omega))
    (getD_shape_tileAt (by omega))

/-- A launch of three times the limit less sixteen, in tiles of the
limit less six. -/
def overshooting : Launch :=
  ⟨[.ofNat 27021597764222960], [.ofNat 9007199254740986]⟩

theorem check_overshooting : overshooting.check = .ok () :=
  if_pos (by decide +kernel)

theorem bounds_of_any_size_overshooting :
    overshooting.check = .ok () ∧
    ∃ counts, overshooting.counts = .ok counts ∧
      first? counts = some (corner counts) ∧
      ∀ n, ∀ index ∈ (take counts n).1, ∀ d < overshooting.domain.length,
        (overshooting.tileAt counts index).Placed d :=
  ⟨check_overshooting, bounds_of_any_size check_overshooting⟩

/-- **A tile past the end.** The launch is accepted, it has four tiles, and
the start of the last, two below the end of the space, is rounded to the end:
the tile is empty. -/
theorem tile_past_end :
    overshooting.check = .ok () ∧ overshooting.counts = .ok [.ofNat 4] ∧
    (take [.ofNat 4] 5) =
      ([[.ofNat 0], [.ofNat 1], [.ofNat 2], [.ofNat 3]], true) ∧
    (overshooting.tileAt [.ofNat 4] [.ofNat 3]).offset = overshooting.domain ∧
    (overshooting.tileAt [.ofNat 4] [.ofNat 3]).shape = [.ofNat 0] ∧
    ¬ (overshooting.tileAt [.ofNat 4] [.ofNat 3]).InBounds 0 := by
  have hcounts : overshooting.counts = .ok [.ofNat 4] := by
    have hpair : pairWith (fun g t => (g / t).ceil) overshooting.domain
        overshooting.tile = [.ofNat 4] := by decide +kernel
    unfold Launch.counts
    rw [check_overshooting, ← hpair]
    rfl
  refine ⟨check_overshooting,
    hcounts, by decide +kernel, by decide +kernel, by decide +kernel, ?_⟩
  rintro ⟨⟨-, hlt⟩, -⟩
  revert hlt
  decide +kernel

end Launch

end TileGrid
