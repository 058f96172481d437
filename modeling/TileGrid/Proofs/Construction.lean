import TileGrid.Proofs.Block
import TileGrid.Proofs.Shape.Size

/-!
# Whatever makes an array makes a sound one

Arrays are made of zeros, of one value, of a range or of given values. All
of these fail or give a sound array, whatever they are asked for: extents
that are no extents are refused, sizes are compared as rounded products,
and every cell is written through the conversion of the kind. Single writes
keep an array sound.
-/

namespace TileGrid

open RowMajor Shape

theorem bind_eq_ok {ε α β : Type} {x : Except ε α}
    {f : α → Except ε β} {r : β} :
    (x >>= f) = .ok r ↔ ∃ a, x = .ok a ∧ f a = .ok r := by
  cases x with
  | error e =>
      constructor
      · intro h
        cases h
      · rintro ⟨a, ha, -⟩
        cases ha
  | ok a =>
      constructor
      · exact fun h => ⟨a, rfl, h⟩
      · rintro ⟨a', ha, h⟩
        cases ha
        exact h

theorem map_eq_ok {ε α β : Type} {x : Except ε α} {f : α → β} {r : β} :
    f <$> x = .ok r ↔ ∃ a, x = .ok a ∧ f a = r := by
  cases x with
  | error e => simp [Functor.map, Except.map]
  | ok a => simp [Functor.map, Except.map]

theorem mapM_ok {ε α β : Type} {f : α → Except ε β} {xs : List α} {ys : List β}
    (h : xs.mapM f = .ok ys) : List.Forall₂ (fun x y => f x = .ok y) xs ys := by
  induction xs generalizing ys with
  | nil =>
      rw [List.mapM_nil] at h
      cases h
      exact .nil
  | cons x xs ih =>
      rw [List.mapM_cons] at h
      obtain ⟨y, hy, h⟩ := bind_eq_ok.mp h
      obtain ⟨ys', hys, h⟩ := bind_eq_ok.mp h
      cases h
      exact .cons hy (ih hys)

theorem mapM_of_forall {ε α β : Type} {f : α → Except ε β} {g : α → β}
    {xs : List α} (h : ∀ x ∈ xs, f x = .ok (g x)) :
    xs.mapM f = .ok (xs.map g) := by
  induction xs with
  | nil => rfl
  | cons x xs ih =>
      obtain ⟨hx, h⟩ := List.forall_mem_cons.mp h
      rw [List.mapM_cons, hx, ih h]
      rfl

namespace Block

variable {b : Block} {ns : List Nat}

/-- Only a size below the limit gets cells. -/
theorem freshCells_ok {kind : Kind} {shape : Shape} {cells : Array Element}
    (h : shape.IsWhole ns) (hc : freshCells kind shape.size = .ok cells) :
    ns.prod < Number.safeLimit := by
  rcases h.size_cases with ⟨h0, -⟩ | ⟨-, hlt, -⟩ | ⟨-, hlarge⟩
  · rw [h0]
    decide
  · exact hlt
  · -- however the product was rounded, it is not below the limit
    have hlim := Number.isWhole_ofNat (le_refl Number.safeLimit)
    rw [freshCells, hlarge.isNaN, hlarge.lt hlim (le_refl _)] at hc
    cases hc

theorem checkExtents_ok {shape : Shape} (h : shape.checkExtents = .ok ()) :
    ∃ ns, shape.IsWhole ns := by
  unfold checkExtents at h
  split at h
  · rename_i hall
    exact all_isExtent_iff.mp hall
  · cases h

theorem sound_of_zeros {kind : Kind} {shape : Shape}
    (h : zeros kind shape = .ok b) :
    ∃ ns, b.Sound ns := by
  unfold zeros at h
  obtain ⟨⟨⟩, hcheck, h⟩ := bind_eq_ok.mp h
  obtain ⟨cells, hcells, h⟩ := bind_eq_ok.mp h
  obtain ⟨ns, hs⟩ := checkExtents_ok hcheck
  have hlt := freshCells_ok hs hcells
  rw [freshCells_eq hs hlt] at hcells
  cases hcells
  cases h
  exact ⟨ns, sound_zeros hs hlt kind⟩

theorem sound_of_zerosNamed {name : String} {shape : Shape}
    (h : zerosNamed name shape = .ok b) :
    ∃ ns, b.Sound ns := by
  unfold zerosNamed at h
  obtain ⟨⟨⟩, -, h⟩ := bind_eq_ok.mp h
  obtain ⟨kind, -, h⟩ := bind_eq_ok.mp h
  exact sound_of_zeros h

/-- An array whose cells were all written anew, one for each. -/
theorem Sound.ofWritten {α : Type} (hb : b.Sound ns)
    {f : α → Except Fault Element} {xs : List α} {es : List Element}
    (hes : xs.mapM f = .ok es) (hlen : xs.length = ns.prod)
    (hf : ∀ x e, f x = .ok e → b.kind.Holds e) :
    Sound { b with cells := es.toArray } ns := by
  have hwritten := mapM_ok hes
  apply hb.withCells
  · rw [hb.size, ← hlen, hwritten.length_eq, List.size_toArray]
  · intro e he
    obtain ⟨d, hd, rfl⟩ := List.mem_iff_getElem.mp (List.mem_toArray.mp he)
    have hx := (List.forall₂_iff_get.mp hwritten).2 d
      (by rw [hwritten.length_eq]; exact hd) hd
    exact hf _ _ hx

theorem sound_of_full {name : String} {shape : Shape} {value : Element}
    (h : full name shape value = .ok b) : ∃ ns, b.Sound ns := by
  unfold full at h
  obtain ⟨z, hz, h⟩ := bind_eq_ok.mp h
  obtain ⟨cells, hcells, h⟩ := bind_eq_ok.mp h
  cases h
  rw [Array.mapM_eq_mapM_toList] at hcells
  obtain ⟨es, hes, hcells⟩ := map_eq_ok.mp hcells
  obtain ⟨ns, hns⟩ := sound_of_zerosNamed hz
  subst hcells
  exact ⟨ns, hns.ofWritten hes hns.size fun _ _ => Kind.holds_of_convert⟩

/-- Values that are as many as the size says are as many as the
array has cells. -/
theorem Sound.length_of_eqv (hb : b.Sound ns) {n : Nat}
    (h : Number.eqv (.ofNat n) b.size = true) :
    n = ns.prod := by
  have hw := hb.shape.isWhole_of_eqv_size hb.bound (isPlain_round _ _ _ _) h
  by_cases hn : n < Number.safeLimit
  · exact (Number.isWhole_ofNat (Nat.le_of_lt hn)).unique hw
  · -- no array has so many cells
    have hge := (isLarge_ofNat (Nat.le_of_not_lt hn)).le_of_isWhole hw
    have := hb.bound
    omega

theorem sound_of_ofValues {name : String} {values : List Element}
    {shape? : Option Shape} (h : ofValues name values shape? = .ok b) :
    ∃ ns, b.Sound ns := by
  unfold ofValues at h
  obtain ⟨z, hz, h⟩ := bind_eq_ok.mp h
  obtain ⟨ns, hns⟩ := sound_of_zerosNamed hz
  split at h
  · rename_i heq
    obtain ⟨es, hes, h⟩ := bind_eq_ok.mp h
    cases h
    exact ⟨ns, hns.ofWritten hes (hns.length_of_eqv heq) fun _ _ =>
      Kind.holds_of_convert⟩
  · cases h

section Fills

variable {kind : Kind} {values : List Element} {shape? : Option Shape}

/-- Values for a kind and a shape: of the sort of the kind, and as many as the
size of the shape says. Without a shape they stand in one row. -/
structure Fills (kind : Kind) (values : List Element) (shape? : Option Shape)
    (ns : List Nat) :
    Prop where
  suits : ∀ v ∈ values, kind.Suits v
  extents : (shape?.getD [.ofNat values.length]).IsWhole ns
  size : Number.eqv (.ofNat values.length)
    (shape?.getD [.ofNat values.length]).size = true
  bound : values.length < Number.safeLimit

theorem Fills.prod_eq (hf : Fills kind values shape? ns) :
    ns.prod = values.length :=
  hf.extents.prod_eq_of_eqv (Number.isWhole_ofNat (Nat.le_of_lt hf.bound))
    hf.bound hf.size

theorem Fills.prod_lt (hf : Fills kind values shape? ns) :
    ns.prod < Number.safeLimit := by
  rw [hf.prod_eq]
  exact hf.bound

theorem Fills.mapM_convert (hf : Fills kind values shape? ns) :
    values.mapM kind.convert = .ok (values.map kind.written) :=
  mapM_of_forall fun v hv => (hf.suits v hv).convert

/-- **What values in row-major order give.** -/
theorem ofValues_eq (hf : Fills kind values shape? ns) :
    ofValues kind.name values shape? =
      .ok ⟨kind, shape?.getD [.ofNat values.length],
        (values.map kind.written).toArray⟩ := by
  refine bind_eq_ok.mpr ⟨_, zerosNamed_eq hf.extents hf.prod_lt kind, ?_⟩
  refine (if_pos hf.size).trans ?_
  exact bind_eq_ok.mpr ⟨_, hf.mapM_convert, rfl⟩

theorem sound_of_fills (hf : Fills kind values shape? ns) :
    Sound ⟨kind, shape?.getD [.ofNat values.length],
      (values.map kind.written).toArray⟩ ns :=
  (sound_zeros hf.extents hf.prod_lt kind).ofWritten hf.mapM_convert
    hf.prod_eq.symm
    fun _ _ => Kind.holds_of_convert

end Fills

/-- What a range counts up to is a number. -/
theorem isPlain_max_ceil (stop : Number) :
    IsPlain (Number.max 0 stop.ceil) := by
  have hceil : IsPlain stop.ceil := by
    intro s
    unfold Number.ceil
    split
    · simp
    · exact isPlain_round _ _ _ _ s
    · simp
  have hcounted : stop.ceil.counted = stop.ceil := by
    cases h : stop.ceil with
    | stray s => exact absurd h (hceil s)
    | nan => rfl
    | infinite s => rfl
    | finite s m => rfl
  have hzero := isPlain_of_isWhole Number.isWhole_zero
  unfold Number.max
  rw [hcounted, Number.isWhole_zero.counted]
  repeat' split
  · simp [IsPlain]
  all_goals assumption

theorem sound_of_range {name : String} {stop : Number} {shape? : Option Shape}
    (h : range name stop shape? = .ok b) : ∃ ns, b.Sound ns := by
  unfold range at h
  split at h
  · cases h
  · obtain ⟨z, hz, h⟩ := bind_eq_ok.mp h
    obtain ⟨ns, hns⟩ := sound_of_zerosNamed hz
    split at h
    · rename_i heq
      obtain ⟨es, hes, h⟩ := bind_eq_ok.mp h
      cases h
      have hcount : (Number.max 0 stop.ceil).IsWhole ns.prod :=
        hns.shape.isWhole_of_eqv_size hns.bound (isPlain_max_ceil stop)
          (by rwa [eqv_comm])
      refine ⟨ns,
        hns.ofWritten hes (by rw [List.length_range, hcount.toNat]) ?_⟩
      intro i e he
      obtain ⟨v, -, hv⟩ := bind_eq_ok.mp he
      exact Kind.holds_of_convert hv
    · cases h

/-! ## Writes -/

theorem place_ok {index : Index} {value e : Element} {p : Nat}
    (h : b.place index value = .ok (p, e)) : b.kind.convert value = .ok e := by
  unfold place at h
  obtain ⟨q, -, h⟩ := bind_eq_ok.mp h
  obtain ⟨e', he, h⟩ := bind_eq_ok.mp h
  split at h
  · cases h
    exact he
  · cases h

theorem Sound.of_set (hb : b.Sound ns) {index : Index} {value : Element}
    {b' : Block} (h : b.set index value = .ok b') : b'.Sound ns := by
  unfold set at h
  obtain ⟨⟨p, e⟩, hplace, h⟩ := bind_eq_ok.mp h
  cases h
  exact hb.setCell p (Kind.holds_of_convert (place_ok hplace))

end Block

namespace Masked

theorem values_of_make {b : Block} {valid : Shape} {m : Masked}
    (h : make b valid = .ok m) :
    m.values = b := by
  unfold make at h
  split at h
  · cases h
    rfl
  · cases h

theorem sound_of_scratch {shape : Shape} {name : String} {m : Masked}
    (h : scratch shape name = .ok m) : ∃ ns, m.values.Sound ns := by
  unfold scratch at h
  split at h
  · cases h
  · obtain ⟨b, hb, h⟩ := bind_eq_ok.mp h
    rw [values_of_make h]
    exact Block.sound_of_zerosNamed hb

end Masked

end TileGrid
