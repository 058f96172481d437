import TileGrid.Proofs.Along
import TileGrid.Proofs.Construction
import TileGrid.Proofs.Transfer

/-!
# What loads and stores do on any input

A load is refused for its shape, for its origin or for its size, in this order,
and otherwise it succeeds, however far its origin lies outside the array. What
it gives is then said coordinate by coordinate (`Buffer.Loaded`), and so is what
a store leaves (`Buffer.Stored`): neither mentions how the valid box is worked
out. A store of what was loaded from the same place changes nothing
(`Buffer.store_loaded`).
-/

namespace TileGrid

open RowMajor Shape

variable {ν : Type}

/-- The sort of the fault that an action ended with, if it ended with one. -/
def endedIn? {σ α : Type} : EStateM.Result Fault σ α → Option FaultClass
  | .ok _ _ => none
  | .error f _ => some f.sort

/-! ## Refused transfers -/

namespace Transfer

/-- The box does not have the rank of the array, or its place has not, or an
extent of it is not a whole number. -/
def Misshapen (extent : Shape) (origin : Index) (shape : Shape) : Prop :=
  shape.length ≠ extent.length ∨ origin.length ≠ extent.length ∨
    ∃ s ∈ shape, ∀ n, ¬ s.IsWhole n

/-- A component of the origin is not a whole number. -/
def Misplaced (origin : Index) : Prop := ∃ o ∈ origin, ∀ n, ¬ o.IsWhole n

theorem all_isExtent_or (shape : Shape) :
    (∃ ns, shape.IsWhole ns) ∨
      shape.all Number.isExtent = false ∧ ∃ s ∈ shape, ∀ n, ¬ s.IsWhole n := by
  by_cases hall : shape.all Number.isExtent = true
  · exact .inl (all_isExtent_iff.mp hall)
  · right
    rw [Bool.not_eq_true] at hall
    refine ⟨hall, ?_⟩
    obtain ⟨s, hs, hextent⟩ := List.all_eq_false.mp hall
    refine ⟨s, hs, fun n hn => hextent ?_⟩
    exact Number.isExtent_iff.mpr ⟨n, hn⟩

theorem not_exists_of_isWhole {shape : Shape} {ns : List Nat}
    (h : shape.IsWhole ns) :
    ¬ ∃ s ∈ shape, ∀ n, ¬ s.IsWhole n := by
  rintro ⟨s, hs, hnone⟩
  have hall := all_isExtent_iff.mpr ⟨ns, h⟩
  obtain ⟨n, hn⟩ := Number.isExtent_iff.mp (List.all_eq_true.mp hall s hs)
  exact hnone n hn

variable {extent origin shape : Shape}

theorem check_of_misshapen (h : Misshapen extent origin shape) :
    ∃ f, check extent origin shape = .error f ∧ f.sort = .shape := by
  unfold check
  by_cases hrank : shape.length ≠ extent.length ∨ origin.length ≠ extent.length
  · exact ⟨_, if_pos hrank, rfl⟩
  · rcases all_isExtent_or shape with ⟨ss, hs⟩ | ⟨hall, -⟩
    · rcases h with hlen | hlen | hnone
      · exact absurd (.inl hlen) hrank
      · exact absurd (.inr hlen) hrank
      · exact absurd hnone (not_exists_of_isWhole hs)
    · rw [if_neg hrank, hall]
      exact ⟨_, rfl, rfl⟩

theorem check_of_misplaced (hshape : ¬ Misshapen extent origin shape)
    (h : Misplaced origin) :
    check extent origin shape = .error (.transferOrigin origin) := by
  rw [Misshapen, not_or, not_or] at hshape
  obtain ⟨hshapes, horigins, hextents⟩ := hshape
  have hall : shape.all Number.isExtent = true := by
    rcases all_isExtent_or shape with hs | ⟨-, hnone⟩
    · exact all_isExtent_iff.mpr hs
    · exact absurd hnone hextents
  have hnot : origin.all Number.isExtent = false := by
    rcases all_isExtent_or origin with ⟨os, ho⟩ | ⟨hall, -⟩
    · exact absurd h (not_exists_of_isWhole ho)
    · exact hall
  rw [check, if_neg (not_or.mpr ⟨hshapes, horigins⟩), hall, hnot]
  rfl

/-- What is neither is a box of whole extents at a whole origin, of the
rank of the array. -/
theorem whole_of_not (hshape : ¬ Misshapen extent origin shape)
    (horigin : ¬ Misplaced origin) :
    ∃ os ss, IsWhole origin os ∧ shape.IsWhole ss ∧ os.length = extent.length ∧
      ss.length = extent.length := by
  rw [Misshapen, not_or, not_or, not_ne_iff, not_ne_iff] at hshape
  obtain ⟨hshapes, horigins, hextents⟩ := hshape
  rcases all_isExtent_or origin with ⟨os, ho⟩ | ⟨-, hnone⟩
  · rcases all_isExtent_or shape with ⟨ss, hs⟩ | ⟨-, hnone⟩
    · exact ⟨os, ss, ho,
        hs, by rw [← ho.length_eq, horigins], by rw [← hs.length_eq, hshapes]⟩
    · exact absurd hnone hextents
  · exact absurd hnone horigin

theorem not_misshapen {os ss : List Nat} (hs : shape.IsWhole ss)
    (ho : IsWhole origin os) (hos : os.length = extent.length)
    (hss : ss.length = extent.length) :
    ¬ Misshapen extent origin shape := by
  rintro (hlen | hlen | hnone)
  · exact hlen (by rw [hs.length_eq, hss])
  · exact hlen (by rw [ho.length_eq, hos])
  · exact not_exists_of_isWhole hs hnone

end Transfer

/-- A fresh array that would have too many cells is not made. -/
theorem Block.zeros_of_large {shape : Shape} {ss : List Nat}
    (hs : shape.IsWhole ss) (hge : Number.safeLimit ≤ ss.prod) (kind : Kind) :
    zeros kind shape = .error .tooLarge := by
  have hlim := Number.isWhole_ofNat (le_refl Number.safeLimit)
  have hlarge : IsLarge shape.size := by
    rcases hs.size_cases with ⟨h0, -⟩ | ⟨-, hlt, -⟩ | ⟨-, hlarge⟩
    · have : 0 < Number.safeLimit := by decide
      omega
    · omega
    · exact hlarge
  unfold zeros checkExtents freshCells
  rw [if_pos (all_isExtent_iff.mpr ⟨ss, hs⟩), hlarge.isNaN,
    hlarge.lt hlim (le_refl _)]
  rfl

/-! ## Buffers, coordinate by coordinate -/

/-- A leading box covers its coordinates. -/
theorem Shape.covers_iff_inBox {valid : Shape} {vs : List Nat}
    (hv : valid.IsWhole vs) {index : Index} {c : List Nat}
    (hi : IsWhole index c) : valid.covers index = true ↔ InBox vs c := by
  unfold covers
  rw [Bool.and_eq_true, beq_iff_eq]
  constructor
  · rintro ⟨hlen, hpairs⟩
    obtain ⟨is, his, hin⟩ := (allPairs_inExtent_iff hv hlen).mp hpairs
    rw [hi.unique his]
    exact hin
  · intro hin
    have hlen : index.length = valid.length := by
      rw [hi.length_eq, hv.length_eq, length_of_inBox hin]
    exact ⟨hlen, (allPairs_inExtent_iff hv hlen).mpr ⟨c, hi, hin⟩⟩

namespace Buffer

variable {h : Host ν} {b : Buffer} {ss vs : List Nat} {index : Index}
  {c : List Nat}

theorem get_of_covers (hb : b.values.Sound h ss) (hi : IsWhole index c)
    (hin : InBox ss c) (hcovers : b.valid.covers index = true) :
    b.get index h = .ok (some ((b.values.block h).elem ss c)) h := by
  have hget : (b.masked h).values.get index = _ := hb.block.get_eq hi hin
  unfold Buffer.get Masked.get
  rw [show (b.masked h).valid.covers index = true from hcovers,
    if_pos rfl, hget]
  rfl

theorem get_of_not_covers (hcovers : ¬ b.valid.covers index = true) :
    b.get index h = .ok none h := by
  unfold Buffer.get Masked.get
  rw [if_neg (show ¬ (b.masked h).valid.covers index = true from hcovers)]
  rfl

end Buffer

/-! ## Loads -/

namespace Buffer

/-- What a load from the origin `os` gives: a buffer on storage of its own in
which exactly those coordinates of the box are valid whose place lies inside the
array, with the element that the array holds there. -/
structure Loaded (t : Tensor) (ns os ss : List Nat) (shape : Shape) (h : Host ν)
    (b : Buffer) (h' : Host ν) : Prop where
  kind : b.values.kind = t.kind
  shape : b.values.shape = shape
  fresh : b.values.storage = h.storages.size
  covers_iff : ∀ index c, IsWhole index c → InBox ss c →
    (b.valid.covers index = true ↔ InBox ns (shift os c))
  inside : ∀ index c, IsWhole index c → InBox ss c → InBox ns (shift os c) →
    ∃ e, t.get (whole (shift os c)) h = .ok e h ∧
      b.get index h' = .ok (some e) h'
  outside : ∀ index c, IsWhole index c → InBox ss c → ¬ InBox ns (shift os c) →
    b.get index h' = .ok none h'

variable {h : Host ν} {t : Tensor} {ns os ss : List Nat} {origin shape : Shape}

theorem load_of_check {a : Backing (Host ν)} {f : Fault}
    (hcheck : Transfer.check a.shape origin shape = .error f) :
    load ⟨a, origin⟩ shape h = .error f h := by
  show (do
    let m ← Transfer.load ⟨a, origin⟩ shape
    allocate m : Act ν Buffer) h = _
  unfold Transfer.load
  rw [hcheck]
  rfl

theorem load_of_large (ht : t.Sound h ns) (ho : IsWhole origin os)
    (hos : os.length = ns.length) (hs : shape.IsWhole ss)
    (hss : ss.length = ns.length) (hge : Number.safeLimit ≤ ss.prod) :
    load ⟨t.backing, origin⟩ shape h = .error .tooLarge h := by
  have hn : t.shape.IsWhole ns := ht.block.shape
  show (do
    let m ← Transfer.load ⟨t.backing, origin⟩ shape
    allocate m : Act ν Buffer) h = _
  unfold Transfer.load
  rw [show Transfer.check (Slice.array ⟨t.backing, origin⟩).shape origin
    shape = _ from
      Transfer.check_eq hn ho hs hos hss,
    show Block.zeros (Slice.array ⟨t.backing, origin⟩).kind shape = _ from
      Block.zeros_of_large hs hge t.kind]
  rfl

theorem load_of_fits (ht : t.Sound h ns) (ho : IsWhole origin os)
    (hos : os.length = ns.length) (hs : shape.IsWhole ss)
    (hss : ss.length = ns.length) (hlt : ss.prod < Number.safeLimit) :
    ∃ b cells, load ⟨t.backing, origin⟩ shape h = .ok b (h.pushCells cells) ∧
      Loaded t ns os ss shape h b (h.pushCells cells) := by
  have hn : t.shape.IsWhole ns := ht.block.shape
  obtain ⟨vs, hv, hle⟩ := exists_isWhole_clip hn ho hs hos hss
  have hbox := box_clip_eq hn ho hs hos hss (Nat.le_of_lt hlt) hv hle
  have hvalid : ∀ c, InBox ss c → (InBox vs c ↔ InBox ns (shift os c)) := by
    intro c hc
    rw [← mem_box, hbox, mem_box, inBox_clip_iff hos hss, and_iff_right hc]
  let filled := Block.filled t.kind shape ss (clip ns os ss) fun c =>
    (t.block h).elem ns (shift os c)
  have hfilled : filled.Sound ss := Block.sound_filled hs hlt fun c hc =>
    ht.block.holds_elem ((inBox_clip_iff hos hss).mp hc).2
  have hblock := Tensor.block_allocated filled h
  have hsound := Tensor.sound_allocated hfilled h
  refine ⟨_, _, load_filled ht ho hos hs hss hlt, rfl, rfl, rfl, ?_, ?_, ?_⟩
  · intro index c hi hc
    rw [covers_iff_inBox hv hi, hvalid c hc]
  · intro index c hi hc hin
    have hplace := isWhole_whole_of_inBox hin (Nat.le_of_lt ht.block.bound)
    have hcovers := (covers_iff_inBox hv hi).mpr ((hvalid c hc).mpr hin)
    refine ⟨_, Tensor.get_eq ht hplace hin, ?_⟩
    have hget := get_of_covers (b := ⟨⟨t.kind, shape, h.storages.size⟩,
      Transfer.clip t.shape origin shape⟩) hsound hi hc hcovers
    rw [hget]
    congr 2
    exact (congrArg (Block.elem · ss c) hblock).trans
      (Block.elem_filled (clip_le hos hss)
        ((inBox_clip_iff hos hss).mpr ⟨hc, hin⟩))
  · intro index c hi hc hout
    apply get_of_not_covers
    rw [covers_iff_inBox hv hi, hvalid c hc]
    exact hout

/-- **The ways a load can go.** -/
theorem load_cases (ht : t.Sound h ns) (origin shape : Shape) :
    (Transfer.Misshapen t.shape origin shape ∧
      ∃ f, f.sort = .shape ∧ load ⟨t.backing, origin⟩ shape h = .error f h) ∨
    (¬ Transfer.Misshapen t.shape origin shape ∧ Transfer.Misplaced origin ∧
      load ⟨t.backing, origin⟩ shape h = .error (.transferOrigin origin) h) ∨
    ∃ os ss, IsWhole origin os ∧ os.length = ns.length ∧ shape.IsWhole ss ∧
      ss.length = ns.length ∧
      (Number.safeLimit ≤ ss.prod ∧
          load ⟨t.backing, origin⟩ shape h = .error .tooLarge h ∨
        ss.prod < Number.safeLimit ∧ ∃ b cells,
          load ⟨t.backing, origin⟩ shape h = .ok b (h.pushCells cells) ∧
          Loaded t ns os ss shape h b (h.pushCells cells)) := by
  have hn : t.shape.IsWhole ns := ht.block.shape
  by_cases hshape : Transfer.Misshapen t.shape origin shape
  · obtain ⟨f, hcheck, hsort⟩ := Transfer.check_of_misshapen hshape
    exact .inl ⟨hshape, f, hsort, load_of_check hcheck⟩
  by_cases horigin : Transfer.Misplaced origin
  · have hcheck := Transfer.check_of_misplaced hshape horigin
    exact .inr (.inl ⟨hshape, horigin, load_of_check hcheck⟩)
  obtain ⟨os, ss, ho, hs, hos, hss⟩ := Transfer.whole_of_not hshape horigin
  rw [hn.length_eq] at hos hss
  refine .inr (.inr ⟨os, ss, ho, hos, hs, hss, ?_⟩)
  rcases Nat.lt_or_ge ss.prod Number.safeLimit with hlt | hge
  · exact .inr ⟨hlt, load_of_fits ht ho hos hs hss hlt⟩
  · exact .inl ⟨hge, load_of_large ht ho hos hs hss hge⟩

/-- What is said of a load of an array of extents `ns`. -/
structure LoadSpec (t : Tensor) (ns : List Nat) (origin : Index) (shape : Shape)
    (h : Host ν) :
    Prop where
  shape_iff : endedIn? (load ⟨t.backing, origin⟩ shape h) = some .shape ↔
    Transfer.Misshapen t.shape origin shape
  access_iff : ¬ Transfer.Misshapen t.shape origin shape →
    (endedIn? (load ⟨t.backing, origin⟩ shape h) = some .access ↔
      Transfer.Misplaced origin)
  /-- Otherwise only the size of the box can be refused. -/
  otherwise : ¬ Transfer.Misshapen t.shape origin shape →
    ¬ Transfer.Misplaced origin →
    ∃ os ss, IsWhole origin os ∧ shape.IsWhole ss ∧
      (endedIn? (load ⟨t.backing, origin⟩ shape h) = some .outOfBounds ↔
        Number.safeLimit ≤ ss.prod) ∧
      (ss.prod < Number.safeLimit →
        ∃ b h', load ⟨t.backing, origin⟩ shape h = .ok b h' ∧
          Loaded t ns os ss shape h b h')
  /-- In every case all arrays there are stay as they are. -/
  unchanged : ∀ u : Tensor, u.storage < h.storages.size →
    u.block (load ⟨t.backing, origin⟩ shape h).state = u.block h

/-- **What a load does**, whatever its origin and its box. -/
theorem load_spec (ht : t.Sound h ns) (origin : Index) (shape : Shape) :
    LoadSpec t ns origin shape h := by
  rcases load_cases ht origin shape with ⟨hshape, f, hsort, hr⟩ | ⟨hshape,
    horigin, hr⟩ |
    ⟨os, ss, ho, hos, hs, hss, ⟨hge, hr⟩ | ⟨hlt, b, cells, hr, hloaded⟩⟩
  · refine ⟨?_, fun hnot => absurd hshape hnot, fun hnot => absurd hshape hnot,
      fun u _ => ?_⟩
    · simp [hr, endedIn?, hsort, hshape]
    · rw [hr]
      rfl
  · refine ⟨?_, fun _ => ?_, fun _ hnot => absurd horigin hnot, fun u _ => ?_⟩
    · simp [hr, endedIn?, Fault.sort, hshape]
    · simp [hr, endedIn?, Fault.sort, horigin]
    · rw [hr]
      rfl
  all_goals
    have hn : t.shape.IsWhole ns := ht.block.shape
    have hshape : ¬ Transfer.Misshapen t.shape origin shape :=
      Transfer.not_misshapen hs ho (by rw [hn.length_eq, hos])
        (by rw [hn.length_eq, hss])
    have horigin : ¬ Transfer.Misplaced origin :=
      Transfer.not_exists_of_isWhole ho
  · refine ⟨?_, fun _ => ?_, fun _ _ => ⟨os, ss, ho, hs, ?_, fun hlt => ?_⟩,
      fun u _ => ?_⟩
    · simp [hr, endedIn?, Fault.sort, hshape]
    · simp [hr, endedIn?, Fault.sort, horigin]
    · simp [hr, endedIn?, Fault.sort, hge]
    · omega
    · rw [hr]
      rfl
  · refine ⟨?_, fun _ => ?_,
      fun _ _ => ⟨os, ss, ho, hs, ?_, fun _ => ⟨b, _, hr, hloaded⟩⟩,
      fun u hu => ?_⟩
    · simp [hr, endedIn?, hshape]
    · simp [hr, endedIn?, horigin]
    · simp [hr, endedIn?, hlt]
    · rw [hr]
      exact Tensor.block_pushCells hu cells

/-- A box of which one corner only lies inside the array. -/
theorem load_spec_corner :
    let t : Tensor := ⟨.u8, whole [2, 3], 0⟩
    let h : Host Unit :=
      (Host.empty .empty ()).pushCells (Array.replicate 6 (.number 0))
    t.Sound h [2, 3] ∧ LoadSpec t [2, 3] (whole [1, 2]) (whole [2, 2]) h := by
  intro t h
  have hextents : (whole [2, 3]).IsWhole [2, 3] := isWhole_whole (by decide)
  have ht : t.Sound h [2, 3] :=
    Tensor.sound_allocated (Block.sound_zeros hextents (by decide) .u8)
      (Host.empty .empty ())
  exact ⟨ht, load_spec ht (whole [1, 2]) (whole [2, 2])⟩

end Buffer

/-! ## Stores -/

namespace Buffer

/-- What a store at the origin `os` leaves. -/
structure Stored (dst : Tensor) (ns os : List Nat) (b : Buffer)
    (h h' : Host ν) : Prop where
  /-- A valid element whose place lies inside the array is there. -/
  written : ∀ index c, IsWhole index c → b.valid.covers index = true →
    InBox ns (shift os c) →
    ∃ e, b.get index h = .ok (some e) h ∧
      dst.get (whole (shift os c)) h' = .ok e h'
  /-- Where no valid element is placed, the array holds what it held. -/
  kept : ∀ x, InBox ns x →
    (∀ index c, IsWhole index c → b.valid.covers index = true →
      x ≠ shift os c) →
    ∃ e, dst.get (whole x) h = .ok e h ∧ dst.get (whole x) h' = .ok e h'
  buffer : b.masked h' = b.masked h
  others : ∀ u : Tensor, u.storage ≠ dst.storage → u.block h' = u.block h

/-- **What a store does**, for every buffer of the kind and rank of the array on
other storage, at every origin. -/
theorem store_spec {h : Host ν} {dst : Tensor} {b : Buffer}
    {ns os ss : List Nat} {origin : Index} (hdst : dst.Sound h ns)
    (hb : b.values.Sound h ss) (hvalid : b.valid.fitsIn b.values.shape = true)
    (hkind : b.values.kind = dst.kind)
    (hrank : b.values.shape.length = dst.shape.length)
    (hne : b.values.storage ≠ dst.storage) (ho : IsWhole origin os)
    (horigin : origin.length = dst.shape.length) :
    ∃ h', store ⟨dst.backing, origin⟩ b h = .ok () h' ∧
      Stored dst ns os b h h' := by
  have hn : dst.shape.IsWhole ns := hdst.block.shape
  have hs : b.values.shape.IsWhole ss := hb.block.shape
  obtain ⟨vs, hv, hle⟩ := (fitsIn_iff hs).mp hvalid
  have hos : os.length = ns.length := by
    rw [← ho.length_eq, horigin, hn.length_eq]
  have hss : ss.length = ns.length := by
    rw [← hs.length_eq, hrank, hn.length_eq]
  have hvs : vs.length = ns.length := by rw [hle.length_eq, hss]
  have hclip : ∀ c, InBox (clip ns os vs) c ↔
      InBox vs c ∧ InBox ns (shift os c) :=
    fun c => inBox_clip_iff hos hvs
  have hstore := store_eq hdst ho hos rfl hb.block hss hkind hv hle hne
  -- what is written was held by a buffer of the same kind
  have hholds : ∀ c, InBox (clip ns os vs) c →
      dst.kind.Holds ((b.values.block h).elem ss c) := by
    intro c hc
    rw [← hkind]
    exact hb.block.holds_elem (inBox_of_le ((hclip c).mp hc).1 hle)
  have hin : ∀ c, InBox (clip ns os vs) c → InBox ns (shift os c) :=
    fun c hc => ((hclip c).mp hc).2
  let put := writes (fun c => rank ns (shift os c)) ((b.values.block h).elem ss)
    (box (clip ns os vs))
  let stored := (dst.block h).stored ns os (clip ns os vs)
    ((b.values.block h).elem ss)
  have hstored : stored.Sound ns := hdst.block.stored hholds
  have hsound : dst.Sound (h.updateCells dst.storage put) ns :=
    hdst.updateCells hstored
  have hblock : dst.block (h.updateCells dst.storage put) = stored :=
    Tensor.block_updateCells hdst.allocated put
  have hwhole : ∀ x, InBox ns x → IsWhole (whole x) x :=
    fun x hx => isWhole_whole_of_inBox hx (Nat.le_of_lt hdst.block.bound)
  refine ⟨_, hstore, ?_, ?_, ?_, ?_⟩
  · intro index c hi hcovers hplace
    have hc := (covers_iff_inBox hv hi).mp hcovers
    have hlen : (clip ns os vs).length = os.length := by
      rw [length_clip hos hvs, hos]
    have helem : (stored.elem ns (shift os c)) = (b.values.block h).elem ss c :=
      hdst.block.elem_stored hlen hin ((hclip c).mpr ⟨hc, hplace⟩)
    refine ⟨_, get_of_covers hb hi (inBox_of_le hc hle) hcovers, ?_⟩
    rw [Tensor.get_eq hsound (hwhole _ hplace) hplace, hblock, helem]
  · intro x hx hfar
    have hne : ∀ c, InBox (clip ns os vs) c → x ≠ shift os c := by
      intro c hc
      have hcv := ((hclip c).mp hc).1
      have hi := isWhole_whole_of_inBox (inBox_of_le hcv hle)
        (Nat.le_of_lt hb.block.bound)
      exact hfar (whole c) c hi ((covers_iff_inBox hv hi).mpr hcv)
    have helem : stored.elem ns x = (dst.block h).elem ns x :=
      Block.elem_stored_of_forall_ne hin hx hne
    refine ⟨_, Tensor.get_eq hdst (hwhole x hx) hx, ?_⟩
    rw [Tensor.get_eq hsound (hwhole x hx) hx, hblock, helem]
  · rw [masked, Tensor.block_updateCells_of_ne hne, masked]
  · exact fun u hu => Tensor.block_updateCells_of_ne hu _

/-- A buffer with two valid elements, of which the second falls
outside the array. -/
theorem store_spec_past_end :
    let dst : Tensor := ⟨.u8, whole [4], 0⟩
    let b : Buffer := ⟨⟨.u8, whole [3], 1⟩, whole [2]⟩
    let h : Host Unit :=
      ((Host.empty .empty ()).pushCells
        (Array.replicate 4 (.number 0))).pushCells
        (Array.replicate 3 (.number 0))
    dst.Sound h [4] ∧ b.values.Sound h [3] ∧
      b.valid.fitsIn b.values.shape = true ∧ IsWhole (whole [3]) [3] ∧
      ∃ h', store ⟨dst.backing, whole [3]⟩ b h = .ok () h' ∧
        Stored dst [4] [3] b h h' := by
  intro dst b h
  have hextent : ∀ n ≤ 4, (whole [n]).IsWhole [n] := fun n hn =>
    isWhole_whole (by simpa using hn.trans (by decide))
  have hdst : dst.Sound h [4] := by
    have hzeros := Block.sound_zeros (hextent 4 (by decide)) (by decide) .u8
    exact (Tensor.sound_allocated hzeros (Host.empty .empty ())).pushCells _
  have hvalues : b.values.Sound h [3] := by
    have hzeros := Block.sound_zeros (hextent 3 (by decide)) (by decide) .u8
    exact Tensor.sound_allocated hzeros
      ((Host.empty .empty ()).pushCells (Array.replicate 4 (.number 0)))
  have hvalid : b.valid.fitsIn b.values.shape = true :=
    (fitsIn_iff (hextent 3 (by decide))).mpr
      ⟨[2], hextent 2 (by decide), by simp⟩
  have horigin := hextent 3 (by decide)
  exact ⟨hdst, hvalues, hvalid, horigin,
    store_spec hdst hvalues hvalid rfl (by simp [b, dst]) (by decide) horigin
      (by simp [dst])⟩

end Buffer

/-! ## Storing back what was loaded -/

namespace Buffer

variable {h h' : Host ν} {t : Tensor} {b : Buffer} {ns os ss : List Nat}
  {origin shape : Shape}

/-- A load that succeeded, exactly. -/
theorem eq_of_load (ht : t.Sound h ns)
    (hload : load ⟨t.backing, origin⟩ shape h = .ok b h') :
    ∃ os ss, IsWhole origin os ∧ os.length = ns.length ∧ shape.IsWhole ss ∧
      ss.length = ns.length ∧ ss.prod < Number.safeLimit ∧
      b = ⟨⟨t.kind, shape, h.storages.size⟩,
        Transfer.clip t.shape origin shape⟩ ∧
      h' = h.pushCells (Block.filled t.kind shape ss (clip ns os ss) fun c =>
        (t.block h).elem ns (shift os c)).cells := by
  rcases load_cases ht origin shape with ⟨-, f, -, hr⟩ | ⟨-, -, hr⟩ |
    ⟨os, ss, ho, hos, hs, hss, ⟨-, hr⟩ | ⟨hlt, -⟩⟩
  · cases hr.symm.trans hload
  · cases hr.symm.trans hload
  · cases hr.symm.trans hload
  · have hr := (load_filled ht ho hos hs hss hlt).symm.trans hload
    injection hr with hb hh
    exact ⟨os, ss, ho, hos, hs, hss, hlt, hb.symm, hh.symm⟩

/-- **Storing back what was loaded changes nothing.** Whatever box was loaded
from whatever origin, the store succeeds and leaves the state as the load left
it, in which every array is as it was before. -/
theorem store_loaded (ht : t.Sound h ns)
    (hload : load ⟨t.backing, origin⟩ shape h = .ok b h') :
    store ⟨t.backing, origin⟩ b h' = .ok () h' ∧
      ∀ u : Tensor, u.storage < h.storages.size → u.block h' = u.block h := by
  obtain ⟨os, ss, ho, hos, hs, hss, hlt, rfl, rfl⟩ := eq_of_load ht hload
  have hn : t.shape.IsWhole ns := ht.block.shape
  obtain ⟨vs, hv, hle⟩ := exists_isWhole_clip hn ho hs hos hss
  have hvs : vs.length = ns.length := by rw [hle.length_eq, hss]
  have hbox := box_clip_eq hn ho hs hos hss (Nat.le_of_lt hlt) hv hle
  let filled := Block.filled t.kind shape ss (clip ns os ss) fun c =>
    (t.block h).elem ns (shift os c)
  have hfilled : filled.Sound ss := Block.sound_filled hs hlt fun c hc =>
    ht.block.holds_elem ((inBox_clip_iff hos hss).mp hc).2
  have hstore :=
    store_eq (b := ⟨⟨t.kind, shape, h.storages.size⟩,
      Transfer.clip t.shape origin shape⟩)
    (ht.pushCells filled.cells) ho hos (Tensor.block_allocated filled h) hfilled
      hss rfl hv hle
    (Nat.ne_of_gt ht.allocated)
  -- the store clips what the load has clipped, so each element goes back to the
  -- cell it came from
  have hheld : ∀ c ∈ box (clip ns os vs),
      (h.cells t.storage)[rank ns (shift os c)]? = some (filled.elem ss c) := by
    intro c hc
    obtain ⟨hcv, hin⟩ := (inBox_clip_iff hos hvs).mp (mem_box.mp hc)
    rw [← mem_box, hbox, mem_box] at hcv
    rw [Block.elem_filled (clip_le hos hss) hcv]
    exact ht.block.getElem?_rank hin
  have hfixed : (h.pushCells filled.cells).updateCells t.storage
      (writes (fun c => rank ns (shift os c)) (filled.elem ss)
        (box (clip ns os vs))) = h.pushCells filled.cells := by
    apply Host.updateCells_of_fixed
    rw [Host.cells_pushCells_of_lt ht.allocated]
    exact writes_of_held hheld
  rw [hfixed] at hstore
  exact ⟨hstore, fun u hu => Tensor.block_pushCells hu _⟩

/-- A box of which one corner only lies inside an array of 64-bit integers. -/
theorem store_loaded_corner :
    let t : Tensor := ⟨.i64, whole [2, 3], 0⟩
    let cells : Array Element :=
      #[.integer 0, .integer 1, .integer 2, .integer 3, .integer (-4),
        .integer 5]
    let h : Host Unit := (Host.empty .empty ()).pushCells cells
    t.Sound h [2, 3] ∧ ∃ b h',
      load ⟨t.backing, whole [1, 2]⟩ (whole [2, 2]) h = .ok b h' ∧
      store ⟨t.backing, whole [1, 2]⟩ b h' = .ok () h' ∧
      ∀ u : Tensor, u.storage < h.storages.size → u.block h' = u.block h := by
  intro t cells h
  have hextents : (whole [2, 3]).IsWhole [2, 3] := isWhole_whole (by decide)
  have hblock : Block.Sound ⟨.i64, whole [2, 3], cells⟩ [2, 3] := by
    refine ⟨hextents, rfl, by decide, fun e he => ?_⟩
    simp only [cells, List.mem_toArray, List.mem_cons, List.not_mem_nil,
      or_false] at he
    rcases he with rfl | rfl | rfl | rfl | rfl | rfl <;> rfl
  have ht : t.Sound h [2, 3] :=
    Tensor.sound_allocated hblock (Host.empty .empty ())
  have horigin : (whole [1, 2]).IsWhole [1, 2] := isWhole_whole (by decide)
  have hshape : (whole [2, 2]).IsWhole [2, 2] := isWhole_whole (by decide)
  have hload := load_filled ht horigin rfl hshape rfl (by decide)
  exact ⟨ht, _, _, hload, store_loaded ht hload⟩

end Buffer

end TileGrid
