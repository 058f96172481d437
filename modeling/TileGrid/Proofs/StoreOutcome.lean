import TileGrid.Proofs.LoadStore

/-!
# A store happens whole or not at all

A store writes element by element and takes nothing back, yet a store that fails
has written nothing. Its ranks and its origin are judged before the first write,
and every place that it then visits lies inside the array. What is left is the
conversion of the elements: those of a buffer are all of one sort, so either the
first of them is refused or none is.
-/

namespace TileGrid

open RowMajor Shape

variable {ν : Type}

namespace Buffer

/-- The buffer does not have the rank of the array, or the origin has not. -/
def RanksDiffer (dst : Tensor) (origin : Index) (b : Buffer) : Prop :=
  b.values.shape.length ≠ dst.shape.length ∨ origin.length ≠ dst.shape.length

/-- The element at `c` is valid, and placed from `os` on it falls inside a box
of extents `ns`. -/
def Lands (ns os : List Nat) (b : Buffer) (c : List Nat) : Prop :=
  ∃ index, IsWhole index c ∧ b.valid.covers index = true ∧ InBox ns (shift os c)

/-- One of the two kinds holds integers and the other numbers. -/
def Mixed (dst : Tensor) (b : Buffer) : Prop :=
  b.values.kind.isWide ≠ dst.kind.isWide

/-- What a store at the origin `os` leaves, of whatever kinds the buffer
and the array are. -/
structure Converted (dst : Tensor) (ns os : List Nat) (b : Buffer)
    (h h' : Host ν) : Prop where
  /-- A valid element whose place lies inside the array is there, as the kind of
  the array has it. -/
  written : ∀ c, Lands ns os b c → ∃ e r, b.get (whole c) h = .ok (some e) h ∧
    dst.kind.convert e = .ok r ∧ dst.get (whole (shift os c)) h' = .ok r h'
  /-- Where no valid element is placed, the array holds what it held. -/
  kept : ∀ x, InBox ns x → (∀ c, Lands ns os b c → x ≠ shift os c) →
    ∃ e, dst.get (whole x) h = .ok e h ∧ dst.get (whole x) h' = .ok e h'
  buffer : b.masked h' = b.masked h
  others : ∀ u : Tensor, u.storage ≠ dst.storage → u.block h' = u.block h

section

variable {h : Host ν} {dst : Tensor} {b : Buffer} {ns os ss vs : List Nat}
  {origin : Index}

/-- The walk of a store comes by the coordinates that land, and by no others. -/
theorem lands_iff (hb : b.values.Sound h ss) (hv : b.valid.IsWhole vs)
    (hle : List.Forall₂ (· ≤ ·) vs ss) (hos : os.length = ns.length)
    (hvs : vs.length = ns.length) {c : List Nat} :
    Lands ns os b c ↔ InBox (clip ns os vs) c := by
  rw [inBox_clip_iff hos hvs]
  constructor
  · rintro ⟨index, hi, hcovers, hin⟩
    exact ⟨(covers_iff_inBox hv hi).mp hcovers, hin⟩
  · rintro ⟨hcv, hin⟩
    have hi := isWhole_whole_of_inBox (inBox_of_le hcv hle)
      (Nat.le_of_lt hb.block.bound)
    exact ⟨whole c, hi, (covers_iff_inBox hv hi).mpr hcv, hin⟩

/-- What the buffer has at a valid coordinate. -/
theorem get_of_inBox (hb : b.values.Sound h ss) (hv : b.valid.IsWhole vs)
    (hle : List.Forall₂ (· ≤ ·) vs ss) {c : List Nat} (hc : InBox vs c) :
    b.get (whole c) h = .ok (some ((b.values.block h).elem ss c)) h := by
  have hcs := inBox_of_le hc hle
  have hi := isWhole_whole_of_inBox hcs (Nat.le_of_lt hb.block.bound)
  exact get_of_covers hb hi hcs ((covers_iff_inBox hv hi).mpr hc)

theorem store_of_check {a : Backing (Host ν)} {f : Fault}
    (hcheck : Transfer.check a.shape origin b.values.shape = .error f) :
    store ⟨a, origin⟩ b h = .error f h := by
  unfold store Transfer.store
  rw [hcheck]
  rfl

/-- A store of elements that the array takes. -/
theorem store_of_takes (hdst : dst.Sound h ns) (hb : b.values.Sound h ss)
    (hv : b.valid.IsWhole vs) (hle : List.Forall₂ (· ≤ ·) vs ss)
    (hss : ss.length = ns.length) (ho : IsWhole origin os)
    (hos : os.length = ns.length) (hne : b.values.storage ≠ dst.storage)
    (htakes : ∀ c, InBox (clip ns os vs) c →
      ∃ r, dst.kind.convert ((b.values.block h).elem ss c) = .ok r) :
    ∃ h', store ⟨dst.backing, origin⟩ b h = .ok () h' ∧
      Converted dst ns os b h h' := by
  have hvs : vs.length = ns.length := by rw [hle.length_eq, hss]
  have hclip : ∀ c, InBox (clip ns os vs) c ↔
      InBox vs c ∧ InBox ns (shift os c) :=
    fun c => inBox_clip_iff hos hvs
  have htotal : ∀ c, ∃ r, InBox (clip ns os vs) c →
      dst.kind.convert ((b.values.block h).elem ss c) = .ok r := by
    intro c
    by_cases hc : InBox (clip ns os vs) c
    · obtain ⟨r, hr⟩ := htakes c hc
      exact ⟨r, fun _ => hr⟩
    · exact ⟨dst.kind.zero, fun hin => absurd hin hc⟩
  choose val hval using htotal
  have hstore := store_writes hdst ho hos rfl hb.block hss hv hle hne hval
  have hin : ∀ c, InBox (clip ns os vs) c → InBox ns (shift os c) :=
    fun c hc => ((hclip c).mp hc).2
  let put := writes (fun c => rank ns (shift os c)) val (box (clip ns os vs))
  let stored := (dst.block h).stored ns os (clip ns os vs) val
  have hstored : stored.Sound ns := hdst.block.stored fun c hc =>
    Kind.holds_of_convert (hval c hc)
  have hsound : dst.Sound (h.updateCells dst.storage put) ns :=
    hdst.updateCells hstored
  have hblock : dst.block (h.updateCells dst.storage put) = stored :=
    Tensor.block_updateCells hdst.allocated put
  have hwhole : ∀ x, InBox ns x → IsWhole (whole x) x :=
    fun x hx => isWhole_whole_of_inBox hx (Nat.le_of_lt hdst.block.bound)
  have hlands : ∀ c, Lands ns os b c ↔ InBox (clip ns os vs) c :=
    fun c => lands_iff hb hv hle hos hvs
  refine ⟨_, hstore, ?_, ?_, ?_, ?_⟩
  · intro c hland
    have hc := (hlands c).mp hland
    have hlen : (clip ns os vs).length = os.length := by
      rw [length_clip hos hvs, hos]
    have helem : stored.elem ns (shift os c) = val c :=
      hdst.block.elem_stored hlen hin hc
    refine ⟨_, val c, get_of_inBox hb hv hle ((hclip c).mp hc).1, hval c hc, ?_⟩
    rw [Tensor.get_eq hsound (hwhole _ (hin c hc)) (hin c hc), hblock, helem]
  · intro x hx hfar
    have helem : stored.elem ns x = (dst.block h).elem ns x :=
      Block.elem_stored_of_forall_ne hin hx fun c hc =>
        hfar c ((hlands c).mpr hc)
    refine ⟨_, Tensor.get_eq hdst (hwhole x hx) hx, ?_⟩
    rw [Tensor.get_eq hsound (hwhole x hx) hx, hblock, helem]
  · rw [masked, Tensor.block_updateCells_of_ne hne, masked]
  · exact fun u hu => Tensor.block_updateCells_of_ne hu _

/-- A visit of an element that the array does not take. -/
theorem send_of_mixed (hdst : dst.Sound h ns) (hb : b.values.Sound h ss)
    (ho : IsWhole origin os) {c : List Nat} (hlen : c.length = os.length)
    (hc : InBox ss c) (hin : InBox ns (shift os c)) (hmixed : Mixed dst b) :
    Transfer.send dst.backing origin b.values.get (whole c) h =
      .error .mixedElements h := by
  have hread :=
    Tensor.get_eq hb
      (isWhole_whole_of_inBox hc (Nat.le_of_lt hb.block.bound)) hc
  have hplace :=
    Transfer.isWhole_offset_of_inBox (Nat.le_of_lt hdst.block.bound) ho hlen hin
  have hconvert := (hb.block.holds_elem hc).convert_of_isWide_ne hmixed
  have hset : dst.set (offset origin (whole c))
      ((b.values.block h).elem ss c) h =
      .error .mixedElements h := by
    rw [Tensor.set, hdst.block.place_of_error hplace hin hconvert]
  exact (bind_of_ok hread _).trans hset

/-- Where the kinds do not go together, a store fails at its first visit. -/
theorem store_of_mixed (hdst : dst.Sound h ns) (hb : b.values.Sound h ss)
    (hv : b.valid.IsWhole vs) (hle : List.Forall₂ (· ≤ ·) vs ss)
    (hss : ss.length = ns.length) (ho : IsWhole origin os)
    (hos : os.length = ns.length) (hmixed : Mixed dst b)
    (hsome : ∃ c, InBox (clip ns os vs) c) :
    store ⟨dst.backing, origin⟩ b h = .error .mixedElements h := by
  have hvs : vs.length = ns.length := by rw [hle.length_eq, hss]
  rw [store_eq_foldlM (a := dst.backing) hdst.block.shape ho hos
    hb.block.shape hss
    (Nat.le_of_lt hb.block.bound) hv hle]
  -- nothing is written before the first visit, and all elements are of the
  -- sort of the first
  cases hbox : box (clip ns os vs) with
  | nil =>
      obtain ⟨c, hc⟩ := hsome
      rw [← mem_box, hbox] at hc
      cases hc
  | cons c cs =>
      have hmem : c ∈ box (clip ns os vs) := by
        rw [hbox]
        exact List.mem_cons_self
      obtain ⟨hcv, hin⟩ := (inBox_clip_iff hos hvs).mp (mem_box.mp hmem)
      have hlen : c.length = os.length := by rw [length_of_inBox hcv, hvs, hos]
      have hfirst := send_of_mixed hdst hb ho hlen (inBox_of_le hcv hle)
        hin hmixed
      rw [List.foldlM_cons]
      exact bind_of_error hfirst _

/-- **The ways a store can go.** -/
theorem store_cases (hdst : dst.Sound h ns) (hb : b.values.Sound h ss)
    (hvalid : b.valid.fitsIn b.values.shape = true)
    (hne : b.values.storage ≠ dst.storage) (origin : Index) :
    (RanksDiffer dst origin b ∧
      ∃ f, f.sort = .shape ∧ store ⟨dst.backing, origin⟩ b h = .error f h) ∨
    (¬ RanksDiffer dst origin b ∧ Transfer.Misplaced origin ∧
      store ⟨dst.backing, origin⟩ b h = .error (.transferOrigin origin) h) ∨
    ¬ RanksDiffer dst origin b ∧ ∃ os, IsWhole origin os ∧
      ((∃ c, Lands ns os b c) ∧ Mixed dst b ∧
          store ⟨dst.backing, origin⟩ b h = .error .mixedElements h ∨
        ¬ ((∃ c, Lands ns os b c) ∧ Mixed dst b) ∧
        ∃ h', store ⟨dst.backing, origin⟩ b h = .ok () h' ∧
          Converted dst ns os b h h') := by
  have hn : dst.shape.IsWhole ns := hdst.block.shape
  have hs : b.values.shape.IsWhole ss := hb.block.shape
  by_cases hranks : RanksDiffer dst origin b
  · have hshape : Transfer.Misshapen dst.shape origin b.values.shape :=
      hranks.imp_right Or.inl
    obtain ⟨f, hcheck, hsort⟩ := Transfer.check_of_misshapen hshape
    exact .inl ⟨hranks, f, hsort, store_of_check hcheck⟩
  -- the extents of a buffer are whole, so its shape can be refused
  -- for its rank only
  have hshape : ¬ Transfer.Misshapen dst.shape origin b.values.shape := by
    rintro (hlen | hlen | hnone)
    · exact hranks (.inl hlen)
    · exact hranks (.inr hlen)
    · exact Transfer.not_exists_of_isWhole hs hnone
  by_cases horigin : Transfer.Misplaced origin
  · have hcheck := Transfer.check_of_misplaced hshape horigin
    exact .inr (.inl ⟨hranks, horigin, store_of_check hcheck⟩)
  obtain ⟨os, ss', ho, hs', hos, hss⟩ := Transfer.whole_of_not hshape horigin
  obtain rfl := hs.unique hs'
  rw [hn.length_eq] at hos hss
  obtain ⟨vs, hv, hle⟩ := (fitsIn_iff hs).mp hvalid
  have hvs : vs.length = ns.length := by rw [hle.length_eq, hss]
  refine .inr (.inr ⟨hranks, os, ho, ?_⟩)
  by_cases hfails : (∃ c, Lands ns os b c) ∧ Mixed dst b
  · obtain ⟨⟨c, hland⟩, hmixed⟩ := hfails
    have hc := (lands_iff hb hv hle hos hvs).mp hland
    exact .inl ⟨⟨c, hland⟩, hmixed,
      store_of_mixed hdst hb hv hle hss ho hos hmixed ⟨c, hc⟩⟩
  · refine .inr ⟨hfails,
      store_of_takes hdst hb hv hle hss ho hos hne fun c hc => ?_⟩
    have hwide : b.values.kind.isWide = dst.kind.isWide := by
      by_contra hmixed
      exact hfails ⟨⟨c, (lands_iff hb hv hle hos hvs).mpr hc⟩, hmixed⟩
    have hcs := inBox_of_le ((inBox_clip_iff hos hvs).mp hc).1 hle
    exact (hb.block.holds_elem hcs).convert_of_isWide_eq hwide

end

/-- What is said of a store to an array of extents `ns`. -/
structure StoreOutcome (dst : Tensor) (ns : List Nat) (origin : Index)
    (b : Buffer) (h : Host ν) :
    Prop where
  shape_iff : endedIn? (store ⟨dst.backing, origin⟩ b h) = some .shape ↔
    RanksDiffer dst origin b
  access_iff : ¬ RanksDiffer dst origin b →
    (endedIn? (store ⟨dst.backing, origin⟩ b h) = some .access ↔
      Transfer.Misplaced origin)
  /-- Otherwise it fails for the kinds or it succeeds. -/
  otherwise : ¬ RanksDiffer dst origin b → ¬ Transfer.Misplaced origin →
    ∃ os, IsWhole origin os ∧
      (endedIn? (store ⟨dst.backing, origin⟩ b h) = some .wrongType ↔
        (∃ c, Lands ns os b c) ∧ Mixed dst b) ∧
      (¬ ((∃ c, Lands ns os b c) ∧ Mixed dst b) →
        ∃ h', store ⟨dst.backing, origin⟩ b h = .ok () h' ∧
          Converted dst ns os b h h')
  /-- A store that fails leaves everything as it was. -/
  unchanged : ∀ f h', store ⟨dst.backing, origin⟩ b h = .error f h' → h' = h

/-- **A store happens whole or not at all**, for every buffer on other storage
than the array, of whatever kind and rank, and for every origin. -/
theorem store_all_or_nothing {h : Host ν} {dst : Tensor} {b : Buffer}
    {ns ss : List Nat} (hdst : dst.Sound h ns) (hb : b.values.Sound h ss)
    (hvalid : b.valid.fitsIn b.values.shape = true)
    (hne : b.values.storage ≠ dst.storage) (origin : Index) :
    StoreOutcome dst ns origin b h := by
  rcases store_cases hdst hb hvalid hne origin with ⟨hranks, f, hsort,
    hr⟩ | ⟨hranks, horigin, hr⟩ |
    ⟨hranks, os, ho, ⟨hsome, hmixed, hr⟩ | ⟨hfits, h', hr, hconverted⟩⟩
  · refine ⟨?_, fun hnot => absurd hranks hnot,
      fun hnot => absurd hranks hnot, ?_⟩
    · simp [hr, endedIn?, hsort, hranks]
    · intro g h' hg
      cases hr.symm.trans hg
      rfl
  · refine ⟨?_, fun _ => ?_, fun _ hnot => absurd horigin hnot, ?_⟩
    · simp [hr, endedIn?, Fault.sort, hranks]
    · simp [hr, endedIn?, Fault.sort, horigin]
    · intro g h' hg
      cases hr.symm.trans hg
      rfl
  · have horigin : ¬ Transfer.Misplaced origin :=
      Transfer.not_exists_of_isWhole ho
    refine ⟨?_, fun _ => ?_,
      fun _ _ => ⟨os, ho, ?_, fun hnot => absurd ⟨hsome, hmixed⟩ hnot⟩, ?_⟩
    · simp [hr, endedIn?, Fault.sort, hranks]
    · simp [hr, endedIn?, Fault.sort, horigin]
    · simp [hr, endedIn?, Fault.sort, hsome, hmixed]
    · intro g h' hg
      cases hr.symm.trans hg
      rfl
  · have horigin : ¬ Transfer.Misplaced origin :=
      Transfer.not_exists_of_isWhole ho
    refine ⟨?_, fun _ => ?_,
      fun _ _ => ⟨os, ho, ?_, fun _ => ⟨h', hr, hconverted⟩⟩, ?_⟩
    · simp [hr, endedIn?, hranks]
    · simp [hr, endedIn?, horigin]
    · rw [hr]
      exact iff_of_false (by simp [endedIn?]) hfits
    · intro g h'' hg
      cases hr.symm.trans hg

/-- A buffer of bytes and an array of 64-bit integers, on the last cell of which
one element falls. -/
theorem store_all_or_nothing_mixed :
    let dst : Tensor := ⟨.i64, whole [4], 0⟩
    let b : Buffer := ⟨⟨.u8, whole [3], 1⟩, whole [2]⟩
    let h : Host Unit :=
      ((Host.empty .empty ()).pushCells
        (Array.replicate 4 (.integer 0))).pushCells
        (Array.replicate 3 (.number 0))
    dst.Sound h [4] ∧ b.values.Sound h [3] ∧
      b.valid.fitsIn b.values.shape = true ∧
      b.values.storage ≠ dst.storage ∧ StoreOutcome dst [4] (whole [3]) b h ∧
      Lands [4] [3] b [0] ∧ Mixed dst b := by
  intro dst b h
  have hextent : ∀ n ≤ 4, (whole [n]).IsWhole [n] := fun n hn =>
    isWhole_whole (by simpa using hn.trans (by decide))
  have hdst : dst.Sound h [4] := by
    have hzeros := Block.sound_zeros (hextent 4 (by decide)) (by decide) .i64
    exact (Tensor.sound_allocated hzeros (Host.empty .empty ())).pushCells _
  have hvalues : b.values.Sound h [3] := by
    have hzeros := Block.sound_zeros (hextent 3 (by decide)) (by decide) .u8
    exact Tensor.sound_allocated hzeros
      ((Host.empty .empty ()).pushCells (Array.replicate 4 (.integer 0)))
  have hvalid : b.valid.fitsIn b.values.shape = true :=
    (fitsIn_iff (hextent 3 (by decide))).mpr
      ⟨[2], hextent 2 (by decide), by simp⟩
  have hcovers : b.valid.covers (whole [0]) = true :=
    (covers_iff_inBox (hextent 2 (by decide)) (hextent 0 (by decide))).mpr
      (by simp [InBox])
  exact ⟨hdst, hvalues, hvalid, by decide,
    store_all_or_nothing hdst hvalues hvalid (by decide) _,
    ⟨whole [0], hextent 0 (by decide),
      hcovers, by simp [InBox, shift]⟩, by unfold Mixed; decide⟩

end Buffer

end TileGrid
