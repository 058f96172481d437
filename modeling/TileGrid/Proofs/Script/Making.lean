import TileGrid.Script.Make
import TileGrid.Proofs.Script.Reading

/-!
# What is made fits

Whatever object a step makes or finds fits the layout, which fresh storage
extends. Where a step fails midway, what it allocated before stays behind
without a name, and the layout covers that too.
-/

namespace TileGrid.Script

open State

variable {w : Layout}

/-! ## Fresh arrays -/

theorem keeps_allocate {b : Block} (hb : ∃ ns, b.Sound ns) :
    Keeps w (Tensor.allocate b : Act Scope Tensor) fun w t => t.Fits w := by
  obtain ⟨ns, hb⟩ := hb
  intro u h _ hh
  have hext := Layout.extends_append u (b.kind, ns.prod)
  refine ⟨u ++ [(b.kind, ns.prod)], hext, ⟨hh.storages.pushCells hb, ?_⟩, ?_⟩
  · -- what was named before fits the longer layout too
    exact fun p hp => (hh.names p hp).mono hext
  · exact hh.storages.fits_allocated hb

theorem keeps_newTensor {b : Except Fault Block}
    (hb : ∀ b', b = .ok b' → ∃ ns, b'.Sound ns) :
    Keeps w (newTensor b) fun w o => o.Fits w := by
  refine Keeps.bind (keeps_settle fun b' h _ _ => hb b' h) fun u b' _ hb' => ?_
  refine (keeps_allocate hb').bind fun v t _ ht => keeps_pure fun x hx => ?_
  exact Object.fits_tensor.mpr (ht.mono hx)

theorem keeps_bufferAllocate {m : Masked} (hm : ∃ ns, m.values.Sound ns) :
    Keeps w (Buffer.allocate m : Act Scope Buffer) fun w b => b.values.Fits w :=
  (keeps_allocate hm).bind fun _ _ _ ht => keeps_pure fun _ hx => ht.mono hx

theorem sound_of_arrayOf {kind : String} {values : Number}
    {shape? : Option Shape} {b : Block}
    (h : arrayOf kind values shape? = .ok b) : ∃ ns, b.Sound ns := by
  unfold arrayOf at h
  split at h
  · exact Block.sound_of_ofValues h
  · split at h
    · cases h
    · obtain ⟨z, -, h⟩ := bind_eq_ok.mp h
      cases h

/-! ## Buffers filled visit by visit -/

/-- A visit that writes to a sound array leaves a sound one. -/
theorem keeps_setBlock {out : Block} (hout : ∃ ns, out.Sound ns) (index : Index)
    (e : Element) :
    Keeps w (settle (out.set index e) : Act Scope Block) fun _ out =>
      ∃ ns, out.Sound ns := by
  obtain ⟨ns, hout⟩ := hout
  exact keeps_settle fun out' h _ _ => ⟨ns, hout.of_set h⟩

/-- A walk over a fresh array whose visits keep it sound. -/
theorem keeps_filled {kind : Kind} {shape valid : Shape}
    {visit : Block → Index → Act Scope Block}
    (hvisit : ∀ out index, (∃ ns, out.Sound ns) →
      Keeps w (visit out index) fun _ out => ∃ ns, out.Sound ns) :
    Keeps w (do
      let fresh ← settle (Block.zeros kind shape)
      let values ← Shape.visitAll .endless valid fresh fun out index _ =>
        visit out index
      settle (Masked.make values valid) : Act Scope Masked) fun _ m =>
        ∃ ns, m.values.Sound ns := by
  refine Keeps.bind (keeps_settle fun b h _ _ => Block.sound_of_zeros h)
    fun u fresh hu hfresh => ?_
  refine Keeps.bind
    (keeps_visitAll (fun out index _ hout => (hvisit out index hout).mono hu)
      hfresh)
    fun v values _ hvalues => ?_
  refine keeps_settle fun m hm _ _ => ?_
  rw [Masked.values_of_make hm]
  exact hvalues

theorem keeps_transferLoad {slice : Slice State} (hslice : Tame w slice.array)
    (shape : Shape) :
    Keeps w (Transfer.load slice shape) fun _ m => ∃ ns, m.values.Sound ns := by
  refine (safe_settle _).bind fun _ => keeps_filled fun out index hout => ?_
  exact (hslice.get _).bind fun e => keeps_setBlock hout index e

theorem keeps_ofReads {kind : Kind} {shape valid : Shape}
    {read : Index → Act Scope Element}
    {fn : Element → Index → Act Scope Element}
    (hread : ∀ index, Safe w (read index))
    (hfn : ∀ e index, Safe w (fn e index)) :
    Keeps w (Masked.ofReads kind shape valid read fn) fun _ m =>
      ∃ ns, m.values.Sound ns := by
  refine keeps_filled fun out index hout => ?_
  refine (hread index).bind fun e => (hfn e index).bind fun r => ?_
  exact keeps_setBlock hout index r

/-! ## Arrays over other arrays -/

theorem keeps_share {t : Tensor} (ht : t.Fits w) (shape : Shape) :
    Keeps w (t.share shape : Act Scope Tensor) fun w t => t.Fits w := by
  intro u h hu hh
  unfold Tensor.share
  cases hcheck : shape.checkExtents with
  | error f => exact ⟨u, .refl u, hh⟩
  | ok _ =>
      by_cases hsize :
        Number.eqv (.ofNat (h.cells t.storage).size) shape.size = true
      · rw [if_pos hsize]
        exact ⟨u, .refl u, hh,
          hh.storages.fits_shared (ht.mono hu) hcheck hsize⟩
      · rw [if_neg hsize]
        exact ⟨u, .refl u, hh⟩

theorem keeps_shareOf {o : Object} (ho : o.Fits w) (shape : Shape) :
    Keeps w (shareOf o shape) fun w o => o.Fits w := by
  unfold shareOf
  split
  · rename_i t _
    refine (keeps_share (Object.fits_tensor.mp ho) shape).map fun _ _ _ ht => ?_
    exact Object.fits_tensor.mpr ht
  · exact keeps_throw _
  · exact keeps_newTensor fun b h => Block.sound_of_zeros h
  · exact (safe_settle _).bind fun _ => keeps_throw _

theorem keeps_observeOf {o : Object} (ho : o.Fits w) (shape : Item) :
    Keeps w (observeOf o shape) fun w o => o.Fits w := by
  refine (safe_settle _).bind fun own => ?_
  intro u h hu hh
  exact ⟨u, .refl u, hh.of_same rfl rfl, Object.fits_observed.mpr (ho.mono hu)⟩

theorem keeps_bufferMake {t : Tensor} (ht : t.Fits w) (valid : Shape) :
    Keeps w (Buffer.make t valid : Act Scope Buffer) fun w b =>
      b.values.Fits w := by
  intro u h hu hh
  unfold Buffer.make
  cases Masked.make (t.block h) valid with
  | error f => exact ⟨u, .refl u, hh⟩
  | ok m => exact ⟨u, .refl u, hh, ht.mono hu⟩

theorem keeps_maskOf {o : Object} (ho : o.Fits w) (valid : Shape) :
    Keeps w (maskOf o valid) fun w o => o.Fits w := by
  unfold maskOf
  split
  · refine (keeps_bufferMake (Object.fits_tensor.mp ho) valid).map
      fun _ _ _ hb => ?_
    exact Object.fits_buffer.mpr hb
  · refine (safe_settle _).bind fun shape =>
      (safe_present shape).bind fun shape => ?_
    refine keeps_ite (keeps_pure fun u hu => ?_) ?_
    · exact Object.fits_masked.mpr (ho.mono hu)
    · exact (safe_settle _).bind fun _ => keeps_throw _

theorem keeps_valuesIn {o : Object} (ho : o.Fits w) :
    Keeps w (valuesIn o) fun w o => o.Fits w := by
  cases o with
  | buffer b =>
      refine keeps_pure fun u hu => ?_
      exact Object.fits_tensor.mpr ((Object.fits_buffer.mp ho).mono hu)
  | masked values valid =>
    exact keeps_pure fun u hu => (Object.fits_masked.mp ho).mono hu
  | _ => exact keeps_throw _

/-! ## Slices -/

theorem safe_originOf (i : Item) : Safe w (originOf i) := by
  unfold originOf
  split <;> simp

theorem keeps_resolve (target : Target) :
    Keeps w (resolve target) fun w o => o.Fits w := by
  cases target with
  | named name => exact keeps_find name
  | «at» name origin =>
      refine (keeps_find name).bind fun u o _ ho =>
        (safe_evalItem origin).bind fun origin => ?_
      cases o with
      | tensor t =>
          refine (safe_originOf origin).bind fun origin =>
            keeps_pure fun v hv => ?_
          exact Object.fits_slice.mpr (ho.mono hv)
      | _ => exact keeps_throw _
  | «from» name origin =>
      refine (keeps_find name).bind fun u o _ ho =>
        (safe_evalItem origin).bind fun origin => ?_
      exact keeps_pure fun v hv => Object.fits_slice.mpr (ho.mono hv)

@[simp] theorem safe_zeroOrigin (shape : Item) : Safe w (zeroOrigin shape) := by
  simp [zeroOrigin]

theorem keeps_toSlice {o : Object} (ho : o.Fits w) :
    Keeps w (toSlice o) fun w o => o.Fits w := by
  unfold toSlice
  split
  · exact keeps_pure fun u hu => ho.mono hu
  · refine (safe_settle _).bind fun shape =>
      (safe_zeroOrigin shape).bind fun origin => ?_
    exact keeps_pure fun u hu => Object.fits_slice.mpr (ho.mono hu)

/-- The slice that a transfer goes to or comes from can be read and
written safely. -/
theorem keeps_sliceFor {target : Object} (ht : target.Fits w) (box : Shape) :
    Keeps w (sliceFor target box) fun w s => Tame w s.array := by
  refine (keeps_toSlice ht).bind fun u o _ ho => ?_
  cases o with
  | slice o start =>
      refine (safe_settle _).bind fun shape =>
        (safe_present shape).bind fun shape => ?_
      refine (safe_present start).bind fun start => ?_
      split
      · exact keeps_throw _
      · exact keeps_throw _
      · refine (keeps_backing (Object.fits_slice.mp ho)).bind
          fun v array _ harray => ?_
        refine (safe_settle _).bind fun _ =>
          (safe_needNumbers _).bind fun _ => ?_
        exact keeps_pure fun x hx => harray.mono hx
  | _ => exact keeps_throw _

theorem keeps_load {slice : Slice State} (hslice : Tame w slice.array)
    (shape : Shape) :
    Keeps w (Buffer.load slice shape : Act Scope Buffer) fun w b =>
      b.values.Fits w :=
  (keeps_transferLoad hslice shape).bind fun _ _ _ hm => keeps_bufferAllocate hm

theorem keeps_scratch (shape : Shape) (name : String) :
    Keeps w (Buffer.scratch shape name : Act Scope Buffer) fun w b =>
      b.values.Fits w := by
  refine Keeps.bind (keeps_settle fun m h _ _ => Masked.sound_of_scratch h)
    fun u m _ hm => ?_
  exact keeps_bufferAllocate hm

/-! ## Steps that make an object -/

@[simp] theorem safe_newRecorder : Safe w (Host.newRecorder : Act Scope Nat) :=
  safe_of_same (fun _ => rfl) fun _ => rfl

@[simp] theorem safe_newDriver (options : Options) :
    Safe w (Host.newDriver options : Act Scope Nat) :=
  safe_newRecorder.bind fun _ => safe_of_same (fun _ => rfl) fun _ => rfl

/-- **What a step makes fits the layout.** -/
theorem keeps_make (m : Make) : Keeps w m.perform fun w o => o.Fits w := by
  cases m with
  | zeros kind shape =>
      refine (safe_evalShape shape).bind fun shape => ?_
      exact keeps_newTensor fun b h => Block.sound_of_zerosNamed h
  | full kind shape value =>
      refine (safe_eval shape).bind fun shape =>
        (safe_eval value).bind fun value => ?_
      refine (safe_settle _).bind fun shape => ?_
      exact keeps_newTensor fun b h => Block.sound_of_full h
  | range kind stop shape? =>
      refine (safe_eval stop).bind fun stop =>
        (safe_eval? shape?).bind fun shape => ?_
      refine (safe_settle _).bind fun shape? => ?_
      exact keeps_newTensor fun b h => Block.sound_of_range h
  | ofValues kind values shape? =>
      refine (safe_eval values).bind fun values =>
        (safe_eval? shape?).bind fun shape => ?_
      refine (safe_settle _).bind fun shape? => ?_
      exact keeps_newTensor fun b h => sound_of_arrayOf h
  | share of shape =>
      refine (keeps_find of).bind fun u o _ ho =>
        (safe_evalList shape).bind fun shape => ?_
      exact keeps_shareOf ho shape
  | sliceAt of origin => exact keeps_resolve (.at of origin)
  | slice target =>
    exact (keeps_resolve target).bind fun u o _ ho => keeps_toSlice ho
  | existing of => exact keeps_find of
  | observe of shape? =>
      refine (keeps_find of).bind fun u o _ ho => ?_
      cases shape? with
      | some t =>
        exact (safe_evalItem t).bind fun shape => keeps_observeOf ho shape
      | none => exact keeps_observeOf ho _
  | load context? target shape =>
      refine (keeps_resolve target).bind fun u target _ htarget => ?_
      refine (safe_eval shape).bind fun shape =>
        (safe_findIf context?).bind fun context? => ?_
      refine (safe_needTile context?).bind fun _ =>
        (safe_settle _).bind fun shape => ?_
      refine (keeps_sliceFor htarget shape).bind fun v slice _ hslice => ?_
      refine (keeps_load hslice shape).bind fun x b _ hb =>
        keeps_pure fun y hy => ?_
      exact Object.fits_buffer.mpr (hb.mono hy)
  | scratch context? kind shape =>
      refine (safe_eval shape).bind fun shape =>
        (safe_findIf context?).bind fun context? => ?_
      refine (safe_needTile context?).bind fun _ =>
        (safe_settle _).bind fun shape => ?_
      refine (keeps_scratch shape kind).bind fun u b _ hb =>
        keeps_pure fun v hv => ?_
      exact Object.fits_buffer.mpr (hb.mono hv)
  | valuesOf of => exact (keeps_find of).bind fun u o _ ho => keeps_valuesIn ho
  | masked values valid =>
      refine (keeps_find values).bind fun u o _ ho =>
        (safe_evalList valid).bind fun valid => ?_
      exact keeps_maskOf ho valid
  | context id offset shape nominal domain counts =>
      refine (safe_evalFixed id).bind fun id =>
        (safe_evalFixed offset).bind fun offset => ?_
      refine (safe_evalFixed shape).bind fun shape =>
        (safe_evalFixed nominal).bind fun nominal => ?_
      refine (safe_evalFixed domain).bind fun domain =>
        (safe_evalFixed counts).bind fun counts => ?_
      exact keeps_pure fun _ _ => Object.fits_of_tensors rfl
  | driver options =>
      exact (safe_newDriver options).bind fun _ => keeps_pure fun _ _ =>
        Object.fits_of_tensors rfl
  | recorder =>
      exact safe_newRecorder.bind fun _ => keeps_pure fun _ _ =>
        Object.fits_of_tensors rfl
  | snapshot of =>
      refine (safe_findRecorder of).bind fun recorder => ?_
      intro u h _ hh
      exact ⟨u, .refl u, hh.of_same rfl rfl, Object.fits_of_tensors rfl⟩
  | group domain tile =>
      refine (safe_eval domain).bind fun domain =>
        (safe_eval tile).bind fun tile => ?_
      refine (safe_settle _).bind fun domain =>
        (safe_settle _).bind fun tile => ?_
      exact (safe_settle _).bind fun _ => keeps_pure fun _ _ =>
        Object.fits_of_tensors rfl

end TileGrid.Script
