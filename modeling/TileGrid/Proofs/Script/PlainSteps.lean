import TileGrid.Script.Exec
import TileGrid.Proofs.Script.Changing
import TileGrid.Proofs.Script.PlainReading

/-!
# Plain steps before any backdrop

Making arrays, slices and tiles, writing, storing and mapping are the same
before every backdrop, up to the kernels and drivers in what is made. What is
left are the steps about drivers, traces and settings (`Make.isPlain`,
`Change.isPlain`) and those that run bodies.
-/

namespace TileGrid.Script

open State

variable {b : Backdrop}

/-! ## Arrays and buffers -/

theorem tracks_newTensor (block : Except Fault Block) :
    Tracks b (Object.under b) (newTensor block) (newTensor block) :=
  (blind_settle _).bind fun _ => Blind.bind (fun _ => rfl) fun _ =>
    mirrors_pure _

theorem blind_bufferAllocate (m : Masked) :
    Blind b (Buffer.allocate m : Act Scope Buffer) :=
  fun _ => rfl

theorem blind_share (t : Tensor) (shape : Shape) :
    Blind b (t.share shape : Act Scope Tensor) := by
  intro h
  unfold Tensor.share
  rw [show (under b h).cells t.storage = h.cells t.storage from rfl]
  cases shape.checkExtents with
  | error f => rfl
  | ok _ =>
      dsimp only
      split <;> rfl

theorem tracks_shareOf (o : Object) (shape : Shape) :
    Tracks b (Object.under b) (shareOf o shape)
      (shareOf (o.under b) shape) := by
  cases o with
  | tensor t => exact Mirrors.map (blind_share t shape) fun _ => rfl
  | nothing => exact tracks_throw _
  | buffer b' => exact tracks_newTensor _
  | masked values valid =>
      unfold shareOf
      simp only [Object.under, Object.kind, values.kind_under]
      cases values.kind with
      | ok kind => exact tracks_newTensor _
      | error f => exact (blind_settle _).bind fun _ => tracks_throw _
  | observed log own inner =>
      unfold shareOf
      simp only [Object.under, Object.kind, inner.kind_under]
      cases inner.kind with
      | ok kind => exact tracks_newTensor _
      | error f => exact (blind_settle _).bind fun _ => tracks_throw _
  | _ => exact (blind_settle _).bind fun _ => tracks_throw _

theorem tracks_observeOf (o : Object) (shape : Item) :
    Tracks b (Object.under b) (observeOf o shape)
      (observeOf (o.under b) shape) := by
  unfold observeOf
  rw [Object.shape_under]
  exact (blind_settle _).bind fun own => fun _ => rfl

theorem blind_bufferMake (t : Tensor) (valid : Shape) :
    Blind b (Buffer.make t valid : Act Scope Buffer) := by
  intro h
  unfold Buffer.make
  rw [show t.block (under b h) = t.block h from rfl]
  cases Masked.make (t.block h) valid <;> rfl

theorem tracks_maskOf (o : Object) (valid : Shape) :
    Tracks b (Object.under b) (maskOf o valid) (maskOf (o.under b) valid) := by
  have hother : Tracks b (Object.under b)
      (do
        let shape ← settle o.shape
        let shape ← present shape
        if (shape.parts?.map valid.fitsIn).getD false then
          return .masked o valid
        else do
          let shape ← settle shape.components
          throw (.validBox valid shape))
      (do
        let shape ← settle (o.under b).shape
        let shape ← present shape
        if (shape.parts?.map valid.fitsIn).getD false then
          return .masked (o.under b) valid
        else do
          let shape ← settle shape.components
          throw (.validBox valid shape)) := by
    rw [Object.shape_under]
    refine (blind_settle _).bind fun shape =>
      (blind_present shape).bind fun shape => ?_
    exact mirrors_ite (mirrors_pure _)
      ((blind_settle _).bind fun _ => tracks_throw _)
  cases o with
  | tensor t => exact Mirrors.map (blind_bufferMake t valid) fun _ => rfl
  | _ => exact hother

theorem tracks_valuesIn (o : Object) :
    Tracks b (Object.under b) (valuesIn o) (valuesIn (o.under b)) := by
  cases o with
  | buffer b' => exact mirrors_pure _
  | masked values valid => exact mirrors_pure _
  | _ => exact tracks_throw _

/-! ## Slices and transfers -/

@[simp] theorem blind_originOf (i : Item) : Blind b (originOf i) := by
  unfold originOf
  split <;> simp

theorem tracks_resolve (target : Target) :
    Tracks b (Object.under b) (resolve target) (resolve target) := by
  cases target with
  | named name => exact tracks_find name
  | «at» name origin =>
      refine (tracks_find name).bind fun o _ =>
        (blind_evalItem origin).bind fun origin => ?_
      cases o with
      | tensor t =>
        exact (blind_originOf origin).bind fun origin => mirrors_pure _
      | _ => exact tracks_throw _
  | «from» name origin =>
      refine (tracks_find name).bind fun o _ =>
        (blind_evalItem origin).bind fun origin => ?_
      exact mirrors_pure _

@[simp] theorem blind_zeroOrigin (shape : Item) :
    Blind b (zeroOrigin shape) := by simp [zeroOrigin]

theorem tracks_toSlice (o : Object) :
    Tracks b (Object.under b) (toSlice o) (toSlice (o.under b)) := by
  have hslice : Tracks b (Object.under b)
      (do
        let shape ← settle o.shape
        let origin ← zeroOrigin shape
        return .slice o origin)
      (do
        let shape ← settle (o.under b).shape
        let origin ← zeroOrigin shape
        return .slice (o.under b) origin) := by
    rw [Object.shape_under]
    exact (blind_settle _).bind fun shape =>
      (blind_zeroOrigin shape).bind fun _ => mirrors_pure _
  cases o with
  | slice array origin => exact mirrors_pure _
  | _ => exact hslice

theorem tracks_sliceFor (target : Object) (box : Shape) :
    Tracks b id (sliceFor target box) (sliceFor (target.under b) box) := by
  refine (tracks_toSlice target).bind fun o _ => ?_
  cases o with
  | slice o start =>
      show Tracks b id (settle o.shape >>= _) (settle (o.under b).shape >>= _)
      rw [Object.shape_under]
      refine (blind_settle _).bind fun shape =>
        (blind_present shape).bind fun shape => ?_
      refine (blind_present start).bind fun start => ?_
      split
      · exact tracks_throw _
      · exact tracks_throw _
      · refine (blind_backing o).bind fun array _ => ?_
        refine (blind_settle _).bind fun _ =>
          (blind_needNumbers _).bind fun _ => blind_pure _
  | _ => exact tracks_throw _

theorem blindArray_of_sliceFor {target : Object} {box : Shape}
    {slice : Slice State} (h : Returns (sliceFor target box) slice) :
    BlindArray b slice.array := by
  obtain ⟨o, -, h⟩ := h.of_bind
  cases o with
  | slice o start =>
      obtain ⟨shape, -, h⟩ := h.of_bind
      obtain ⟨shape, -, h⟩ := h.of_bind
      obtain ⟨start, -, h⟩ := h.of_bind
      split at h
      · exact absurd h not_returns_throw
      · exact absurd h not_returns_throw
      · obtain ⟨array, harray, h⟩ := h.of_bind
        obtain ⟨_, -, h⟩ := h.of_bind
        obtain ⟨_, -, h⟩ := h.of_bind
        obtain rfl := h.pure_eq
        exact blindArray_of_backing harray
  | _ => exact absurd h not_returns_throw

theorem blind_transferLoad {slice : Slice State}
    (hslice : BlindArray b slice.array) (shape : Shape) :
    Blind b (Transfer.load slice shape) := by
  refine (blind_settle _).bind fun _ => (blind_settle _).bind fun fresh => ?_
  refine Blind.bind (blind_visitAll fun out index _ => ?_) fun values =>
    blind_settle _
  exact (hslice.get _).bind fun e => blind_settle _

theorem blind_ofReads {kind : Kind} {shape valid : Shape}
    {read : Index → Act Scope Element}
    {fn : Element → Index → Act Scope Element}
    (hread : ∀ index, Blind b (read index))
    (hfn : ∀ e index, Blind b (fn e index)) :
    Blind b (Masked.ofReads kind shape valid read fn) := by
  refine (blind_settle _).bind fun fresh => ?_
  refine Blind.bind (blind_visitAll fun out index _ => ?_) fun values =>
    blind_settle _
  exact (hread index).bind fun e => (hfn e index).bind fun r => blind_settle _

theorem blind_transferStore {slice : Slice State}
    (hslice : BlindArray b slice.array) {shape valid : Shape}
    {read : Index → Act Scope Element} (hread : ∀ index, Blind b (read index)) :
    Blind b (Transfer.store slice shape valid read) := by
  refine (blind_settle _).bind fun _ => blind_visitAll fun _ index _ => ?_
  exact (hread index).bind fun e => hslice.set _ e

/-! ## Steps that make an object -/

/-- What is made is no driver and nothing of a trace. -/
def Make.isPlain : Make → Bool
  | driver _ | recorder | snapshot _ => false
  | _ => true

/-- **A plain step makes the same before every backdrop.** -/
theorem tracks_make {m : Make} (hm : m.isPlain = true) :
    Tracks b (Object.under b) m.perform m.perform := by
  cases m with
  | driver options => cases hm
  | recorder => cases hm
  | snapshot of => cases hm
  | zeros kind shape =>
    exact (blind_evalShape shape).bind fun shape => tracks_newTensor _
  | full kind shape value =>
      refine (blind_eval shape).bind fun shape =>
        (blind_eval value).bind fun value => ?_
      exact (blind_settle _).bind fun shape => tracks_newTensor _
  | range kind stop shape? =>
      refine (blind_eval stop).bind fun stop =>
        (blind_eval? shape?).bind fun shape => ?_
      exact (blind_settle _).bind fun shape? => tracks_newTensor _
  | ofValues kind values shape? =>
      refine (blind_eval values).bind fun values =>
        (blind_eval? shape?).bind fun shape => ?_
      exact (blind_settle _).bind fun shape? => tracks_newTensor _
  | share of shape =>
      refine (tracks_find of).bind fun o _ =>
        (blind_evalList shape).bind fun shape => ?_
      exact tracks_shareOf o shape
  | sliceAt of origin => exact tracks_resolve (.at of origin)
  | slice target =>
    exact (tracks_resolve target).bind fun o _ => tracks_toSlice o
  | existing of => exact tracks_find of
  | observe of shape? =>
      refine (tracks_find of).bind fun o _ => ?_
      cases shape? with
      | some t => exact (blind_evalItem t).bind fun shape =>
          tracks_observeOf o shape
      | none => exact tracks_observeOf o _
  | load context? target shape =>
      refine (tracks_resolve target).bind fun target _ =>
        (blind_eval shape).bind fun shape => ?_
      refine (tracks_findIf context?).bind fun o? _ =>
        (tracks_needTile o?).bind fun _ _ => ?_
      refine (blind_settle _).bind fun shape =>
        (tracks_sliceFor target shape).bind fun slice h => ?_
      have hload := blind_transferLoad (blindArray_of_sliceFor (b := b) h) shape
      exact Blind.bind (hload.bind fun m => blind_bufferAllocate m) fun _ =>
        mirrors_pure _
  | scratch context? kind shape =>
      refine (blind_eval shape).bind fun shape => ?_
      refine (tracks_findIf context?).bind fun o? _ =>
        (tracks_needTile o?).bind fun _ _ => ?_
      refine (blind_settle _).bind fun shape => ?_
      exact Blind.bind ((blind_settle _).bind fun m => blind_bufferAllocate m)
        fun _ => mirrors_pure _
  | valuesOf of => exact (tracks_find of).bind fun o _ => tracks_valuesIn o
  | masked values valid =>
      refine (tracks_find values).bind fun o _ =>
        (blind_evalList valid).bind fun valid => ?_
      exact tracks_maskOf o valid
  | context id offset shape nominal domain counts =>
      refine (blind_evalFixed id).bind fun id =>
        (blind_evalFixed offset).bind fun offset => ?_
      refine (blind_evalFixed shape).bind fun shape =>
        (blind_evalFixed nominal).bind fun nominal => ?_
      refine (blind_evalFixed domain).bind fun domain =>
        (blind_evalFixed counts).bind fun counts => ?_
      exact mirrors_pure _
  | group domain tile =>
      refine (blind_eval domain).bind fun domain =>
        (blind_eval tile).bind fun tile => ?_
      refine (blind_settle _).bind fun domain =>
        (blind_settle _).bind fun tile => ?_
      exact (blind_settle _).bind fun _ => mirrors_pure _

/-! ## Steps that change something -/

theorem blind_writeAt (o : Object) (index : Number) (value : Element) :
    Tracks b id (writeAt o index value) (writeAt (o.under b) index value) := by
  induction o with
  | tensor t =>
      refine (blind_settle _).bind fun index? => ?_
      cases index? <;> simp
  | buffer b' =>
      refine (blind_settle _).bind fun index? => ?_
      cases index? with
      | some index => exact blind_set _ index value
      | none => exact tracks_throw _
  | masked values valid ih => exact ih
  | observed log shape inner ih =>
    exact (blind_noteSet log index value).bind fun _ => ih
  | _ => exact tracks_throw _

theorem blind_destination (o : Object) :
    Tracks b id (destination o) (destination (o.under b)) := by
  cases o with
  | tensor t => exact blind_pure _
  | observed log shape inner => cases inner <;> simp [destination, Object.under]
  | slice array origin =>
      cases array with
      | tensor t => exact blind_pure _
      | observed log shape inner =>
        cases inner <;> simp [destination, Object.under]
      | _ => exact tracks_throw _
  | _ => exact tracks_throw _

theorem blind_storeFrom (target buffer : Object) :
    Tracks b id (storeFrom target buffer)
      (storeFrom (target.under b) (buffer.under b)) := by
  unfold storeFrom
  rw [Object.shape_under]
  refine (blind_settle _).bind fun shape =>
    (blind_readList shape).bind fun shape => ?_
  refine (tracks_sliceFor target shape).bind fun slice h => ?_
  have hslice := blindArray_of_sliceFor (b := b) h
  cases buffer with
  | buffer b' => exact blind_transferStore hslice fun index => blind_get _ index
  | masked values valid =>
      refine (blind_backing values).bind fun array harray => ?_
      exact blind_transferStore hslice (blindArray_of_backing harray).get
  | _ => exact tracks_throw _

@[simp] theorem blind_toFault (t : Toss) : Blind b t.toFault := by
  cases t <;> simp [Toss.toFault]

/-- What is changed is nothing of a trace and not the environment, and nothing
is shown but values. -/
def Change.isPlain : Change → Bool
  | mutate _ _ _ | setEnvironment _ | record _ _ | clear _ | dropFirst _ =>
    false
  | _ => true

/-- **A plain step changes the same before every backdrop.** -/
theorem blind_change {c : Change} (hc : c.isPlain = true) :
    Blind b c.perform := by
  cases c with
  | mutate of field value => cases hc
  | setEnvironment assignments => cases hc
  | record of fields => cases hc
  | clear of => cases hc
  | dropFirst of => cases hc
  | set of index value =>
      refine blind_find of fun o => (blind_eval index).bind fun index => ?_
      refine (blind_eval value).bind fun value => ?_
      exact (blind_writeAt o index _).bind fun _ _ => blind_pure _
  | copy source sourceIndex target targetIndex =>
      refine blind_find source fun o =>
        (blind_eval sourceIndex).bind fun index => ?_
      refine (blind_readAt o index).bind fun e _ =>
        blind_find target fun o => ?_
      refine (blind_eval targetIndex).bind fun index => ?_
      exact (blind_writeAt o index e).bind fun _ _ => blind_pure _
  | store context? target buffer =>
      refine (tracks_resolve target).bind fun target _ =>
        (tracks_find buffer).bind fun buffer _ => ?_
      refine (tracks_findIf context?).bind fun o? _ =>
        (tracks_needTile o?).bind fun _ _ => ?_
      refine (blind_storeFrom target buffer).bind fun _ _ => ?_
      refine (blind_destination target).bind fun t _ => ?_
      exact Blind.bind (blind_settle_read fun _ => rfl) fun es => blind_pure _
  | throw t => exact (blind_toFault t).bind fun f => tracks_throw f

/-! ## Maps -/

theorem blind_noted (fn : Element → Index → Except Fault Element) (e : Element)
    (index : Index) :
    Blind b (noted fn e index) :=
  Blind.bind (blind_adjust fun _ => rfl) fun _ => blind_settle _

theorem blind_mapNamed (of : String) (fn : ElementFn) (k : Term) :
    Blind b (mapNamed of fn k) := by
  refine blind_find of fun o => (blind_eval k).bind fun k => ?_
  cases o with
  | buffer b' =>
      exact Blind.bind (blind_ofReads (blind_get b'.values) (blind_noted _))
        fun m => blind_bufferAllocate m
  | masked values valid =>
      refine (blind_backing values).bind fun array harray => ?_
      have hread := (blindArray_of_backing (b := b) harray).get
      rw [Object.shape_under]
      refine (blind_settle _).bind fun shape =>
        (blind_readList shape).bind fun shape => ?_
      exact Blind.bind (blind_ofReads hread (blind_noted _)) fun m =>
        blind_bufferAllocate m
  | _ => exact tracks_throw _

end TileGrid.Script
