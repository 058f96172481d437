import TileGrid.Script.Step
import TileGrid.Proofs.Script.Making

/-!
# Single steps keep the layout

Writes through an object go to storages that it fits, stores and maps read and
write element by element and may stop at any of them, and names are bound to
what was made. So every single step leads from a state on its layout to one on
an extension of it (`safe_perform`).
-/

namespace TileGrid.Script

open State

variable {w : Layout}

/-! ## Steps that change something -/

theorem safe_writeAt {o : Object} (ho : o.Fits w) (index : Number)
    (value : Element) :
    Safe w (writeAt o index value) := by
  induction o with
  | tensor t =>
      refine (safe_settle _).bind fun index? => ?_
      cases index? with
      | some index => exact safe_set (Object.fits_tensor.mp ho) index value
      | none => exact keeps_throw _
  | buffer b =>
      refine (safe_settle _).bind fun index? => ?_
      cases index? with
      | some index => exact safe_set (Object.fits_buffer.mp ho) index value
      | none => exact keeps_throw _
  | masked values valid ih => exact ih ho
  | observed log shape inner ih =>
    exact (safe_noteSet log index value).bind fun _ => ih ho
  | _ => exact keeps_throw _

theorem safe_assignField {o : Object} (ho : o.Fits w) (field : String)
    (i : Item) :
    Safe w (assignField o field i) := by
  unfold assignField
  split
  · refine (safe_present i).bind fun v => ?_
    exact safe_setFirst (Object.fits_tensor.mp ho) (.ofNumber v)
  · exact safe_adjust fun _ => rfl
  · refine (safe_present i).bind fun v => (safe_shown v).bind fun v => ?_
    exact safe_of_same (fun _ => rfl) fun _ => rfl
  · refine (safe_present i).bind fun v => (safe_shown v).bind fun v => ?_
    exact safe_adjust fun _ => rfl
  iterate 5 exact safe_pure _
  · cases o.list? field with
    | none => exact keeps_throw _
    | some item =>
        cases item with
        | value x => exact keeps_throw _
        | list id =>
            intro u h _ hh
            dsimp only
            split
            · exact ⟨u, .refl u, hh⟩
            · exact ⟨u, .refl u, hh.of_same rfl rfl, trivial⟩

theorem safe_destination (o : Object) : Safe w (destination o) := by
  unfold destination
  split <;> simp

/-- A store may stop at any element, and what it wrote before stays. -/
theorem safe_store {slice : Slice State} (hslice : Tame w slice.array)
    {shape valid : Shape} {read : Index → Act Scope Element}
    (hread : ∀ index, Safe w (read index)) :
    Safe w (Transfer.store slice shape valid read) := by
  refine (safe_settle _).bind fun _ => safe_visitAll fun _ index _ => ?_
  exact (hread index).bind fun e => hslice.set _ e

theorem safe_storeFrom {target buffer : Object} (ht : target.Fits w)
    (hb : buffer.Fits w) :
    Safe w (storeFrom target buffer) := by
  refine (safe_settle _).bind fun shape =>
    (safe_readList shape).bind fun shape => ?_
  refine (keeps_sliceFor ht shape).bind fun u slice hu hslice => ?_
  cases buffer with
  | buffer b => exact safe_store hslice fun index => safe_get b.values index
  | masked values valid =>
      refine (keeps_backing ((Object.fits_masked.mp hb).mono hu)).bind
        fun v array hv harray => ?_
      exact safe_store (hslice.mono hv) harray.get
  | _ => exact keeps_throw _

@[simp] theorem safe_toFault (t : Toss) : Safe w t.toFault := by
  cases t <;> simp [Toss.toFault]

theorem safe_change (c : Change) : Safe w c.perform := by
  cases c with
  | set of index value =>
      refine (keeps_find of).bind fun u o _ ho =>
        (safe_eval index).bind fun index => ?_
      refine (safe_eval value).bind fun value => ?_
      exact (safe_writeAt ho index _).bind fun _ => safe_pure _
  | copy source sourceIndex target targetIndex =>
      refine (safe_find source).bind fun o =>
        (safe_eval sourceIndex).bind fun index => ?_
      refine (safe_readAt o index).bind fun e =>
        (keeps_find target).bind fun u o _ ho => ?_
      refine (safe_eval targetIndex).bind fun index => ?_
      exact (safe_writeAt ho index e).bind fun _ => safe_pure _
  | store context? target buffer =>
      refine (keeps_resolve target).bind fun u target _ ht => ?_
      refine (keeps_find buffer).bind fun v buffer hv hb => ?_
      refine (safe_findIf context?).bind fun context? =>
        (safe_needTile context?).bind fun _ => ?_
      refine (safe_storeFrom (ht.mono hv) hb).bind fun _ => ?_
      refine (safe_destination target).bind fun t => ?_
      exact (safe_settle_read _).bind fun es => safe_pure _
  | mutate of field value =>
      refine (keeps_find of).bind fun u o _ ho =>
        (safe_evalItem value).bind fun i => ?_
      refine (safe_assignField ho field i).bind fun _ => ?_
      simp
  | setEnvironment assignments => exact safe_of_same (fun _ => rfl) fun _ => rfl
  | record of fields =>
      exact (safe_findRecorder of).bind fun id =>
        safe_of_same (fun _ => rfl) fun _ => rfl
  | clear of =>
    exact (safe_findRecorder of).bind fun id =>
      safe_of_same (fun _ => rfl) fun _ => rfl
  | dropFirst of =>
      exact (safe_findSnapshot of).bind fun id =>
        safe_of_same (fun _ => rfl) fun _ => rfl
  | throw t => exact (safe_toFault t).bind fun f => keeps_throw f

/-! ## Maps -/

theorem safe_noted (fn : Element → Index → Except Fault Element) (e : Element)
    (index : Index) :
    Safe w (noted fn e index) := by
  refine Safe.bind ?_ fun _ => safe_settle _
  exact safe_adjust fun _ => rfl

theorem keeps_mapNamed (of : String) (fn : ElementFn) (k : Term) :
    Keeps w (mapNamed of fn k) fun w b => b.values.Fits w := by
  refine (keeps_find of).bind fun u o _ ho => (safe_eval k).bind fun k => ?_
  cases o with
  | buffer b =>
      refine Keeps.bind (keeps_ofReads (safe_get b.values) (safe_noted _))
        fun v m _ hm => ?_
      exact keeps_bufferAllocate hm
  | masked values valid =>
      refine (keeps_backing (Object.fits_masked.mp ho)).bind
        fun v array _ harray => ?_
      refine (safe_settle _).bind fun shape =>
        (safe_readList shape).bind fun shape => ?_
      refine Keeps.bind (keeps_ofReads harray.get (safe_noted _))
        fun x m _ hm => ?_
      exact keeps_bufferAllocate hm
  | _ => exact keeps_throw _

/-! ## Steps -/

theorem Keeps.asStep {α : Type} {act : Act Scope α} {post : Layout → α → Prop}
    (h : Keeps w act post) : Keeps w (asStep act) post := by
  intro u s hu hs
  have hland := h u s hu hs
  unfold Script.asStep
  cases hr : act s with
  | ok a s' =>
      rw [hr] at hland
      exact hland
  | error f s' =>
      rw [hr] at hland
      exact hland

theorem safe_bindName (as? : Option String) {o : Object} (ho : o.Fits w) :
    Safe w (bindName as? o) := by
  intro u h hu hh
  refine ⟨u, .refl u, ?_, trivial⟩
  cases as? with
  | none => exact hh
  | some name => exact hh.bind name (ho.mono hu)

theorem Keeps.collectCalls {act : Act Scope Buffer}
    {post : Layout → Buffer → Prop} (h : Keeps w act post) :
    Keeps w (collectCalls act) fun w bc => post w bc.1 := by
  intro u s hu hs
  have hclear : Follows u (modifyScope s ({ · with calls := #[] })) :=
    hs.of_same rfl rfl
  have hland := h u _ hu hclear
  unfold Script.collectCalls
  dsimp only
  cases hr : act (modifyScope s ({ · with calls := #[] })) with
  | ok b s' =>
      rw [hr] at hland
      exact hland.ok_of_same rfl rfl fun _ hb => hb
  | error f s' =>
      rw [hr] at hland
      exact hland.error_of_same rfl rfl

/-- **A single step leads to a state on an extension of the layout**, whether it
succeeds or fails. -/
theorem safe_perform (s : Step) : Safe w s.perform := by
  cases s with
  | make as? m =>
      refine (keeps_make m).asStep.bind fun u o _ ho =>
        (safe_bindName as? ho).bind fun _ => ?_
      exact Safe.bind (safe_view o).asStep fun v => safe_pure _
  | map as? of fn k =>
      refine (keeps_mapNamed of fn k).collectCalls.bind fun u bc _ hb => ?_
      refine (safe_bindName as? (Object.fits_buffer.mpr hb)).bind fun _ => ?_
      exact Safe.bind (safe_view _).asStep fun v => safe_pure _
  | ask a => exact (safe_answer a).asStep
  | change c => exact (safe_change c).asStep

end TileGrid.Script
