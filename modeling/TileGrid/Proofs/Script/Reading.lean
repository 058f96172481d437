import TileGrid.Script.Ask
import TileGrid.Proofs.Script.Keeps

/-!
# Reading keeps everything in place

Terms, lookups, views and the steps that only answer leave every state on its
layout. What is found under a name fits the layout, and an array behind any
object can be read and written safely (`keeps_backing`).
-/

namespace TileGrid.Script

open State

variable {w : Layout}

namespace State

/-! ## Finding objects -/

theorem keeps_find (name : String) :
    Keeps w (find name) fun w o => o.Fits w := by
  intro u h _ hh
  unfold find
  cases ho : h.caller.find name with
  | error f => exact ⟨u, .refl u, hh⟩
  | ok o => exact ⟨u, .refl u, hh, hh.find ho⟩

@[simp] theorem safe_find (name : String) : Safe w (find name) :=
  (keeps_find name).safe

theorem keeps_findTensor (name : String) :
    Keeps w (findTensor name) fun w t => t.Fits w := by
  refine (keeps_find name).bind fun u o _ ho => ?_
  cases o with
  | tensor t => exact keeps_pure fun _ hv => (Object.fits_tensor.mp ho).mono hv
  | _ => exact keeps_throw _

@[simp] theorem safe_read {ε α : Type} (f : State → α) :
    Safe w (fun h => .ok (f h) h : EStateM ε State α) :=
  safe_of_same (fun _ => rfl) fun _ => rfl

@[simp] theorem safe_settle_read {ε α : Type} (f : State → Except ε α) :
    Safe w (fun h => settle (f h) h : EStateM ε State α) := 
  keeps_of_state (fun h => settle (f h)) fun h => safe_settle (f h)

/-- A change of the scope that leaves the names as they are. -/
theorem safe_adjust {f : Scope → Scope} (hf : ∀ s, (f s).names = s.names) :
    Safe w (adjust f) :=
  safe_of_same (fun _ => rfl) fun h => hf h.caller

@[simp] theorem safe_findRecorder (name : String) :
    Safe w (findRecorder name) := by
  refine (safe_find name).bind fun o => ?_
  cases o <;> simp

@[simp] theorem safe_findSnapshot (name : String) :
    Safe w (findSnapshot name) := by
  refine (safe_find name).bind fun o => ?_
  cases o <;> simp

@[simp] theorem safe_findTile (name : String) : Safe w (findTile name) := by
  refine (safe_find name).bind fun o => ?_
  cases o <;> simp

@[simp] theorem safe_driverId (o : Object) : Safe w (driverId o) := by
  cases o <;> simp [driverId]

@[simp] theorem safe_findIf (name? : Option String) :
    Safe w (findIf name?) := by
  cases name? <;> simp [findIf]

@[simp] theorem safe_needTile (o? : Option Object) : Safe w (needTile o?) := by
  unfold needTile
  split <;> simp

/-! ## Lists and terms -/

@[simp] theorem safe_newList (items : List Item) (fixed : Bool) :
    Safe w (newList items fixed) :=
  safe_of_same (fun _ => rfl) fun _ => rfl

@[simp] theorem safe_present (i : Item) : Safe w (present i) := safe_read _

@[simp] theorem safe_shown (v : Number) : Safe w (shown v) := by simp [shown]

@[simp] theorem safe_readList (i : Item) : Safe w (readList i) := by
  simp [readList]

@[simp] theorem safe_itemsOf (i : Item) : Safe w (itemsOf i) := by
  cases i with
  | value x => simp [itemsOf]
  | list id => exact safe_read _

@[simp] theorem safe_fixedCopy (i : Item) : Safe w (fixedCopy i) := by
  simp [fixedCopy]

@[simp] theorem safe_componentAt (i : Item) (d : Nat) :
    Safe w (componentAt i d) := by
  simp [componentAt]

@[simp] theorem safe_shapeItemsOf (i : Item) : Safe w (shapeItemsOf i) := by
  cases i <;> simp [shapeItemsOf]

@[simp] theorem safe_lookUp (r : Ref) : Safe w (lookUp r) := by
  cases r with
  | walk =>
      intro u h _ hh
      unfold lookUp
      dsimp only
      split
      · exact ⟨u, .refl u, hh, trivial⟩
      · exact ⟨u, .refl u, hh⟩
  | _ => exact (safe_findTile _).bind fun t => safe_pure _

@[simp] theorem safe_lookUpComponent (r : Ref) (k : Nat) :
    Safe w (lookUpComponent r k) := by
  simp [lookUpComponent]

mutual

@[simp] theorem safe_eval : ∀ t : Term, Safe w (eval t)
  | .value v => by simp [eval]
  | .ref r => by simp [eval]
  | .component r k => by simp [eval]
  | .list ts => by simp [eval, safe_evalAll ts]

theorem safe_evalAll : ∀ ts : List Term, Safe w (evalAll ts)
  | [] => by simp [evalAll]
  | t :: ts => by simp [evalAll, safe_eval t, safe_evalAll ts]

end

mutual

@[simp] theorem safe_evalItem : ∀ t : Term, Safe w (evalItem t)
  | .value v => by simp [evalItem]
  | .ref r => by simp [evalItem]
  | .component r k => by simp [evalItem]
  | .list ts => by simp [evalItem, safe_evalItems ts]

theorem safe_evalItems : ∀ ts : List Term, Safe w (evalItems ts)
  | [] => by simp [evalItems]
  | t :: ts => by simp [evalItems, safe_evalItem t, safe_evalItems ts]

end

@[simp] theorem safe_evalFixed (t : Term) : Safe w (evalFixed t) := by
  simp [evalFixed]

@[simp] theorem safe_evalShape (t : Term) : Safe w (evalShape t) := by
  simp [evalShape]

@[simp] theorem safe_evalList (t : Term) : Safe w (evalList t) := by
  simp [evalList]

@[simp] theorem safe_eval? (t? : Option Term) : Safe w (eval? t?) := by
  cases t? <;> simp [eval?]

@[simp] theorem safe_needNumbers (s : Shape) : Safe w (needNumbers s) := by
  simp [needNumbers]

/-! ## Arrays behind objects -/

/-- An array as transfers see it, through which nothing can go wrong. -/
structure Tame (w : Layout) (array : Backing State) : Prop where
  get : ∀ index, Safe w (array.get index)
  set : ∀ index value, Safe w (array.set index value)

theorem Tame.mono {w' : Layout} {array : Backing State} (h : Tame w array)
    (hw : w.Extends w') :
    Tame w' array where
  get := fun index => (h.get index).mono hw
  set := fun index value => (h.set index value).mono hw

@[simp] theorem safe_get (t : Tensor) (index : Index) :
    Safe w (t.get index : Act Scope Element) :=
  safe_settle_read _

/-- A write goes to a cell of the array's storage and leaves there what
its kind holds. -/
theorem safe_set {t : Tensor} (ht : t.Fits w) (index : Index)
    (value : Element) :
    Safe w (t.set index value : Act Scope Unit) := by
  intro u h hu hh
  unfold Tensor.set
  cases hplace : (t.block h).place index value with
  | error f => exact ⟨u, .refl u, hh⟩
  | ok pe =>
      -- what is written went through the conversion, so all arrays on this
      -- storage may hold it
      have hholds := Kind.holds_of_convert (Block.place_ok hplace)
      exact ⟨u, .refl u,
        ⟨hh.storages.putCell (ht.mono hu) pe.1 hholds, hh.names⟩, trivial⟩

theorem safe_setFirst {t : Tensor} (ht : t.Fits w) (value : Element) :
    Safe w (t.setFirst value : Act Scope Unit) := by
  intro u h hu hh
  unfold Tensor.setFirst
  cases hconv : t.kind.convert value with
  | error f => exact ⟨u, .refl u, hh⟩
  | ok e =>
      have hholds := Kind.holds_of_convert hconv
      exact ⟨u, .refl u, ⟨hh.storages.putCell (ht.mono hu) 0 hholds, hh.names⟩,
        trivial⟩

@[simp] theorem safe_bufferGet (b : Buffer) (index : Index) :
    Safe w (b.get index : Act Scope (Option Element)) := safe_settle_read _

theorem tame_tensor {t : Tensor} (ht : t.Fits w) : Tame w t.backing :=
  ⟨fun index => safe_get t index, fun index value => safe_set ht index value⟩

theorem tame_buffer {b : Buffer} (hb : b.values.Fits w) : Tame w b.backing :=
  ⟨fun index => by simp [Buffer.backing], fun index value =>
    safe_set hb index value⟩

@[simp] theorem safe_extents (shape : Item) : Safe w (extents shape) := by
  simp [extents]

@[simp] theorem safe_note (log : Nat) (a : Access) : Safe w (note log a) :=
  safe_adjust fun _ => rfl

@[simp] theorem safe_noteGet (log : Nat) (index : Number) :
    Safe w (noteGet log index) := by
  simp [noteGet]

@[simp] theorem safe_noteSet (log : Nat) (index : Number) (value : Element) :
    Safe w (noteSet log index value) := by
  simp [noteSet]

/-- The array behind an object that fits the layout. -/
theorem keeps_backing {o : Object} (ho : o.Fits w) :
    Keeps w (backing o) Tame := by
  induction o with
  | tensor t =>
    exact keeps_pure fun u hu =>
      tame_tensor ((Object.fits_tensor.mp ho).mono hu)
  | buffer b =>
    exact keeps_pure fun u hu =>
      tame_buffer ((Object.fits_buffer.mp ho).mono hu)
  | masked values valid ih =>
      refine (ih ho).bind fun u array _ harray => keeps_pure fun v hv => ?_
      exact ⟨fun index => keeps_ite ((harray.mono hv).get index) (safe_pure _),
        (harray.mono hv).set⟩
  | observed log shape inner ih =>
      refine (ih ho).bind fun u array _ harray =>
        (safe_extents shape).bind fun shape => ?_
      refine keeps_pure fun v hv => ⟨fun index => ?_, fun index value => ?_⟩
      · exact (safe_noteGet _ _).bind fun _ => (harray.mono hv).get index
      · exact (safe_noteSet _ _ _).bind fun _ =>
          (harray.mono hv).set index value
  | _ => exact keeps_throw _

@[simp] theorem safe_readAt (o : Object) (index : Number) :
    Safe w (readAt o index) := by
  induction o with
  | tensor t =>
      refine (safe_settle _).bind fun index? => ?_
      cases index? <;> simp
  | buffer b =>
      refine (safe_settle _).bind fun index? => ?_
      cases index? <;> simp [Buffer.backing]
  | masked values valid ih =>
    exact (safe_settle _).bind fun _ => keeps_ite ih (safe_pure _)
  | observed log shape inner ih => exact (safe_noteGet _ _).bind fun _ => ih
  | _ => exact keeps_throw _

theorem safe_readAll {box : Shape} {read : Index → Act Scope Element}
    (hread : ∀ index, Safe w (read index)) : Safe w (box.readAll read) := by
  refine Safe.bind (safe_visitAll fun out index _ => ?_) fun out => safe_pure _
  exact (hread index).bind fun e => safe_settle _

/-! ## Views -/

@[simp] theorem safe_display (i : Item) : Safe w (display i) := by
  simp [display]

@[simp] theorem safe_displayList (i : Item) : Safe w (displayList i) := by
  simp [displayList]

@[simp] theorem safe_displayLog (entries : List Logged) :
    Safe w (displayLog entries) := by
  induction entries with
  | nil => simp [displayLog]
  | cons entry rest ih => cases entry <;> simp [displayLog, ih]

@[simp] theorem safe_maskedView (values : Object) (valid : Shape) :
    Safe w (maskedView values valid) := by
  refine (safe_settle _).bind fun kind => (safe_settle _).bind fun shape => ?_
  simp

@[simp] theorem safe_tileView (t : TileLists) : Safe w (tileView t) := by
  refine (safe_displayList _).bind fun id =>
    (safe_displayList _).bind fun offset => ?_
  refine (safe_displayList _).bind fun shape =>
    (safe_displayList _).bind fun nominal => ?_
  simp

@[simp] theorem safe_view (o : Object) : Safe w (view o) := by
  induction o with
  | observed log shape inner ih =>
      refine (safe_settle _).bind fun kind =>
        (safe_display _).bind fun shape => ?_
      refine (safe_read _).bind fun entries =>
        (safe_displayLog entries).bind fun accesses => ?_
      exact ih.bind fun array => safe_pure _
  | _ => simp_all [view]

end State

/-! ## Questions -/

open State

/-- **A step that only answers leaves everything in place.** -/
theorem safe_answer (a : Ask) : Safe w a.answer := by
  cases a with
  | shape s =>
      refine (safe_eval s).bind fun v => (safe_settle _).bind fun v => ?_
      simp
  | strides s =>
      refine (safe_eval s).bind fun v => ?_
      cases v.parts? <;> simp
  | visits s =>
      refine (safe_evalList s).bind fun s =>
        (safe_needNumbers s).bind fun _ => ?_
      simp
  | ofNumber kind v =>
      refine (safe_eval v).bind fun v => (safe_settle _).bind fun kind => ?_
      simp
  | get of index =>
      refine (safe_find of).bind fun o => (safe_eval index).bind fun index => ?_
      simp
  | toList of =>
      exact (keeps_findTensor of).safe.bind fun t =>
        (safe_settle_read _).bind fun es => safe_pure _
  | check domain tile =>
      refine (safe_eval domain).bind fun domain =>
        (safe_eval tile).bind fun tile => ?_
      refine (safe_settle _).bind fun domain =>
        (safe_settle _).bind fun tile => ?_
      simp
  | counts domain tile =>
      refine (safe_eval domain).bind fun domain =>
        (safe_eval tile).bind fun tile => ?_
      refine (safe_settle _).bind fun domain =>
        (safe_settle _).bind fun tile => ?_
      simp
  | origin index tile =>
      refine (safe_eval index).bind fun index =>
        (safe_eval tile).bind fun tile => ?_
      refine (safe_settle _).bind fun index =>
        (safe_settle _).bind fun tile => ?_
      simp
  | extent start tile domain =>
      refine (safe_eval start).bind fun start =>
        (safe_eval tile).bind fun tile => ?_
      refine (safe_eval domain).bind fun domain =>
        (safe_settle _).bind fun start => ?_
      refine (safe_settle _).bind fun tile =>
        (safe_settle _).bind fun domain => ?_
      simp
  | compact of =>
      refine (keeps_find of).bind fun u o hu ho => ?_
      cases o with
      | buffer b =>
          refine Safe.bind (keeps_of_state (fun h => (b.masked h).compact)
            fun h => ?_) fun es => ?_
          · exact safe_readAll fun index => safe_settle _
          · exact safe_pure _
      | masked values valid =>
          refine (keeps_backing (Object.fits_masked.mp ho)).bind
            fun v array _ harray => ?_
          exact (safe_readAll harray.get).bind fun es => safe_pure _
      | _ => exact keeps_throw _
  | isValid of index =>
      refine (safe_find of).bind fun o => (safe_eval index).bind fun index => ?_
      cases o <;> simp
  | phase driver =>
      refine (safe_find driver).bind fun o =>
        (safe_driverId o).bind fun id => ?_
      simp
  | _ => simp [Ask.answer]

end TileGrid.Script
