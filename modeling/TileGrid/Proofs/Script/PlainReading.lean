import TileGrid.Proofs.Script.Backdrop

/-!
# Lookups, terms and arrays before any backdrop

What is found under a name is found before every backdrop, up to the kernels
and drivers in it. Terms, lists, elements of arrays and the answers of
questions are the same before all of them, but for the questions that are about
the backdrop (`Ask.isPlain`).
-/

namespace TileGrid.Script

open State

variable {b : Backdrop}

namespace State

/-! ## Finding objects -/

theorem tracks_find (name : String) :
    Tracks b (Object.under b) (find name) (find name) := by
  intro h
  show settle ((h.caller.under b).find name) (under b h) =
      carry (under b) id _ (settle (h.caller.find name) h)
  rw [Scope.find_under]
  cases h.caller.find name <;> rfl

/-- Finding an object and using of it what is the same before every backdrop. -/
theorem blind_find {α : Type} (name : String) {k : Object → Act Scope α}
    (hk : ∀ o, Tracks b id (k o) (k (o.under b))) : Blind b (find name >>= k) :=
  (tracks_find name).bind fun o _ => hk o

@[simp] theorem blind_findTensor (name : String) :
    Blind b (findTensor name) := by
  refine blind_find name fun o => ?_
  cases o <;> simp [Object.under]

@[simp] theorem blind_findSnapshot (name : String) :
    Blind b (findSnapshot name) := by
  refine blind_find name fun o => ?_
  cases o <;> simp [Object.under]

@[simp] theorem blind_findTile (name : String) : Blind b (findTile name) := by
  refine blind_find name fun o => ?_
  cases o <;> simp [Object.under]

theorem tracks_findIf (name? : Option String) :
    Tracks b (Option.map (Object.under b)) (findIf name?) (findIf name?) := by
  cases name? with
  | none => exact mirrors_pure _
  | some name => exact (tracks_find name).map fun _ => rfl

theorem tracks_needTile (o? : Option Object) :
    Tracks b id (needTile o?) (needTile (o?.map (Object.under b))) := by
  cases o? with
  | none => exact blind_pure _
  | some o => cases o <;> simp [Object.under, needTile]

/-! ## Lists and terms -/

theorem blind_adjust {f : Scope → Scope}
    (hf : ∀ s, f (s.under b) = (f s).under b) :
    Blind b (adjust f) := by
  intro h
  show EStateM.Result.ok () { under b h with
      caller := f (h.caller.under b) } = _
  rw [hf]
  rfl

@[simp] theorem blind_newList (items : List Item) (fixed : Bool) :
    Blind b (newList items fixed) :=
  fun _ => rfl

@[simp] theorem blind_present (i : Item) : Blind b (present i) :=
  blind_read fun h => h.caller.value_under i

@[simp] theorem blind_shown (v : Number) : Blind b (shown v) := by simp [shown]

@[simp] theorem blind_readList (i : Item) : Blind b (readList i) := by
  simp [readList]

@[simp] theorem blind_itemsOf (i : Item) : Blind b (itemsOf i) := by
  cases i with
  | value x => simp [itemsOf]
  | list id => exact blind_read fun _ => rfl

@[simp] theorem blind_fixedCopy (i : Item) : Blind b (fixedCopy i) := by
  simp [fixedCopy]

@[simp] theorem blind_componentAt (i : Item) (d : Nat) :
    Blind b (componentAt i d) := by
  simp [componentAt]

@[simp] theorem blind_shapeItemsOf (i : Item) : Blind b (shapeItemsOf i) := by
  cases i <;> simp [shapeItemsOf]

@[simp] theorem blind_lookUp (r : Ref) : Blind b (lookUp r) := by
  cases r with
  | walk =>
      intro h
      have hwalk : (under b h).caller.walk? = h.caller.walk? := rfl
      unfold lookUp
      dsimp only
      rw [hwalk]
      cases h.caller.walk? <;> rfl
  | _ => exact (blind_findTile _).bind fun t => blind_pure _

@[simp] theorem blind_lookUpComponent (r : Ref) (k : Nat) :
    Blind b (lookUpComponent r k) := by
  simp [lookUpComponent]

mutual

@[simp] theorem blind_eval : ∀ t : Term, Blind b (eval t)
  | .value v => by simp [eval]
  | .ref r => by simp [eval]
  | .component r k => by simp [eval]
  | .list ts => by simp [eval, blind_evalAll ts]

theorem blind_evalAll : ∀ ts : List Term, Blind b (evalAll ts)
  | [] => by simp [evalAll]
  | t :: ts => by simp [evalAll, blind_eval t, blind_evalAll ts]

end

mutual

@[simp] theorem blind_evalItem : ∀ t : Term, Blind b (evalItem t)
  | .value v => by simp [evalItem]
  | .ref r => by simp [evalItem]
  | .component r k => by simp [evalItem]
  | .list ts => by simp [evalItem, blind_evalItems ts]

theorem blind_evalItems : ∀ ts : List Term, Blind b (evalItems ts)
  | [] => by simp [evalItems]
  | t :: ts => by simp [evalItems, blind_evalItem t, blind_evalItems ts]

end

@[simp] theorem blind_evalFixed (t : Term) : Blind b (evalFixed t) := by
  simp [evalFixed]

@[simp] theorem blind_evalShape (t : Term) : Blind b (evalShape t) := by
  simp [evalShape]

@[simp] theorem blind_evalList (t : Term) : Blind b (evalList t) := by
  simp [evalList]

@[simp] theorem blind_eval? (t? : Option Term) : Blind b (eval? t?) := by
  cases t? <;> simp [eval?]

@[simp] theorem blind_needNumbers (s : Shape) : Blind b (needNumbers s) := by
  simp [needNumbers]

/-! ## Arrays behind objects -/

@[simp] theorem blind_get (t : Tensor) (index : Index) :
    Blind b (t.get index : Act Scope Element) :=
  blind_settle_read fun _ => rfl

@[simp] theorem blind_set (t : Tensor) (index : Index) (value : Element) :
    Blind b (t.set index value : Act Scope Unit) := by
  intro h
  have hblock : t.block (under b h) = t.block h := rfl
  unfold Tensor.set
  rw [hblock]
  cases (t.block h).place index value <;> rfl

@[simp] theorem blind_setFirst (t : Tensor) (value : Element) :
    Blind b (t.setFirst value : Act Scope Unit) := by
  intro h
  unfold Tensor.setFirst
  cases t.kind.convert value <;> rfl

@[simp] theorem blind_bufferGet (b' : Buffer) (index : Index) :
    Blind b (b'.get index : Act Scope (Option Element)) :=
  blind_settle_read fun _ => rfl

@[simp] theorem blind_extents (shape : Item) : Blind b (extents shape) := by
  simp [extents]

@[simp] theorem blind_note (log : Nat) (a : Access) : Blind b (note log a) :=
  blind_adjust fun _ => rfl

@[simp] theorem blind_noteGet (log : Nat) (index : Number) :
    Blind b (noteGet log index) := by
  simp [noteGet]

@[simp] theorem blind_noteSet (log : Nat) (index : Number) (value : Element) :
    Blind b (noteSet log index value) := by
  simp [noteSet]

/-- An array that is read and written in the same way before every backdrop. -/
structure BlindArray (b : Backdrop) (array : Backing State) : Prop where
  get : ∀ index, Blind b (array.get index)
  set : ∀ index value, Blind b (array.set index value)

theorem blind_backing (o : Object) :
    Tracks b id (backing o) (backing (o.under b)) := by
  induction o with
  | masked values valid ih => exact ih.bind fun array _ => blind_pure _
  | observed log shape inner ih =>
      exact ih.bind fun array _ => (blind_extents shape).bind fun _ =>
        blind_pure _
  | tensor t => exact blind_pure _
  | buffer b' => exact blind_pure _
  | _ => exact tracks_throw _

theorem blindArray_of_backing {o : Object} {array : Backing State}
    (h : Returns (backing o) array) :
    BlindArray b array := by
  induction o generalizing array with
  | tensor t =>
      obtain rfl := h.pure_eq
      exact ⟨fun index => blind_get t index,
        fun index value => blind_set t index value⟩
  | buffer b' =>
      obtain rfl := h.pure_eq
      exact ⟨fun index => by simp [Buffer.backing],
        fun index value => blind_set _ index value⟩
  | masked values valid ih =>
      obtain ⟨inner, hinner, h⟩ := Returns.of_bind h
      obtain rfl := h.pure_eq
      have hblind := ih hinner
      exact ⟨fun index => mirrors_ite (hblind.get index) (blind_pure _),
        hblind.set⟩
  | observed log shape values ih =>
      obtain ⟨inner, hinner, h⟩ := Returns.of_bind h
      obtain ⟨extents, -, h⟩ := Returns.of_bind h
      obtain rfl := h.pure_eq
      have hblind := ih hinner
      refine ⟨fun index => ?_, fun index value => ?_⟩
      · exact (blind_noteGet _ _).bind fun _ => hblind.get index
      · exact (blind_noteSet _ _ _).bind fun _ => hblind.set index value
  | _ => exact absurd h not_returns_throw

theorem blind_readAt (o : Object) (index : Number) :
    Tracks b id (readAt o index) (readAt (o.under b) index) := by
  induction o with
  | tensor t =>
      refine (blind_settle _).bind fun index? => ?_
      cases index? <;> simp
  | buffer b' =>
      refine (blind_settle _).bind fun index? => ?_
      cases index? <;> simp [Buffer.backing]
  | masked values valid ih =>
    exact (blind_settle _).bind fun _ => mirrors_ite ih (blind_pure _)
  | observed log shape inner ih => exact (blind_noteGet _ _).bind fun _ => ih
  | _ => exact tracks_throw _

theorem blind_readAll {box : Shape} {read : Index → Act Scope Element}
    (hread : ∀ index, Blind b (read index)) : Blind b (box.readAll read) := by
  refine Blind.bind (blind_visitAll fun out index _ => ?_) fun out =>
    blind_pure _
  exact (hread index).bind fun e => blind_settle _

@[simp] theorem blind_display (i : Item) : Blind b (display i) := by
  simp [display]

end State

/-! ## Questions -/

/-- The question is not about drivers, traces and settings. -/
def Ask.isPlain : Ask → Bool
  | view _ | settings _ | phase _ => false
  | _ => true

/-- **A plain question is answered in the same way before every backdrop.** -/
theorem blind_answer {a : Ask} (ha : a.isPlain = true) : Blind b a.answer := by
  cases a with
  | view of => cases ha
  | settings source => cases ha
  | phase driver => cases ha
  | shape s =>
      refine (blind_eval s).bind fun v => (blind_settle _).bind fun v => ?_
      simp
  | strides s =>
      refine (blind_eval s).bind fun v => ?_
      cases v.parts? <;> simp
  | visits s =>
      refine (blind_evalList s).bind fun s =>
        (blind_needNumbers s).bind fun _ => ?_
      simp
  | ofNumber kind v =>
      refine (blind_eval v).bind fun v => (blind_settle _).bind fun kind => ?_
      simp
  | get of index =>
      refine blind_find of fun o => (blind_eval index).bind fun index => ?_
      exact (blind_readAt o index).bind fun e _ => blind_pure _
  | toList of =>
      refine (blind_findTensor of).bind fun t => ?_
      exact (blind_settle_read fun _ => rfl).bind fun es => blind_pure _
  | check domain tile =>
      refine (blind_eval domain).bind fun domain =>
        (blind_eval tile).bind fun tile => ?_
      refine (blind_settle _).bind fun domain =>
        (blind_settle _).bind fun tile => ?_
      simp
  | counts domain tile =>
      refine (blind_eval domain).bind fun domain =>
        (blind_eval tile).bind fun tile => ?_
      refine (blind_settle _).bind fun domain =>
        (blind_settle _).bind fun tile => ?_
      simp
  | origin index tile =>
      refine (blind_eval index).bind fun index =>
        (blind_eval tile).bind fun tile => ?_
      refine (blind_settle _).bind fun index =>
        (blind_settle _).bind fun tile => ?_
      simp
  | extent start tile domain =>
      refine (blind_eval start).bind fun start =>
        (blind_eval tile).bind fun tile => ?_
      refine (blind_eval domain).bind fun domain =>
        (blind_settle _).bind fun start => ?_
      refine (blind_settle _).bind fun tile =>
        (blind_settle _).bind fun domain => ?_
      simp
  | compact of =>
      refine blind_find of fun o => ?_
      cases o with
      | buffer b' =>
          refine Blind.bind
            (blind_of_state (fun h => (b'.masked h).compact) (fun _ => rfl)
            fun h => ?_) fun es => blind_pure _
          exact blind_readAll fun index => blind_settle _
      | masked values valid =>
          refine (blind_backing values).bind fun array harray => ?_
          exact (blind_readAll (blindArray_of_backing harray).get).bind
            fun es => blind_pure _
      | _ => exact tracks_throw _
  | isValid of index =>
      refine blind_find of fun o => (blind_eval index).bind fun index => ?_
      cases o <;> simp [Object.under]
  | _ => simp [Ask.answer]

end TileGrid.Script
