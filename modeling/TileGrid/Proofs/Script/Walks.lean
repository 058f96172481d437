import TileGrid.Proofs.Script.Bodies
import TileGrid.Proofs.Shape.Visits

/-!
# Walks of scripts are visits

A walk of a script keeps its coordinate in one list, which its steps can hold
and change, and moves it on in place from the last dimension to the first. As
long as the steps leave the lists alone that is a visit of the box: each
coordinate is in the list when the steps are called for it (`walkBox_eq`).
-/

namespace TileGrid

theorem Shape.IsWhole.isWide {shape : Shape} {ns : List Nat}
    (h : shape.IsWhole ns) :
    ∀ x ∈ shape, x.isWide = false := by
  induction h with
  | nil => simp
  | cons hx _ ih =>
      obtain ⟨s, m, rfl, -, -⟩ := hx
      exact List.forall_mem_cons.mpr ⟨rfl, ih⟩

/-! ## The last dimension -/

/-- A step moves the last dimension on first. Where that runs over, the
dimensions before it make a step. -/
theorem Shape.advance_concat {ds is : List Number}
    (hlen : is.length = ds.length) (d i : Number) :
    advance (ds ++ [d]) (is ++ [i]) =
      if (i + 1).lt d then (is ++ [i + 1], false)
      else ((advance ds is).1 ++ [0], (advance ds is).2) := by
  induction ds generalizing is with
  | nil =>
      obtain rfl := List.eq_nil_of_length_eq_zero hlen
      rfl
  | cons e ds ih =>
      cases is with
      | nil => cases hlen
      | cons j is =>
          have hrest := ih (Nat.succ.inj hlen)
          rw [List.cons_append, List.cons_append]
          by_cases hlt : (i + 1).lt d = true
          · rw [if_pos hlt] at hrest ⊢
            exact advance_cons_false hrest
          · rw [if_neg hlt] at hrest ⊢
            cases hadv : advance ds is with
            | mk rest carry =>
                rw [hadv] at hrest
                cases carry with
                | false =>
                  rw [advance_cons_false hrest, advance_cons_false hadv,
                    List.cons_append]
                | true =>
                    rw [advance_cons_true hrest, advance_cons_true hadv]
                    split <;> rfl

namespace Script

open RowMajor Shape State

/-! ## Lists -/

namespace Scope

variable {s : Scope} {id other : Nat}

theorem modifyItems_modifyItems (f g : List Item → List Item) :
    (s.modifyItems id f).modifyItems id g = s.modifyItems id (g ∘ f) := by
  have hlists :
      ((s.lists.modify id fun l => { l with items := f l.items }).modify id
      fun l => { l with items := g l.items }) =
      s.lists.modify id fun l => { l with items := g (f l.items) } := by
    apply Array.ext_getElem?
    intro j
    by_cases hj : id = j
    · simp [Array.getElem?_modify, hj, Function.comp_def]
    · simp [Array.getElem?_modify, hj]
  simp only [modifyItems, hlists, Function.comp]

/-- Only what becomes of the items that there are matters. -/
theorem modifyItems_congr {f g : List Item → List Item}
    (h : f (s.items id) = g (s.items id)) :
    s.modifyItems id f = s.modifyItems id g := by
  have hlists : (s.lists.modify id fun l => { l with items := f l.items }) =
      s.lists.modify id fun l => { l with items := g l.items } := by
    apply Array.ext_getElem?
    intro j
    simp only [Array.getElem?_modify]
    split
    · rename_i hj
      subst hj
      cases hl : s.lists[id]? with
      | none => rfl
      | some l =>
          have hitems : s.items id = l.items := by
            simp [items, Array.getD_eq_getD_getElem?, hl]
          rw [hitems] at h
          simp [h]
    · rfl
  simp only [modifyItems, hlists]

theorem modifyItems_id : s.modifyItems id (fun is => is) = s := by
  have hlists : (s.lists.modify id fun l => { l with items := l.items }) =
      s.lists := by
    apply Array.ext_getElem?
    intro j
    simp only [Array.getElem?_modify]
    split <;> simp
  simp only [modifyItems, hlists]

@[simp] theorem size_modifyItems (f : List Item → List Item) :
    (s.modifyItems id f).lists.size = s.lists.size := by
  simp [modifyItems]

theorem items_modifyItems (hid : id < s.lists.size)
    (f : List Item → List Item) :
    (s.modifyItems id f).items id = f (s.items id) := by
  simp [modifyItems, items, hid, Array.getElem_modify_self]

theorem items_modifyItems_of_ne (hne : other ≠ id) (f : List Item → List Item) :
    (s.modifyItems id f).items other = s.items other := by
  simp [modifyItems, items, Array.getD_eq_getD_getElem?,
    Array.getElem?_modify, hne.symm]

/-- A list that is not there has no items. -/
theorem items_of_size_le (hid : s.lists.size ≤ id) : s.items id = [] := by
  simp [items, Nat.not_lt.mpr hid, default]

/-- An item that shows the extents of a box, and is not the list of
the coordinate. -/
def Shows (s : Scope) (coordinate : Nat) (l : Item) (box : Shape) : Prop :=
  match l with
  | .value x => x.components = .ok box
  | .list id => box = [] ∨ id ≠ coordinate ∧ s.items id = box.map .value

/-- What a walk needs of the scope between the calls of its steps. -/
structure Walking (s : Scope) (coordinate : Nat) (l : Item)
    (box : Shape) : Prop where
  list : coordinate < s.lists.size
  shows : s.Shows coordinate l box

/-- The coordinate in its list, which is that of the innermost walk. -/
def atIndex (s : Scope) (coordinate : Nat) (index : Index) : Scope :=
  { s.modifyItems coordinate (fun _ => index.map .value) with
    walk? := some coordinate }

variable {coordinate : Nat} {l : Item} {box : Shape}

theorem Walking.modifyItems (h : s.Walking coordinate l box)
    (f : List Item → List Item) :
    (s.modifyItems coordinate f).Walking coordinate l box := by
  refine ⟨by simpa using h.list, ?_⟩
  have hshows := h.shows
  cases l with
  | value x => exact hshows
  | list id =>
      rcases hshows with hnil | ⟨hne, hitems⟩
      · exact .inl hnil
      · exact .inr ⟨hne, (items_modifyItems_of_ne hne f).trans hitems⟩

/-- Lists that there were may stay while others come. -/
theorem Shows.of_items {s' : Scope} (h : s.Shows coordinate l box)
    (hitems : ∀ id < s.lists.size, s'.items id = s.items id) :
    s'.Shows coordinate l box := by
  cases l with
  | value x => exact h
  | list id =>
      rcases h with hnil | ⟨hne, hbox⟩
      · exact .inl hnil
      · by_cases hid : id < s.lists.size
        · exact .inr ⟨hne, (hitems id hid).trans hbox⟩
        · rw [items_of_size_le (Nat.le_of_not_lt hid)] at hbox
          exact .inl (List.map_eq_nil_iff.mp hbox.symm)

theorem Walking.atIndex (h : s.Walking coordinate l box) (index : Index) :
    (s.atIndex coordinate index).Walking coordinate l box :=
  ⟨(h.modifyItems fun _ => index.map .value).list,
    (h.modifyItems fun _ => index.map .value).shows.of_items fun _ _ => rfl⟩

theorem items_atIndex (hc : coordinate < s.lists.size) (index : Index) :
    (s.atIndex coordinate index).items coordinate = index.map .value :=
  items_modifyItems hc fun _ => index.map .value

theorem atIndex_of_walk? (hs : s.walk? = some coordinate) (index : Index) :
    s.atIndex coordinate index = s.modifyItems coordinate fun _ =>
      index.map .value := by
  unfold atIndex
  rw [← hs]
  rfl

end Scope

/-! ## One step of a walk -/

variable {h : State} {coordinate : Nat} {l : Item} {box : Shape}

theorem adjust_apply (f : Scope → Scope) (h : State) :
    adjust f h = .ok () (modifyScope h f) := rfl

theorem componentAt_of_items {is : Index}
    (hitems : itemsOf l h = .ok (is.map .value) h) {d : Nat} {x : Number}
    (hx : is[d]? = some x) : componentAt l d h = .ok x h := by
  have hget : (is.map Item.value).getD d (.value .absent) = .value x := by
    simp [hx]
  refine (bind_of_ok hitems _).trans ?_
  rw [hget]
  rfl

theorem componentAt_of_shows (hs : h.caller.Shows coordinate l box) {d : Nat}
    {x : Number} (hx : box[d]? = some x) : componentAt l d h = .ok x h := by
  refine componentAt_of_items ?_ hx
  cases l with
  | value y =>
      have hy : y.components = .ok box := hs
      rw [itemsOf, hy]
      rfl
  | list id =>
      rcases hs with rfl | ⟨-, hitems⟩
      · simp at hx
      · show EStateM.Result.ok (h.caller.items id) h = _
        rw [hitems]

/-- The state with other numbers in a list. -/
def listed (h : State) (id : Nat) (xs : List Number) : State :=
  modifyScope h (·.modifyItems id fun _ => xs.map .value)

theorem listed_listed (id : Nat) (xs ys : List Number) :
    listed (listed h id xs) id ys = listed h id ys := by
  simp only [listed, modifyScope, Scope.modifyItems_modifyItems,
    Function.comp_def]

theorem items_listed {id : Nat} (hid : id < h.caller.lists.size)
    (xs : List Number) :
    (listed h id xs).caller.items id = xs.map .value :=
  Scope.items_modifyItems hid fun _ => xs.map .value

theorem listed_of_items {id : Nat} {xs : List Number}
    (hitems : h.caller.items id = xs.map .value) :
    listed h id xs = h := by
  simp only [listed, modifyScope]
  rw [Scope.modifyItems_congr (g := fun is => is) hitems.symm,
    Scope.modifyItems_id]

theorem walking_listed (hw : h.caller.Walking coordinate l box)
    (xs : List Number) :
    (listed h coordinate xs).caller.Walking coordinate l box :=
  hw.modifyItems fun _ => xs.map .value

/-- One number of a list assigned. -/
theorem modifyScope_set {id : Nat} {is js : List Number} {i : Number}
    (hitems : h.caller.items id = (is ++ i :: js).map .value) (x : Number) :
    modifyScope h (·.modifyItems id (·.set is.length (.value x))) =
      listed h id (is ++ x :: js) := by
  simp only [listed, modifyScope]
  rw [Scope.modifyItems_congr]
  rw [hitems]
  simp

/-- Moving the coordinate on in one dimension. Where that runs over, the
dimensions before it follow. -/
theorem advanceList_succ (hw : h.caller.Walking coordinate l box)
    {is js : List Number} {i d : Number}
    (hitems : h.caller.items coordinate = (is ++ i :: js).map .value)
    (hd : box[is.length]? = some d) (hi : i.isWide = false) :
    advanceList l coordinate (is.length + 1) h =
      if (i + 1).lt d then .ok () (listed h coordinate (is ++ (i + 1) :: js))
      else advanceList l coordinate is.length
      (listed h coordinate (is ++ 0 :: js)) := by
  have hget : componentAt (.list coordinate) is.length h = .ok i h := by
    have hlist : itemsOf (.list coordinate) h =
        .ok ((is ++ i :: js).map .value) h := by
      rw [← hitems]
      rfl
    exact componentAt_of_items hlist (by simp)
  have hneed : needNumbers [i] h = .ok () h := by
    simp [needNumbers, hi]
    rfl
  have hextent :
      componentAt l is.length (listed h coordinate (is ++ (i + 1) :: js)) =
        .ok d _ :=
    componentAt_of_shows (walking_listed hw _).shows hd
  rw [advanceList, bind_of_ok hget, bind_of_ok hneed,
    bind_of_ok (adjust_apply _ h), modifyScope_set hitems, bind_of_ok hextent]
  by_cases hlt : (i + 1).lt d = true
  · rw [if_pos hlt, if_pos hlt]
    rfl
  · rw [if_neg hlt, if_neg hlt, bind_of_ok (adjust_apply _ _),
      modifyScope_set (items_listed hw.list _), listed_listed]

/-- Moving the coordinate on in its list, in the dimensions of `ds`. -/
theorem advanceList_eq (hw : h.caller.Walking coordinate l box)
    {is ds : List Number} (js es : List Number) (hbox : box = ds ++ es)
    (hlen : is.length = ds.length)
    (hitems : h.caller.items coordinate = (is ++ js).map .value)
    (hnumbers : ∀ i ∈ is, i.isWide = false) :
    advanceList l coordinate ds.length h =
      .ok () (listed h coordinate ((advance ds is).1 ++ js)) := by
  induction ds using List.reverseRecOn generalizing h is js es with
  | nil =>
      obtain rfl := List.eq_nil_of_length_eq_zero hlen
      exact congrArg _ (listed_of_items hitems).symm
  | append_singleton ds d ih =>
      rcases is.eq_nil_or_concat' with rfl | ⟨is, i, rfl⟩
      · simp at hlen
      have hlen : is.length = ds.length := by simpa using hlen
      rw [List.append_assoc] at hitems
      have hstep := advanceList_succ hw hitems (d := d) (by simp [hbox, hlen])
        (hnumbers i (by simp))
      rw [List.length_append, List.length_singleton, ← hlen, hstep,
        advance_concat hlen]
      by_cases hlt : (i + 1).lt d = true
      · rw [if_pos hlt, if_pos hlt, List.append_assoc]
        rfl
      · have hrest := ih (walking_listed hw _) (0 :: js) (d :: es)
          (by simp [hbox]) hlen
          (items_listed hw.list _) fun j hj => hnumbers j (by simp [hj])
        rw [if_neg hlt, if_neg hlt, hlen, List.append_assoc]
        exact hrest.trans (congrArg _ (listed_listed _ _ _))

/-! ## Steps that leave the lists alone -/

/-- The steps leave the lists that there are as they are, and the walk
that they are in. -/
structure KeepsLists (body : Steps) : Prop where
  walk : ∀ h, (body h).2.caller.walk? = h.caller.walk?
  size : ∀ h, h.caller.lists.size ≤ (body h).2.caller.lists.size
  items : ∀ h, ∀ id < h.caller.lists.size, (body h).2.caller.items id =
    h.caller.items id

theorem KeepsLists.walking {body : Steps} (hbody : KeepsLists body)
    (hw : h.caller.Walking coordinate l box) :
    (body h).2.caller.Walking coordinate l box :=
  ⟨hw.list.trans_le (hbody.size h), hw.shows.of_items (hbody.items h)⟩

theorem state_of_answersOf {body : Steps} {answers : List Answer} {h' : State}
    (hanswers : answersOf body h = .ok answers h') : h' = (body h).2 := by
  unfold answersOf at hanswers
  split at hanswers
  · rename_i heq
    cases hanswers
    rw [heq]
  · cases hanswers
  · cases hanswers

/-- Puts a coordinate in the list of the innermost walk. -/
def seat (coordinate : Nat) (index : Index) : StepAct Unit := fun h =>
  .ok () (modifyScope h (·.atIndex coordinate index))

/-- A call of the steps for a coordinate of a box. -/
def visitSteps (coordinate : Nat) (body : Steps) (out : Array Answer)
    (index : Index) (_ : Number) : StepAct (Array Answer) := do
  seat coordinate index
  let answers ← answersOf body
  return out.push (.list answers)

/-- Calls the steps for each coordinate of a box, and leaves its
corner in the list. -/
def visitBox (box : Shape) (body : Steps) (coordinate : Nat) :
    StepAct Answer := do
  let out ← visitAll (.ofFault .endless) box #[] (visitSteps coordinate body)
  seat coordinate box.corner
  return .list out.toList

variable {ns : List Nat} {body : Steps}

theorem asStep_of_ok {α : Type} {act : Act Scope α} {a : α} {h' : State}
    (hact : act h = .ok a h') :
    asStep act h = .ok a h' := by
  rw [asStep, hact]

/-- Moving a coordinate of the box on in its list, after the steps
were called for it. -/
theorem advanceList_coordinate (hbox : box.IsWhole ns)
    (hle : ns.prod ≤ Number.safeLimit) {k : Nat} (hk : k < ns.prod)
    (hw : h.caller.Walking coordinate l box)
    (hwalk : h.caller.walk? = some coordinate)
    (hitems : h.caller.items coordinate =
      (whole (RowMajor.coordinate ns k)).map .value) :
    advanceList l coordinate box.length h =
      .ok () (modifyScope h
        (·.atIndex coordinate
          (advance box (whole (RowMajor.coordinate ns k))).1)) := by
  have hin := inBox_coordinate hk
  have hlen : (whole (RowMajor.coordinate ns k)).length = box.length := by
    rw [length_whole, length_of_inBox hin, hbox.length_eq]
  have hadvance := advanceList_eq hw [] [] (by simp) hlen
    (by simpa using hitems)
    (isWhole_whole_of_inBox hin hle).isWide
  rw [hadvance, List.append_nil]
  simp only [listed, modifyScope, Scope.atIndex_of_walk? hwalk]

/-- **The loop of a walk is that of a visit**, from its `k`-th call on. -/
theorem walkFrom_eq (hbox : box.IsWhole ns) (hle : ns.prod ≤ Number.safeLimit)
    (hbody : KeepsLists body) (n k : Nat) (hn : ns.prod ≤ n + k)
    (hk : k ≤ Number.safeLimit) {index : Index}
    (hindex : index =
      whole (RowMajor.coordinate ns (if k < ns.prod then k else 0)))
    (out : Array Answer) (hw : h.caller.Walking coordinate l box) :
    walkFrom l box.length box.size coordinate body n (.ofNat k) out
        (modifyScope h (·.atIndex coordinate index)) =
      (do
        let out ← visitFrom (.ofFault .endless) box (visitSteps coordinate body)
          n (.ofNat k) index out
        seat coordinate box.corner
        return out : StepAct (Array Answer)) h := by
  have hcorner := corner_eq hbox
  -- a walk has the next coordinate in the list already where a visit has yet to
  -- put it there, so the two sides start from states that differ in that list
  induction n generalizing k index out h with
  | zero =>
      have hlt := hbox.lt_size hle (Number.isWhole_ofNat hk)
      have hend : ¬ k < ns.prod := by omega
      rw [if_neg hend] at hindex
      rw [walkFrom, visitFrom, hlt, decide_eq_false hend, hindex, ← hcorner]
      rfl
  | succ n ih =>
      have hlt := hbox.lt_size hle (Number.isWhole_ofNat hk)
      by_cases hkn : k < ns.prod
      · rw [if_pos hkn] at hindex
        subst hindex
        have hlim := forall_le_of_prod_le hle (by omega)
        have hseated : (modifyScope h (·.atIndex coordinate
            (whole (RowMajor.coordinate ns k)))).caller.Walking coordinate l
            box := hw.atIndex _
        rw [walkFrom, visitFrom, hlt, decide_eq_true hkn, if_pos rfl,
          if_pos rfl, bind_assoc]
        -- both loops call the steps in the same state
        cases hanswers : answersOf body
            (modifyScope h
              (·.atIndex coordinate (whole (RowMajor.coordinate ns k)))) with
        | error e h₁ =>
            have hvisit : visitSteps coordinate body out _ (.ofNat k) h =
                .error e h₁ :=
              (bind_of_ok rfl _).trans (bind_of_error hanswers _)
            rw [bind_of_error hanswers, bind_of_error hvisit]
        | ok answers h₁ =>
            have hvisit : visitSteps coordinate body out _ (.ofNat k) h =
                .ok (out.push (.list answers)) h₁ :=
              (bind_of_ok rfl _).trans (bind_of_ok hanswers _)
            obtain rfl := state_of_answersOf hanswers
            have hw₁ := hbody.walking hseated
            have hadvance :=
              advanceList_coordinate hbox hle hkn hw₁ (hbody.walk _)
              ((hbody.items _ _ hseated.list).trans
                (Scope.items_atIndex hw.list _))
            rw [bind_of_ok hanswers, bind_of_ok (asStep_of_ok hadvance),
              bind_of_ok hvisit, Number.ofNat_add_one (by omega)]
            refine ih (k + 1) (by omega) (by omega) ?_ _ hw₁
            rw [advance_coordinate hbox hlim hkn]
            split <;> rfl
      · rw [if_neg hkn] at hindex
        rw [walkFrom, visitFrom, hlt, decide_eq_false hkn, hindex, ← hcorner]
        rfl

/-! ## Walks -/

namespace Scope

variable {s : Scope} {id : Nat}

/-- A component that is a number is one in the list itself. -/
theorem eq_value_of_component {i : Item} {x : Number} {n : Nat}
    (hx : x.IsWhole n) (hi : s.component id i = x) : i = .value x := by
  cases i with
  | value y =>
      have hy : s.component id (.value y) = y := by
        simp [component, depth, read?]
      rw [← hi, hy]
  | list j =>
      obtain ⟨t, m, rfl, -, -⟩ := hx
      rw [component, depth, read?] at hi
      simp only [List.contains_nil, Bool.false_eq_true, if_false] at hi
      -- a list in a list is no number, and one within itself is none either
      cases hread : (s.items j).mapM (s.read? s.lists.size [j]) with
      | none =>
          rw [hread] at hi
          cases hi
      | some xs =>
          rw [hread] at hi
          cases hi

theorem items_eq_of_components {box : Shape} {ns : List Nat}
    (hbox : box.IsWhole ns) (h : (s.items id).map (s.component id) = box) :
    s.items id = box.map .value := by
  have hitem : ∀ i ∈ s.items id, i = .value (s.component id i) := by
    intro i hi
    have hmem : s.component id i ∈ box := h ▸ List.mem_map_of_mem hi
    have hextents := List.all_eq_true.mp (all_isExtent_iff.mpr ⟨ns, hbox⟩)
    obtain ⟨n, hn⟩ := Number.isExtent_iff.mp (hextents _ hmem)
    exact eq_value_of_component hn rfl
  rw [← h, List.map_map]
  exact (List.map_id _).symm.trans (List.map_congr_left hitem)

theorem items_entered (index : Index) :
    ∀ id < s.lists.size, (s.entered index).items id = s.items id := by
  intro id hid
  simp [entered, items, Array.getD_eq_getD_getElem?,
    Array.getElem?_push_lt hid, hid]

theorem atIndex_entered (index : Index) :
    (s.entered index).atIndex s.lists.size index = s.entered index := by
  have hitems : (s.entered index).items s.lists.size = index.map .value := by
    simp [entered, items]
  rw [atIndex_of_walk? rfl, modifyItems_congr (g := fun is => is) hitems.symm,
    modifyItems_id]

end Scope

theorem shows_of_readList {h' : State} (hbox : box.IsWhole ns)
    (hread : readList l h = .ok box h') :
    h.caller.Shows h.caller.lists.size l box := by
  have hcomponents : (h.caller.value l).components = .ok box := by
    have hsettle : settle (h.caller.value l).components h = .ok box h' := hread
    cases hv : (h.caller.value l).components with
    | error f =>
        rw [hv] at hsettle
        cases hsettle
    | ok xs =>
        rw [hv] at hsettle
        cases hsettle
        rfl
  cases l with
  | value x => exact hcomponents
  | list id =>
      have hitems : h.caller.items id = box.map .value := by
        apply Scope.items_eq_of_components hbox
        simpa [Scope.value, Number.ofList, Number.components] using hcomponents
      by_cases hid : id < h.caller.lists.size
      · exact .inr ⟨hid.ne, hitems⟩
      · rw [Scope.items_of_size_le (Nat.le_of_not_lt hid)] at hitems
        exact .inl (List.map_eq_nil_iff.mp hitems.symm)

/-- **A walk of a script is a visit of its box**, if its steps leave
the lists alone. -/
theorem walkBox_eq (hbox : box.IsWhole ns) (hle : ns.prod ≤ Number.safeLimit)
    (hbody : KeepsLists body) {term : Term} {h₁ : State}
    (hterm : evalItem term h = .ok l h₁) (hread : readList l h₁ = .ok box h₁) :
    walkBox term body h = withCoordinate box.corner (visitBox box body) h₁ := by
  have hneed : needNumbers box h₁ = .ok () h₁ := by
    have hany : box.any Number.isWide = false := by simpa using hbox.isWide
    rw [needNumbers, hany]
    rfl
  have hw : (modifyScope h₁ (·.entered box.corner)).caller.Walking
      h₁.caller.lists.size l box :=
    ⟨by simp [modifyScope, Scope.entered],
      (shows_of_readList hbox hread).of_items (Scope.items_entered box.corner)⟩
  have hseated : modifyScope (modifyScope h₁ (·.entered box.corner))
      (·.atIndex h₁.caller.lists.size box.corner) =
        modifyScope h₁ (·.entered box.corner) := by
    simp only [modifyScope, Scope.atIndex_entered]
  have hcorner : box.corner =
      whole (RowMajor.coordinate ns (if 0 < ns.prod then 0 else 0)) := by
    rw [corner_eq hbox, ite_self]
  have hloop := walkFrom_eq hbox hle hbody Number.safeLimit 0 hle
    (Nat.zero_le _) hcorner #[] hw
  rw [hseated] at hloop
  have hwalk : (do
      let out ← walkFrom l box.length box.size h₁.caller.lists.size body
        Number.safeLimit 0 #[]
      return .list out.toList : StepAct Answer)
        (modifyScope h₁ (·.entered box.corner)) =
      visitBox box body h₁.caller.lists.size
        (modifyScope h₁ (·.entered box.corner)) := by
    refine (bind_congr_at _ hloop).trans ?_
    rw [bind_assoc]
    rfl
  refine (bind_of_ok (asStep_of_ok hterm) _).trans <|
    (bind_of_ok (asStep_of_ok hread) _).trans <|
    (bind_of_ok (asStep_of_ok hneed) _).trans ?_
  rw [withCoordinate_eq, withCoordinate_eq, hwalk]

/-- In a call of the steps, the coordinate of the walk is the one that was
put in its list. -/
theorem eval_walk_atIndex (hc : coordinate < h.caller.lists.size)
    (index : Index) :
    eval (.ref .walk) (modifyScope h (·.atIndex coordinate index)) =
      .ok (.ofList index) (modifyScope h (·.atIndex coordinate index)) := by
  have hvalue : (h.caller.atIndex coordinate index).value (.list coordinate) =
      .ofList index := by
    rw [Scope.value, Scope.items_atIndex hc]
    simp [Scope.component, Scope.depth, Scope.read?, Function.comp_def]
  show EStateM.Result.ok ((h.caller.atIndex coordinate index).value
      (.list coordinate)) _ = _
  rw [hvalue]

/-- **The order of visits, the order of enumeration and the strides coincide**,
for any number of whole extents. A walk of a script is such a visit too: its
steps are called for one coordinate after the other, and find it as the
coordinate of the walk. -/
theorem row_major_orders_coincide (hbox : box.IsWhole ns)
    (hle : ns.prod ≤ Number.safeLimit) :
    (∃ cs, Visits box ns cs) ∧
    (∀ (term : Term) (body : Steps) (l : Item) (h h₁ : State), KeepsLists body →
      evalItem term h = .ok l h₁ → readList l h₁ = .ok box h₁ →
        walkBox term body h =
          withCoordinate box.corner (visitBox box body) h₁) ∧
    ∀ (h : State) (coordinate : Nat) (index : Index),
      coordinate < h.caller.lists.size →
      eval (.ref .walk) (modifyScope h (·.atIndex coordinate index)) =
        .ok (.ofList index) (modifyScope h (·.atIndex coordinate index)) := by
  refine ⟨⟨calls ns, visits_calls hbox hle⟩, ?_, ?_⟩
  · intro term body l h h₁ hbody hterm hread
    exact walkBox_eq hbox hle hbody hterm hread
  · intro h coordinate index hc
    exact eval_walk_atIndex hc index

/-- A box of six coordinates, with a visitor that throws at its fifth call and
with steps that return there. The other box has no coordinates, and its size
is not a number. -/
theorem row_major_orders_coincide_thrown :
    let six : Shape := whole [2, 3]
    let visit : Unit → Index → Number → EStateM String Nat Unit :=
      fun _ _ _ made =>
        if made = 4 then .error "enough" made else .ok () (made + 1)
    let body : Steps := fun h =>
      (⟨[], if h.console.size = 4 then some (.returned .primitive) else none⟩,
        h.print "called")
    let h : State := Host.empty .empty Scope.empty
    let none : Shape := whole [2 ^ 1000, 2 ^ 1000, 0]
    (six.IsWhole [2, 3] ∧ [2, 3].prod ≤ Number.safeLimit ∧
      ∃ cs, Visits six [2, 3] cs ∧
        visitAll "stuck" six () (noting visit) (0, []) =
          .error "enough" (4, cs.take 5)) ∧
    (KeepsLists body ∧
      walkBox (.value (.ofList six)) body h =
        withCoordinate six.corner (visitBox six body) h) ∧
    none.IsWhole [2 ^ 1000, 2 ^ 1000, 0] ∧ none.size = .nan ∧
      Visits none [2 ^ 1000, 2 ^ 1000, 0] [] := by
  intro six visit body h none
  have hsix : six.IsWhole [2, 3] := isWhole_whole (by decide)
  have hlarge : (Number.ofNat (2 ^ 1000)).IsWhole (2 ^ 1000) :=
    Number.isWhole_ofNat_of_holds
      ⟨⟨1, 2074, by decide, by decide, by decide +kernel⟩, by decide +kernel⟩
  have hnone : none.IsWhole [2 ^ 1000, 2 ^ 1000, 0] :=
    .cons hlarge (.cons hlarge (.cons Number.isWhole_zero .nil))
  have hzero : [2 ^ 1000, 2 ^ 1000, 0].prod = 0 :=
    List.prod_eq_zero (.tail _ (.tail _ (.head _)))
  obtain ⟨⟨cs, hcs⟩, hwalks, -⟩ := row_major_orders_coincide hsix (by decide)
  obtain ⟨⟨ds, hds⟩, -⟩ :=
    row_major_orders_coincide hnone (hzero.trans_le (Nat.zero_le _))
  obtain rfl : ds = [] := List.eq_nil_of_length_eq_zero (hds.count.trans hzero)
  have hbody : KeepsLists body :=
    ⟨fun _ => rfl, fun _ => le_refl _, fun _ _ _ => rfl⟩
  have hwalk := hwalks (.value (.ofList six)) body (.value (.ofList six)) h h
    hbody rfl rfl
  refine ⟨⟨hsix, by decide, cs, hcs, ?_⟩, ⟨hbody, hwalk⟩,
    hnone, by decide +kernel, hds⟩
  -- all that is needed of the calls is their number
  match cs, hcs with
  | [c₀, c₁, c₂, c₃, c₄, c₅], hcs =>
    have hthrows : ThrowsAt visit [c₀, c₁, c₂, c₃, c₄, c₅] 4 () 0 "enough" 4 :=
      ⟨c₄, (), 4, rfl,
        .call rfl (.call rfl (.call rfl (.call rfl (.done () 4)))), rfl⟩
    exact (hcs.throws "stuck" visit () 0 4 "enough" 4 hthrows).1

end Script

end TileGrid
