import TileGrid.Proofs.Script.Bare

/-!
# Steps that differ in options and environment only

`Alike w v x y` says that from states that are the same once stripped, `x` and
`y` return and leave the same, once stripped. Steps that read or write traces
and the environment are so too, as whatever they show or change is stripped.
-/

namespace TileGrid.Script

open State

/-! ## Two actions alike -/

section Alike

variable {ε α β : Type} {w : ε → ε} {v : α → α} {v' : β → β}

/-- The states are the same once they are stripped. -/
abbrev State.Akin (h h' : State) : Prop := h.bare = h'.bare

/-- Changes of which nothing is left once they are stripped. -/
theorem State.Akin.unchanged {h₁ h₂ s₁ s₂ : State} (hh : Akin h₁ h₂)
    (hs₁ : s₁.bare = h₁.bare) (hs₂ : s₂.bare = h₂.bare) : Akin s₁ s₂ :=
  hs₁.trans (hh.trans hs₂.symm)

theorem State.Akin.modifyScope {h₁ h₂ : State} {f g : Scope → Scope}
    (hh : Akin h₁ h₂) (hfg : (f h₁.caller).bare = (g h₂.caller).bare) :
    Akin (modifyScope h₁ f) (modifyScope h₂ g) := by
  show ({ h₁.bare with caller := (f h₁.caller).bare } : State) =
    { h₂.bare with caller := (g h₂.caller).bare }
  rw [hfg, hh]

/-- The results are the same up to `w` and `v`, and their states are once
they are stripped. -/
inductive Same (w : ε → ε) (v : α → α) :
    EStateM.Result ε State α → EStateM.Result ε State α → Prop
  | ok {a b : α} {s t : State} (hv : v a = v b) (hs : Akin s t) :
      Same w v (.ok a s) (.ok b t)
  | error {e f : ε} {s t : State} (hw : w e = w f) (hs : Akin s t) :
    Same w v (.error e s) (.error f t)

theorem Same.state {r r' : EStateM.Result ε State α} (h : Same w v r r') :
    Akin r.state r'.state := by
  cases h with
  | ok hv hs => exact hs
  | error hw hs => exact hs

/-- From states that are the same once stripped, the actions end in
results that are. -/
def Alike (w : ε → ε) (v : α → α) (x y : EStateM ε State α) : Prop :=
  ∀ h₁ h₂ : State, Akin h₁ h₂ → Same w v (x h₁) (y h₂)

theorem Alike.symm {x y : EStateM ε State α} (h : Alike w v x y) :
    Alike w v y x := by
  intro h₁ h₂ hh
  have hsame := h h₂ h₁ hh.symm
  generalize x h₂ = r at hsame
  generalize y h₁ = r' at hsame
  cases hsame with
  | ok hv hs => exact .ok hv.symm hs.symm
  | error hw hs => exact .error hw.symm hs.symm

theorem Alike.trans {x y z : EStateM ε State α} (hxy : Alike w v x y)
    (hyz : Alike w v y z) :
    Alike w v x z := by
  intro h₁ h₂ hh
  have hfirst := hxy h₁ h₂ hh
  have hsecond := hyz h₂ h₂ rfl
  generalize x h₁ = r at hfirst
  generalize y h₂ = r' at hfirst hsecond
  generalize z h₂ = r'' at hsecond
  cases hfirst with
  | ok hv hs =>
      cases hsecond with
      | ok hv' hs' => exact .ok (hv.trans hv') (hs.trans hs')
  | error hw hs =>
      cases hsecond with
      | error hw' hs' => exact .error (hw.trans hw') (hs.trans hs')

theorem same_of_carry {r₁ r₂ : EStateM.Result ε State α}
    (hr : carry State.bare w v r₁ = carry State.bare w v r₂) :
    Same w v r₁ r₂ := by
  cases r₁ with
  | ok a s =>
      cases r₂ with
      | ok b t =>
          obtain ⟨hv, hs⟩ := EStateM.Result.ok.inj hr
          exact .ok hv hs
      | error f t => cases hr
  | error e s =>
      cases r₂ with
      | ok b t => cases hr
      | error f t =>
          obtain ⟨hw, hs⟩ := EStateM.Result.error.inj hr
          exact .error hw hs

/-- Two actions that fade to the same. -/
theorem Mirrors.alike {x y z : EStateM ε State α}
    (hx : Mirrors State.bare w v x z) (hy : Mirrors State.bare w v y z) :
    Alike w v x y := by
  intro h₁ h₂ hh
  apply same_of_carry
  rw [← hx h₁, hh, hy h₂]

theorem alike_pure {a b : α} (hab : v a = v b) : Alike w v (pure a) (pure b) :=
  fun _ _ hh => .ok hab hh

theorem alike_throw (e : ε) : Alike w v (throw e) (throw e) :=
  fun _ _ hh => .error rfl hh

theorem alike_ite {c : Prop} [Decidable c] {x y x' y' : EStateM ε State α}
    (hx : Alike w v x x') (hy : Alike w v y y') :
    Alike w v (if c then x else y) (if c then x' else y') := by
  split
  · exact hx
  · exact hy

theorem Alike.bind {x y : EStateM ε State α} {k l : α → EStateM ε State β}
    (hx : Alike w v x y) (hk : ∀ a b, v a = v b → Alike w v' (k a) (l b)) :
    Alike w v' (x >>= k) (y >>= l) := by
  intro h₁ h₂ hh
  have hfirst := hx h₁ h₂ hh
  show Same w v' (EStateM.bind x k h₁) (EStateM.bind y l h₂)
  unfold EStateM.bind
  generalize x h₁ = r₁ at hfirst
  generalize y h₂ = r₂ at hfirst
  cases hfirst with
  | ok hv hs => exact hk _ _ hv _ _ hs
  | error hw hs => exact .error hw hs

/-- One action after another that returns the same. -/
theorem Alike.bind_same {x y : EStateM ε State α} {k l : α → EStateM ε State β}
    (hx : Alike w id x y) (hk : ∀ a, Alike w v' (k a) (l a)) :
    Alike w v' (x >>= k) (y >>= l) := by
  refine hx.bind fun a b hab => ?_
  obtain rfl : a = b := hab
  exact hk a

/-- A change of the state that leaves nothing once it is stripped, or something
that is the same. -/
theorem alike_change {f g : State → State} {a b : α} (hab : v a = v b)
    (hfg : ∀ h₁ h₂ : State, Akin h₁ h₂ → Akin (f h₁) (g h₂)) :
    Alike w v (fun h => .ok a (f h)) (fun h => .ok b (g h)) :=
  fun h₁ h₂ hh => .ok hab (hfg h₁ h₂ hh)

end Alike

/-! ## Steps are alike -/

section Steps

theorem alike_find (name : String) :
    Alike id Object.bare (find name) (find name) :=
  (fades_find name).alike (fades_find name)

theorem alike_of_blind {α : Type} {x : Act Scope α}
    (hx : ∀ b, Blind b x) : Alike id id x x :=
  (fades_of_blind hx).alike (fades_of_blind hx)

theorem alike_view {o₁ o₂ : Object} (ho : o₁.bare = o₂.bare) :
    Alike id View.bare (view o₁) (view o₂) :=
  (fades_view o₁).alike (ho ▸ fades_view o₂)

theorem alike_make {m₁ m₂ : Make} (hm : m₁.bare = m₂.bare) :
    Alike id Object.bare m₁.perform m₂.perform :=
  (fades_make m₁).alike (hm ▸ fades_make m₂)

/-- Drivers are in the same phase. -/
theorem phase_of_bare {h₁ h₂ : State} (hh : Akin h₁ h₂) (id : Nat) :
    (h₁.driver id).phase = (h₂.driver id).phase := by
  have hphase := congrArg (fun h : State => (h.driver id).phase) hh
  simp only [State.driver_bare] at hphase
  exact hphase

theorem alike_driverId {o₁ o₂ : Object} (ho : o₁.bare = o₂.bare) :
    Alike id id (driverId o₁) (driverId o₂) := by
  have hbare : ∀ o : Object, driverId o.bare = driverId o := fun o => by
    cases o <;> rfl
  rw [← hbare o₁, ← hbare o₂, ho]
  refine alike_of_blind fun b => ?_
  cases o₂.bare <;> simp [driverId]

theorem alike_answer (a : Ask) : Alike id Answer.bare a.answer a.answer := by
  by_cases ha : a.isPlain = true
  · have hfades := (fades_of_blind fun b => blind_answer ha).fixed
      (always_answer ha)
    exact hfades.alike hfades
  cases a with
  | view of =>
      refine (alike_find of).bind fun o₁ o₂ ho =>
        (alike_view ho).bind fun v₁ v₂ hv => ?_
      exact alike_pure (congrArg Answer.view hv)
  | settings source =>
      -- the settings themselves are stripped from the answer
      exact fun h₁ h₂ hh => .ok rfl hh
  | phase driver =>
      refine (alike_find driver).bind fun o₁ o₂ ho =>
        (alike_driverId ho).bind fun id₁ id₂ hid => ?_
      intro h₁ h₂ hh
      obtain rfl : id₁ = id₂ := hid
      have hphase := phase_of_bare hh id₁
      exact .ok (congrArg Answer.phase hphase) hh
  | _ => exact absurd rfl ha

/-- An assignment does not look at what is stripped. -/
theorem assignField_bare (o : Object) (field : String) (i : Item) :
    assignField o.bare field i = assignField o field i := by
  cases o with
  | masked values valid =>
      by_cases hvalues : field = "values"
      · subst hvalues
        rfl
      have hlist : (Object.masked values.bare valid).list? field =
          (Object.masked values valid).list? field := by
        have hshape : values.bare.shape = values.shape := values.shape_under
        by_cases hfield : field = "shape"
        · subst hfield
          exact congrArg Except.toOption hshape
        · simp [Object.list?, hfield]
      show assignField (.masked values.bare valid) field i = _
      unfold assignField
      split
      all_goals simp_all
  | observed log shape inner =>
      by_cases hlog : field = "log"
      · subst hlog
        rfl
      by_cases hinner : field = "inner"
      · subst hinner
        rfl
      by_cases hshape : field = "shape"
      · subst hshape
        rfl
      · show assignField (.observed log shape inner.bare) field i = _
        unfold assignField
        split
        all_goals simp_all [Object.list?]
  | slice array origin =>
      by_cases harray : field = "array"
      · subst harray
        rfl
      by_cases horigin : field = "origin"
      · subst horigin
        rfl
      · show assignField (.slice array.bare origin) field i = _
        unfold assignField
        split
        all_goals simp_all [Object.list?]
  | _ => rfl

theorem alike_assignField (o : Object) (field : String) (i : Item) :
    Alike id id (assignField o field i) (assignField o field i) := by
  unfold assignField
  split
  · exact alike_of_blind fun b => (blind_present i).bind fun v =>
      blind_setFirst _ _
  · exact alike_of_blind fun b => blind_adjust fun _ => rfl
  · refine (alike_of_blind fun b => blind_present i).bind_same fun v => ?_
    refine (alike_of_blind fun b => blind_shown v).bind_same fun v => ?_
    exact alike_change rfl fun h₁ h₂ hh =>
      hh.unchanged (bare_modify _ _ _) (bare_modify _ _ _)
  · refine (alike_of_blind fun b => blind_present i).bind_same fun v => ?_
    refine (alike_of_blind fun b => blind_shown v).bind_same fun v => ?_
    exact alike_change rfl fun h₁ h₂ hh =>
      hh.unchanged (bare_snapshots _ _ _) (bare_snapshots _ _ _)
  iterate 5 exact alike_pure rfl
  · cases o.list? field with
    | none => exact alike_throw _
    | some item =>
        cases item with
        | value x => exact alike_throw _
        | list id =>
            refine alike_of_blind fun b h => ?_
            dsimp only
            rw [show (under b h).caller.isFixed id =
              h.caller.isFixed id from rfl]
            split
            · rfl
            · rfl

theorem always_change {c : Change} (hc : c.isPlain = true) :
    Always (fun answer => answer.bare = answer) c.perform := by
  cases c with
  | mutate of field value => cases hc
  | setEnvironment assignments => cases hc
  | record of fields => cases hc
  | clear of => cases hc
  | dropFirst of => cases hc
  | throw t => exact always_bind fun _ => always_throw _
  | _ =>
      repeat refine always_bind fun _ => ?_
      exact always_pure.mpr rfl

theorem alike_perform (c : Change) :
    Alike id Answer.bare c.perform c.perform := by
  by_cases hc : c.isPlain = true
  · have hfades := (fades_of_blind fun b => blind_change hc).fixed
      (always_change hc)
    exact hfades.alike hfades
  have hrecorder :=
    fun name => (fades_findRecorder name).alike (fades_findRecorder name)
  cases c with
  | mutate of field value =>
      refine (alike_find of).bind fun o₁ o₂ ho => ?_
      refine (alike_of_blind fun b => blind_evalItem value).bind_same
        fun i => ?_
      rw [← assignField_bare o₁, ← assignField_bare o₂, ho]
      refine (alike_assignField _ field i).bind_same fun _ => ?_
      exact (alike_view ho).bind fun v₁ v₂ hv =>
        alike_pure (congrArg Answer.view hv)
  | setEnvironment assignments =>
      refine alike_change rfl fun h₁ h₂ hh => ?_
      exact hh.unchanged (bare_setEnvironment h₁ _) (bare_setEnvironment h₂ _)
  | record of fields =>
      refine (hrecorder of).bind_same fun id =>
        alike_change rfl fun h₁ h₂ hh => ?_
      exact hh.unchanged (bare_modify _ id _) (bare_modify _ id _)
  | clear of =>
      refine (hrecorder of).bind_same fun id =>
        alike_change rfl fun h₁ h₂ hh => ?_
      exact hh.unchanged (bare_clear _ id) (bare_clear _ id)
  | dropFirst of =>
      refine (alike_of_blind fun b => blind_findSnapshot of).bind_same
        fun id h₁ h₂ hh => ?_
      exact .ok rfl (hh.unchanged (bare_snapshots _ _ _) (bare_snapshots _ _ _))
  | _ => exact absurd rfl hc

theorem alike_asStep {α : Type} {v : α → α} {x y : Act Scope α}
    (h : Alike id v x y) :
    Alike Stop.bare v (asStep x) (asStep y) := by
  intro h₁ h₂ hh
  have hact := h h₁ h₂ hh
  unfold asStep
  generalize x h₁ = r₁ at hact
  generalize y h₂ = r₂ at hact
  cases hact with
  | ok hv hs => exact .ok hv hs
  | error hw hs => exact .error (congrArg (Stop.bare ∘ Stop.ofFault) hw) hs

theorem alike_bindName (as? : Option String) {o₁ o₂ : Object}
    (ho : o₁.bare = o₂.bare) :
    Alike Stop.bare id (bindName as? o₁) (bindName as? o₂) := by
  refine alike_change rfl fun h₁ h₂ hh => ?_
  cases as? with
  | none => exact hh
  | some name =>
      show State.bare (modifyScope h₁ (·.bind name o₁)) =
          State.bare (modifyScope h₂ (·.bind name o₂))
      rw [bare_modifyScope _ (·.bind name o₁.bare) (Scope.bare_bind name o₁),
        bare_modifyScope _ (·.bind name o₂.bare) (Scope.bare_bind name o₂),
        hh, ho]

theorem calls_of_bare {h₁ h₂ : State} (hh : Akin h₁ h₂) :
    h₁.caller.calls = h₂.caller.calls := by
  have hcalls := congrArg (fun h : State => h.caller.calls) hh
  exact hcalls

/-- An action whose calls of an element function are gathered. -/
theorem alike_collectCalls {x y : Act Scope Buffer} (h : Alike id id x y) :
    Alike Stop.bare id (collectCalls x) (collectCalls y) := by
  intro h₁ h₂ hh
  have hclear : ∀ {s t : State}, s.bare = t.bare →
      State.bare (modifyScope s ({ · with calls := #[] })) =
        State.bare (modifyScope t ({ · with calls := #[] })) :=
    fun hst => congrArg (modifyScope · ({ · with calls := #[] })) hst
  have hact := h _ _ (hclear hh)
  unfold collectCalls
  dsimp only
  generalize x (modifyScope h₁ ({ · with calls := #[] })) = r₁ at hact
  generalize y (modifyScope h₂ ({ · with calls := #[] })) = r₂ at hact
  cases hact with
  | @ok b b' s t hv hs =>
      have hcalls := calls_of_bare hs
      refine .ok ?_ (hclear hs)
      obtain rfl : b = b' := hv
      rw [hcalls]
  | @error f f' s t hw hs =>
      have hcalls := calls_of_bare hs
      refine .error ?_ (hclear hs)
      obtain rfl : f = f' := hw
      rw [hcalls]

/-- **Steps that differ in the options of drivers only.** -/
theorem alike_step {s₁ s₂ : Step} (hs : s₁.bare = s₂.bare) :
    Alike Stop.bare Answer.bare s₁.perform s₂.perform := by
  cases s₁ with
  | make as? m₁ =>
      cases s₂ with
      | make as?' m₂ =>
          obtain ⟨rfl, hm⟩ := Step.make.inj hs
          refine (alike_asStep (alike_make hm)).bind fun o₁ o₂ ho => ?_
          refine (alike_bindName as? ho).bind_same fun _ => ?_
          refine (alike_asStep (alike_view ho)).bind fun v₁ v₂ hv => ?_
          exact alike_pure (congrArg Answer.view hv)
      | _ => cases hs
  | map as? of fn k =>
      cases s₂ with
      | map as?' of' fn' k' =>
          cases hs
          have hmap := alike_of_blind fun b => blind_mapNamed (b := b) of fn k
          refine (alike_collectCalls hmap).bind_same fun bc => ?_
          refine (alike_bindName as? rfl).bind_same fun _ => ?_
          refine (alike_asStep (alike_view rfl)).bind fun v₁ v₂ hv => ?_
          exact alike_pure (congrArg (Answer.mapped · bc.2) hv)
      | _ => cases hs
  | ask a =>
      cases s₂ with
      | ask a' =>
          cases hs
          exact alike_asStep (alike_answer a)
      | _ => cases hs
  | change c =>
      cases s₂ with
      | change c' =>
          cases hs
          exact alike_asStep (alike_perform c)
      | _ => cases hs

end Steps

end TileGrid.Script
