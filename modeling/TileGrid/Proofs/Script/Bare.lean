import TileGrid.Proofs.Script.Growth

/-!
# Scripts without traces and settings

Programs, answers and states can be stripped of all that options and environment
decide: what is recorded and printed, and what is shown of it. `Fades v x y`
says that in the stripped state the action `y` does what `x` does, stripped.
Steps do not look at what is stripped, so every step does this.
-/

namespace TileGrid

/-- The driver with nothing recorded and nothing printed. -/
def Driver.bare (d : Driver) : Driver := { d with settings := ⟨false, false⟩ }

namespace Script

open State

/-! ## What is left without traces and settings -/

/-- The step, with the options of a driver left open. -/
def Make.bare : Make → Make
  | driver _ => driver ⟨none, none⟩
  | m => m

def Step.bare : Step → Step
  | make as? m => make as? m.bare
  | s => s

/-- The program, with the options of all drivers and kernels left open. -/
def Program.bare : Program → Program
  | done => done
  | step s rest => step s.bare rest.bare
  | walk shape body rest => walk shape body.bare rest.bare
  | run driver domain tile params args body rest =>
    run driver domain tile params args body.bare rest.bare
  | kernel as? _ params body rest =>
    kernel as? ⟨none, none⟩ params body.bare rest.bare
  | launch name l args rest => launch name l args rest.bare
  | ifSame value expected? body rest =>
    ifSame value expected? body.bare rest.bare
  | attempt body rest => attempt body.bare rest.bare
  | giveBack c => giveBack c

def Kernel.bare (k : Kernel) : Kernel := ⟨⟨none, none⟩, k.params, k.body.bare⟩

/-- The view without traces. -/
def View.bare : View → View
  | observed kind shape log inner => observed kind shape log inner.bare
  | slice origin array => slice origin array.bare
  | driver phase _ => driver phase []
  | recorder _ => recorder []
  | snapshot _ => snapshot []
  | v => v

mutual

/-- The answer without traces and settings. -/
def Answer.bare : Answer → Answer
  | settings _ => settings ⟨false, false⟩
  | view v => view v.bare
  | mapped v calls => mapped v.bare calls
  | list answers => list (bareAll answers)
  | tiles ts => tiles (bareTiles ts)
  | runFailed f ts => runFailed f (bareTiles ts)
  | done => done
  | skipped => skipped
  | value v => value v
  | flag b => flag b
  | text s => text s
  | names ns => names ns
  | visits vs => visits vs
  | indices is ended => indices is ended
  | phase p => phase p
  | stored data => stored data
  | failed f => failed f
  | mapFailed f calls => mapFailed f calls

def Answer.bareAll : List Answer → List Answer
  | [] => []
  | a :: as => a.bare :: bareAll as

def Answer.bareTiles : List (List Answer) → List (List Answer)
  | [] => []
  | as :: ts => bareAll as :: bareTiles ts

end

def Stop.bare : Stop → Stop
  | failed f a => failed f a.bare
  | returned c => returned c

def Outcome.bare (o : Outcome) : Outcome :=
  ⟨Answer.bareAll o.answers, o.stop?.map Stop.bare⟩

/-- The environment without variables. -/
def Environment.bare (env : Environment) : Environment :=
  { env with bindings := [] }

/-- What is behind the names of a state without traces and settings. -/
def State.blank (h : State) : Backdrop where
  kernel := Kernel.bare
  driver := id
  recorders := h.recorders.map fun _ => #[]
  drivers := h.drivers.map Driver.bare
  console := #[]
  warnings := h.warnings
  environment := Environment.bare h.environment
  snapshots := h.caller.snapshots.map fun _ => []
  tiles := h.caller.tiles.map Answer.bareAll

/-- The object with the options of its kernels left open. -/
def Object.bare (o : Object) : Object :=
  o.under (blank (Host.empty .empty Scope.empty))

def Scope.bare (s : Scope) : Scope :=
  { s with
    names := s.names.map fun p => (p.1, p.2.bare)
    snapshots := s.snapshots.map fun _ => []
    tiles := s.tiles.map Answer.bareAll }

/-- The state without traces and settings. -/
def State.bare (h : State) : State :=
  { h with
    recorders := h.recorders.map fun _ => #[]
    drivers := h.drivers.map Driver.bare
    console := #[]
    environment := Environment.bare h.environment
    caller := h.caller.bare }

theorem Object.under_blank (h : State) (o : Object) :
    o.under (blank h) = o.bare := by
  induction o with
  | masked values valid ih => exact congrArg (Object.masked · valid) ih
  | observed log shape inner ih =>
    exact congrArg (Object.observed log shape ·) ih
  | slice array origin ih => exact congrArg (Object.slice · origin) ih
  | _ => rfl

theorem State.under_blank (h : State) : under (blank h) h = h.bare := by
  unfold State.under Scope.under
  rw [funext fun p : String × Object =>
    congrArg (Prod.mk p.1) (Object.under_blank h p.2)]
  rfl

theorem State.blank_of_kept {h h' : State} (hk : Kept h h') :
    blank h' = blank h := by
  unfold blank
  rw [hk.recorders, hk.drivers, hk.warnings, hk.environment,
    hk.snapshots, hk.tiles]

/-! ## Actions -/

section Actions

variable {α β : Type} {v : α → α}

/-- In the stripped state the action `y` does what `x` does, stripped. -/
abbrev Fades (v : α → α) (x y : Act Scope α) : Prop :=
  Mirrors State.bare id v x y

theorem State.exists_below (h : State) : ∃ n, State.Below n h := by
  refine ⟨(h.caller.names.flatMap (·.2.drivers)).sum + 1, fun p hp id hid => ?_⟩
  have hmem : id ∈ h.caller.names.flatMap (·.2.drivers) :=
    List.mem_flatMap.mpr ⟨p, hp, hid⟩
  exact Nat.lt_succ_of_le (List.le_sum_of_mem hmem)

/-- **A plain action does the same in the stripped state.** -/
theorem fades_of_tracks {u : Backdrop → α → α} {x : Act Scope α}
    (hx : ∀ b, Tracks b (u b) x x) (hu : ∀ h a, u (blank h) a = v a) :
    Fades v x x := by
  intro h
  obtain ⟨n, hn⟩ := State.exists_below h
  have hkept := (kept_of_tracks hx hn).1
  have hstate : ∀ h', Kept h h' → under (blank h) h' = State.bare h' := by
    intro h' hk
    rw [← State.blank_of_kept hk, State.under_blank]
  rw [← State.under_blank, hx (blank h) h]
  cases hr : x h with
  | ok a h' =>
      rw [hr] at hkept
      exact congrArg₂ EStateM.Result.ok (hu h a) (hstate h' hkept)
  | error f h' =>
      rw [hr] at hkept
      exact congrArg (EStateM.Result.error f) (hstate h' hkept)

theorem fades_of_blind {x : Act Scope α} (hx : ∀ b, Blind b x) : Fades id x x :=
  fades_of_tracks hx fun _ _ => rfl

theorem fades_find (name : String) :
    Fades Object.bare (find name) (find name) :=
  fades_of_tracks (fun _ => tracks_find name) Object.under_blank

end Actions

/-! ## Changes of the state -/

/-- Changing one entry and then mapping all of them, where the map turns one
change into another. -/
theorem map_modify {α β : Type} (g : α → β) (f : α → α) (f' : β → β)
    (hg : ∀ x, g (f x) = f' (g x)) (xs : Array α) (i : Nat) :
    (xs.modify i f).map g = (xs.map g).modify i f' := by
  apply Array.ext
  · simp
  · intro j hj _
    have hlt : j < xs.size := by simpa using hj
    by_cases hij : i = j
    · subst hij
      simp [Array.getElem_modify_self, hg]
    · simp [Array.getElem_modify, hij]

theorem Scope.bare_unbind (name : String) (s : Scope) :
    (s.unbind name).bare = s.bare.unbind name := by
  simp [Scope.unbind, Scope.bare, List.filter_map, Function.comp_def]

theorem Scope.bare_bind (name : String) (o : Object) (s : Scope) :
    (s.bind name o).bare = s.bare.bind name o.bare := by
  simp [Scope.bind, Scope.unbind, Scope.bare, List.filter_map,
    Function.comp_def]

theorem Scope.lookup_bare (s : Scope) (name : String) :
    s.bare.names.lookup name = (s.names.lookup name).map Object.bare :=
  Scope.lookup_under _ _

namespace State

theorem driver_bare (h : State) (id : Nat) :
    h.bare.driver id = (h.driver id).bare := by
  show (h.drivers.map Driver.bare).getD id default =
      (h.drivers.getD id default).bare
  by_cases hid : id < h.drivers.size
  · simp [hid]
  · simp [hid]
    rfl

/-- How many recorders there are does not change with the events in one. -/
theorem bare_modify (h : State) (recorder : Nat)
    (f : Array Entry → Array Entry) :
    State.bare { h with recorders := h.recorders.modify recorder f } =
      h.bare := by
  have hsame :
      (h.recorders.modify recorder f).map (fun _ => (#[] : Array Entry)) =
      h.recorders.map fun _ => #[] := by
    simp [Array.map_const']
  show ({ h.bare with
      recorders := (h.recorders.modify recorder f).map fun _ => #[] } :
        State) = _
  rw [hsame]
  rfl

theorem bare_clear (h : State) (recorder : Nat) :
    State.bare (h.clear recorder) = h.bare := by
  have hsame : (h.recorders.setIfInBounds recorder #[]).map
      (fun _ => (#[] : Array Entry)) =
      h.recorders.map fun _ => #[] := by
    simp [Array.map_const']
  show ({ h.bare with
      recorders := (h.recorders.setIfInBounds recorder #[]).map fun _ => #[] } :
    State) = _
  rw [hsame]
  rfl

theorem bare_assign (env : Environment) (name : String)
    (value? : Option String) :
    Environment.bare (env.assign name value?) = Environment.bare env := by
  cases value? <;> rfl

theorem bare_assignAll (env : Environment)
    (assignments : List (String × Option String)) :
    Environment.bare (env.assignAll assignments) = Environment.bare env := by
  unfold Environment.assignAll
  induction assignments generalizing env with
  | nil => rfl
  | cons a rest ih => rw [List.foldl_cons, ih, bare_assign]

theorem bare_setEnvironment (h : State)
    (assignments : List (String × Option String)) :
    State.bare { h with environment := h.environment.assignAll assignments } =
      h.bare := by
  show ({ h.bare with
    environment := Environment.bare (h.environment.assignAll assignments) } :
      State) = _
  rw [bare_assignAll]
  rfl

theorem bare_snapshots (h : State) (id : Nat) (f : List Entry → List Entry) :
    State.bare (modifyScope h fun s =>
      { s with snapshots := s.snapshots.modify id f }) = h.bare := by
  have hsame :
      (h.caller.snapshots.modify id f).map (fun _ => ([] : List Entry)) =
      h.caller.snapshots.map fun _ => [] := by
    simp [Array.map_const']
  show ({ h.bare with caller := { h.bare.caller with
    snapshots := (h.caller.snapshots.modify id f).map fun _ => [] } } :
      State) = _
  rw [hsame]
  rfl

/-- A driver reports, and nothing is left of it. -/
theorem emit_bare (h : State) (id : Nat) (e : Event) :
    h.bare.emit id e = State.bare (h.emit id e) := by
  have hquiet : h.bare.emit id e = h.bare := by
    unfold Host.emit
    rw [driver_bare]
    rfl
  rw [hquiet]
  unfold Host.emit
  dsimp only
  split
  · split
    · exact (bare_modify h (h.driver id).recorder (·.push (.event e))).symm
    · rfl
  · split
    · exact (bare_modify h _ _).symm
    · rfl

theorem setPhase_bare (h : State) (id : Nat) (phase : Phase) :
    h.bare.setPhase id phase = State.bare (h.setPhase id phase) := by
  have hdrivers : (h.drivers.modify id ({ · with phase })).map Driver.bare =
      (h.drivers.map Driver.bare).modify id ({ · with phase }) :=
    map_modify Driver.bare _ ({ · with phase }) (fun _ => rfl) _ _
  show _ = { h.bare with
      drivers := (h.drivers.modify id ({ · with phase })).map Driver.bare }
  rw [hdrivers]
  rfl

theorem warnRejected_bare (h : State) (tile : Index)
    (rejection : Option Fault) :
    h.bare.warnRejected tile rejection =
      State.bare (h.warnRejected tile rejection) := by
  cases rejection <;> rfl

theorem bare_modifyScope (f g : Scope → Scope) (hf : ∀ s, (f s).bare = g s.bare)
    (h : State) :
    State.bare (modifyScope h f) = modifyScope h.bare g := by
  show ({ h.bare with caller := (f h.caller).bare } : State) = _
  rw [hf]
  rfl

theorem entries_bare (h : State) (recorder : Nat) :
    h.bare.entries recorder = #[] := by
  show (h.recorders.map fun _ => (#[] : Array Entry)).getD recorder #[] = #[]
  by_cases hr : recorder < h.recorders.size
  · simp [hr]
  · simp [hr]

theorem snapshot_bare (h : State) (id : Nat) :
    h.bare.caller.snapshots.getD id [] = [] := by
  show (h.caller.snapshots.map fun _ => ([] : List Entry)).getD id [] = []
  by_cases hid : id < h.caller.snapshots.size
  · simp [hid]
  · simp [hid]

end State

/-! ## Views -/

section Views

variable {b : Backdrop}

theorem blind_displayList (i : Item) : Blind b (displayList i) := by
  simp [displayList]

theorem blind_displayLog (entries : List Logged) :
    Blind b (displayLog entries) := by
  induction entries with
  | nil => exact blind_pure _
  | cons entry rest ih =>
      cases entry with
      | access a => exact ih.bind fun _ => blind_pure _
      | replaced i =>
        exact (blind_display i).bind fun _ => ih.bind fun _ => blind_pure _

theorem blind_maskedView (values : Object) (valid : Shape) :
    Blind b (maskedView values valid) := by
  refine (blind_settle _).bind fun kind => (blind_settle _).bind fun shape => ?_
  exact (blind_display shape).bind fun shape => blind_pure _

theorem blind_tileView (t : TileLists) : Blind b (tileView t) := by
  refine (blind_displayList _).bind fun id =>
    (blind_displayList _).bind fun offset => ?_
  refine (blind_displayList _).bind fun shape =>
    (blind_displayList _).bind fun nominal => ?_
  exact (blind_displayList _).bind fun domain =>
    (blind_displayList _).bind fun _ => blind_pure _

/-- **A view of the stripped object is the view of the object, stripped.** -/
theorem fades_view (o : Object) : Fades View.bare (view o) (view o.bare) := by
  induction o with
  | tensor t => exact fun _ => rfl
  | buffer b => exact fun _ => rfl
  | masked values valid =>
      have hsame : maskedView values.bare valid = maskedView values valid := by
        simp [maskedView, Object.bare]
      show Fades _ (View.buffer <$> maskedView values valid)
        (View.buffer <$> maskedView values.bare valid)
      rw [hsame]
      exact (fades_of_blind fun b => blind_maskedView values valid).map
        fun _ => rfl
  | observed log shape inner ih =>
      show Fades _ (settle inner.kind >>= _) (settle inner.bare.kind >>= _)
      rw [show inner.bare.kind = inner.kind from inner.kind_under]
      refine (fades_of_blind fun b => blind_settle _).bind fun kind _ => ?_
      refine (fades_of_blind fun b => blind_display shape).bind
        fun shape _ => ?_
      refine (fades_of_blind fun b => blind_read fun _ => rfl).bind
        fun entries _ => ?_
      refine (fades_of_blind fun b => blind_displayLog entries).bind
        fun accesses _ => ?_
      exact ih.bind fun seen _ => mirrors_pure _
  | slice array origin ih =>
      refine (fades_of_blind fun b => blind_display origin).bind
        fun origin _ => ?_
      exact ih.bind fun seen _ => mirrors_pure _
  | context t =>
    exact (fades_of_blind fun b => blind_tileView t).map fun _ => rfl
  | driver id =>
      intro h
      show EStateM.Result.ok (View.driver (h.bare.driver id).phase
        (h.bare.entries (h.bare.driver id).recorder).toList) h.bare = _
      rw [State.entries_bare, State.driver_bare]
      rfl
  | recorder id =>
      intro h
      show EStateM.Result.ok (View.recorder (h.bare.entries id).toList)
          h.bare = _
      rw [State.entries_bare]
      rfl
  | snapshot id =>
      intro h
      show EStateM.Result.ok
          (View.snapshot (h.bare.caller.snapshots.getD id [])) h.bare = _
      rw [State.snapshot_bare]
      rfl
  | launch l => exact fun _ => rfl
  | kernel k => exact fun _ => rfl
  | nothing => exact fun _ => rfl

end Views

/-! ## Single steps -/

section Steps

theorem fades_findRecorder (name : String) :
    Fades id (findRecorder name) (findRecorder name) := by
  refine (fades_find name).bind fun o _ => ?_
  cases o with
  | driver id =>
      intro h
      show EStateM.Result.ok (h.bare.driver id).recorder h.bare = _
      rw [State.driver_bare]
      rfl
  | _ => exact fun _ => rfl

theorem fades_newDriver (o : Options) :
    Fades id (Host.newDriver o) (Host.newDriver ⟨none, none⟩) := by
  intro h
  -- neither options nor environment say anything in the stripped state
  have hoff : Options.settings ⟨none, none⟩ (Environment.bare h.environment) =
      ⟨false, false⟩ := rfl
  simp only [Host.newDriver, Host.newRecorder, bind, EStateM.bind, carry,
    State.bare, Array.map_push, Array.size_map, hoff, id]
  rfl

/-- **What is made is the same but for what is stripped.** -/
theorem fades_make (m : Make) : Fades Object.bare m.perform m.bare.perform := by
  by_cases hm : m.isPlain = true
  · have hsame : m.bare = m := by
      cases m with
      | driver o => cases hm
      | _ => rfl
    rw [hsame]
    exact fades_of_tracks (fun _ => tracks_make hm) Object.under_blank
  cases m with
  | driver o => exact (fades_newDriver o).bind fun id _ => mirrors_pure _
  | recorder =>
      refine Mirrors.bind (v := id) (fun h => ?_) fun id _ => mirrors_pure _
      simp only [Host.newRecorder, carry, State.bare, Array.map_push,
        Array.size_map, id]
  | snapshot of =>
      refine (fades_findRecorder of).bind fun recorder _ => fun h => ?_
      show EStateM.Result.ok (Object.snapshot h.bare.caller.snapshots.size)
          (modifyScope h.bare
        fun s => { s with
          snapshots := s.snapshots.push (h.bare.entries recorder).toList }) = _
      rw [State.entries_bare]
      simp only [carry, modifyScope, State.bare, Scope.bare, Array.map_push,
        Array.size_map]
      rfl
  | _ => exact absurd rfl hm

/-- Every value that the action returns is as said. -/
def Always {α : Type} (P : α → Prop) (x : Act Scope α) : Prop :=
  ∀ a, Returns x a → P a

section Always

variable {α β : Type} {P : β → Prop}

@[simp] theorem always_pure {a : β} : Always P (pure a : Act Scope β) ↔ P a :=
  ⟨fun h => h a ⟨Host.empty .empty Scope.empty, _, rfl⟩,
    fun ha _ h => h.pure_eq ▸ ha⟩

@[simp] theorem always_throw (f : Fault) : Always P (throw f : Act Scope β) :=
  fun _ h => absurd h not_returns_throw

@[simp] theorem always_bind {x : Act Scope α} {k : α → Act Scope β}
    (hk : ∀ a, Always P (k a)) :
    Always P (x >>= k) := by
  intro c h
  obtain ⟨a, -, h⟩ := h.of_bind
  exact hk a c h

theorem always_map {x : Act Scope α} {k : α → β} (hk : ∀ a, P (k a)) :
    Always P (k <$> x) := by
  rw [map_eq_pure_bind]
  exact always_bind fun a => always_pure.mpr (hk a)

@[simp] theorem always_ite {c : Prop} [Decidable c] {x y : Act Scope β}
    (hx : Always P x) (hy : Always P y) : Always P (if c then x else y) := by
  split
  · exact hx
  · exact hy

end Always

/-- Of an answer from which nothing is stripped, the value returned is
the same. -/
theorem Mirrors.fixed {α : Type} {v : α → α} {x : Act Scope α}
    (hx : Fades id x x) (hv : Always (fun a => v a = a) x) : Fades v x x := by
  intro h
  rw [hx h]
  cases hr : x h with
  | ok a h' =>
    exact congrArg (EStateM.Result.ok · (State.bare h')) (hv a ⟨h, h', hr⟩).symm
  | error f h' => rfl

theorem always_answer {a : Ask} (ha : a.isPlain = true) :
    Always (fun answer => answer.bare = answer) a.answer := by
  cases a with
  | view of => cases ha
  | settings source => cases ha
  | phase driver => cases ha
  | shape s =>
    exact always_bind fun _ => always_bind fun _ => always_map fun _ => rfl
  | value t => exact always_bind fun _ => always_map fun _ => rfl
  | strides s =>
      refine always_bind fun v => ?_
      cases v.parts? with
      | some ds => exact always_bind fun _ => always_pure.mpr rfl
      | none => exact always_ite (always_throw _) (always_pure.mpr rfl)
  | origin index tile =>
      refine always_bind fun _ => always_bind fun _ => always_bind fun _ =>
        always_bind fun _ => ?_
      exact always_ite (always_bind fun _ => always_pure.mpr rfl)
        (always_pure.mpr rfl)
  | compact of =>
      refine always_bind fun o => ?_
      cases o with
      | buffer b => exact always_bind fun _ => always_pure.mpr rfl
      | masked values valid =>
        exact always_bind fun _ => always_bind fun _ => always_pure.mpr rfl
      | _ => exact always_throw _
  | isValid of index =>
      refine always_bind fun o => always_bind fun index => ?_
      cases o with
      | buffer b => exact always_map fun _ => rfl
      | masked values valid => exact always_map fun _ => rfl
      | _ => exact always_throw _
  | _ =>
      -- whatever is worked out first, the last thing is to return a value
      repeat refine always_bind fun _ => ?_
      exact always_pure.mpr rfl

end Steps

end Script

end TileGrid
