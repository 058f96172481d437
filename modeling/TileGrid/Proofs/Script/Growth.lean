import TileGrid.Proofs.Drivers
import TileGrid.Proofs.Script.PlainSteps

/-!
# Drivers as a script goes on

A step leaves the drivers there are as they are, and those it makes are at rest.
No name ever leads to a driver that was not made. Both together are `Grows`, the
order in which the states of a script come.
-/

namespace TileGrid.Script

open State

/-! ## The drivers that names lead to -/

/-- The drivers in an object. -/
def Object.drivers : Object → List Nat
  | masked values _ => values.drivers
  | observed _ _ inner => inner.drivers
  | slice array _ => array.drivers
  | driver id => [id]
  | _ => []

def Object.Below (n : Nat) (o : Object) : Prop := ∀ id ∈ o.drivers, id < n

/-- All drivers that names lead to are below `n`. -/
def State.Below (n : Nat) (h : State) : Prop :=
  ∀ p ∈ h.caller.names, p.2.Below n

theorem Object.Below.mono {n m : Nat} {o : Object} (ho : o.Below n)
    (hnm : n ≤ m) : o.Below m :=
  fun id hid => (ho id hid).trans_le hnm

theorem Object.below_of_drivers {n : Nat} {o : Object}
    (ho : o.drivers = []) : o.Below n := by
  intro id hid
  rw [ho] at hid
  cases hid

/-! ## What plain actions keep -/

/-- The backdrop that a state has, with the drivers from `n` on
played by others. -/
def State.backdrop (n : Nat) (h : State) : Backdrop where
  kernel := id
  driver := fun id => if id < n then id else id + 1
  recorders := h.recorders
  drivers := h.drivers
  console := h.console
  warnings := h.warnings
  environment := h.environment
  snapshots := h.caller.snapshots
  tiles := h.caller.tiles

/-- Before that backdrop an object is the same exactly if its
drivers are below `n`. -/
theorem Object.under_backdrop {n : Nat} {h : State} {o : Object} :
    o.under (backdrop n h) = o ↔ o.Below n := by
  induction o with
  | masked values valid ih =>
      simp only [Object.under, Object.masked.injEq, and_true, ih]
      rfl
  | observed log shape inner ih =>
      simp only [Object.under, Object.observed.injEq, true_and, ih]
      rfl
  | slice array origin ih =>
      simp only [Object.under, Object.slice.injEq, and_true, ih]
      rfl
  | driver id =>
      simp only [Object.under, backdrop, Object.driver.injEq, Object.Below,
        Object.drivers, List.mem_singleton, forall_eq]
      split <;> omega
  | _ => exact ⟨fun _ => below_of_drivers rfl, fun _ => rfl⟩

theorem State.under_backdrop {n : Nat} {h : State} (hh : State.Below n h) :
    under (backdrop n h) h = h := by
  have hnames : h.caller.names.map (fun p => (p.1, p.2.under (backdrop n h))) =
      h.caller.names := by
    refine (List.map_congr_left fun p hp => ?_).trans (List.map_id _)
    exact Prod.ext rfl (Object.under_backdrop.mpr (hh p hp))
  show { h with caller := { h.caller with names := _ } } = h
  rw [hnames]

/-- The two states have the same backdrop. -/
structure Kept (h h' : State) : Prop where
  recorders : h'.recorders = h.recorders
  drivers : h'.drivers = h.drivers
  console : h'.console = h.console
  warnings : h'.warnings = h.warnings
  environment : h'.environment = h.environment
  snapshots : h'.caller.snapshots = h.caller.snapshots
  tiles : h'.caller.tiles = h.caller.tiles

section Plain

variable {ε α : Type} {v : Backdrop → α → α} {x : EStateM ε State α} {n : Nat}
  {h : State}

theorem carry_of_tracks (hx : ∀ b, Tracks b (v b) x x) (hh : State.Below n h) :
    carry (under (backdrop n h)) id (v (backdrop n h)) (x h) = x h := by
  have htracks := hx (backdrop n h) h
  rw [State.under_backdrop hh] at htracks
  exact htracks.symm

/-- **A plain action keeps the backdrop and leads names to no new driver.** -/
theorem kept_of_tracks (hx : ∀ b, Tracks b (v b) x x) (hh : State.Below n h) :
    Kept h (x h).state ∧ State.Below n (x h).state := by
  have hstate : under (backdrop n h) (x h).state = (x h).state := by
    have hcarry := congrArg EStateM.Result.state (carry_of_tracks hx hh)
    cases hr : x h with
    | ok a h' => rw [hr] at hcarry; exact hcarry
    | error e h' => rw [hr] at hcarry; exact hcarry
  refine ⟨?_, fun p hp => ?_⟩
  · rw [← hstate]
    exact ⟨rfl, rfl, rfl, rfl, rfl, rfl, rfl⟩
  · have hnames : (x h).state.caller.names.map
        (fun p => (p.1, p.2.under (backdrop n h))) = (x h).state.caller.names :=
      congrArg (fun s : State => s.caller.names) hstate
    have hfixed :=
      List.map_eq_map_iff.mp (hnames.trans (List.map_id _).symm) p hp
    exact Object.under_backdrop.mp (congrArg Prod.snd hfixed)

/-- What a plain action returns is the same before the backdrop. -/
theorem fixed_of_tracks (hx : ∀ b, Tracks b (v b) x x) (hh : State.Below n h)
    {a : α} {h' : State} (hr : x h = .ok a h') : v (backdrop n h) a = a := by
  have hcarry := carry_of_tracks hx hh
  rw [hr] at hcarry
  exact (EStateM.Result.ok.inj hcarry).1

end Plain

/-! ## The order of states -/

/-- No name leads to a driver that was not made. -/
def State.Housed (h : State) : Prop := State.Below h.drivers.size h

/-- Every driver has a recorder. -/
def State.Wired (h : State) : Prop :=
  ∀ id < h.drivers.size, (h.driver id).recorder < h.recorders.size

/-- The drivers there were are as they were, and others are at rest. Recorders
stay, and so does what was printed. -/
structure Grows (h h' : State) : Prop where
  size_le : h.drivers.size ≤ h'.drivers.size
  driver_eq : ∀ id < h.drivers.size, h'.driver id = h.driver id
  new_idle : ∀ id, h.drivers.size ≤ id → (h'.driver id).phase = .idle
  outlasts : Host.Outlasts h h'
  housed : State.Housed h → State.Housed h'
  wired : State.Wired h → State.Wired h'

theorem phase_of_size_le {h : State} {id : Nat} (hid : h.drivers.size ≤ id) :
    (h.driver id).phase = .idle := by
  rw [Host.driver_of_size_le hid]
  rfl

namespace Grows

variable {h h₁ h₂ : State}

theorem refl (h : State) : Grows h h :=
  ⟨le_rfl, fun _ _ => rfl, fun _ hid => phase_of_size_le hid,
    ⟨le_rfl, List.prefix_rfl⟩, id, id⟩

theorem trans (ha : Grows h h₁) (hb : Grows h₁ h₂) : Grows h h₂ where
  size_le := ha.size_le.trans hb.size_le
  driver_eq := fun id hid =>
    (hb.driver_eq id (hid.trans_le ha.size_le)).trans (ha.driver_eq id hid)
  new_idle := by
    intro id hid
    by_cases hlt : id < h₁.drivers.size
    · rw [hb.driver_eq id hlt, ha.new_idle id hid]
    · exact hb.new_idle id (Nat.le_of_not_lt hlt)
  outlasts := ha.outlasts.trans hb.outlasts
  housed := fun hh => hb.housed (ha.housed hh)
  wired := fun hh => hb.wired (ha.wired hh)

/-- Only drivers, names and reports matter. -/
theorem of_drivers (hd : h₁.drivers = h.drivers)
    (hh : State.Housed h → State.Housed h₁)
    (ho : Host.Outlasts h h₁ := by exact ⟨le_rfl, List.prefix_rfl⟩) :
    Grows h h₁ := by
  have hdriver : ∀ id, h₁.driver id = h.driver id := fun id => by
    rw [Host.driver, hd, Host.driver]
  refine ⟨by rw [hd], fun id _ => hdriver id, fun id hid => ?_, ho, hh,
    fun hw id hid => ?_⟩
  · rw [hdriver]
    exact phase_of_size_le hid
  · rw [hdriver]
    exact (hw id (by rwa [hd] at hid)).trans_le ho.1

theorem of_same (hd : h₁.drivers = h.drivers)
    (hn : h₁.caller.names = h.caller.names)
    (ho : Host.Outlasts h h₁ := by exact ⟨le_rfl, List.prefix_rfl⟩) :
    Grows h h₁ := by
  refine of_drivers hd (fun hh => ?_) ho
  rw [State.Housed, State.Below, hd, hn]
  exact hh

/-- A later state finds the same drivers running. -/
theorem running_iff (hg : Grows h h₁) (id : Nat) :
    (h₁.driver id).phase = .running ↔ (h.driver id).phase = .running := by
  by_cases hlt : id < h.drivers.size
  · rw [hg.driver_eq id hlt]
  · have hle := Nat.le_of_not_lt hlt
    rw [hg.new_idle id hle, phase_of_size_le hle]

theorem wired_setPhase {id : Nat} {phase : Phase} :
    State.Wired (h.setPhase id phase) ↔ State.Wired h := by
  unfold State.Wired
  simp only [Host.recorder_setPhase]
  simp only [Host.setPhase, Array.size_modify]

/-- Both states with the driver marked as running. -/
theorem enter (hg : Grows h h₁) {id : Nat} (hid : id < h.drivers.size) :
    Grows (h.setPhase id .running) (h₁.setPhase id .running) where
  size_le := by simpa [Host.setPhase] using hg.size_le
  driver_eq := by
    intro id' hid'
    have hlt : id' < h.drivers.size := by simpa [Host.setPhase] using hid'
    by_cases heq : id = id'
    · subst heq
      rw [Host.driver_setPhase hid,
        Host.driver_setPhase (hid.trans_le hg.size_le), hg.driver_eq id hid]
    · rw [Host.driver_setPhase_of_ne h heq, Host.driver_setPhase_of_ne h₁ heq,
        hg.driver_eq id' hlt]
  new_idle := by
    intro id' hid'
    have hle : h.drivers.size ≤ id' := by simpa [Host.setPhase] using hid'
    rw [Host.driver_setPhase_of_ne h₁ (by omega), hg.new_idle id' hle]
  outlasts := hg.outlasts
  housed := by
    simp only [State.Housed, State.Below, Host.setPhase, Array.size_modify]
    exact hg.housed
  wired := by
    rw [wired_setPhase, wired_setPhase]
    exact hg.wired

/-- A driver that was at rest and is again. -/
theorem leave {id : Nat} (hid : id < h.drivers.size)
    (hidle : (h.driver id).phase = .idle)
    (hg : Grows (h.setPhase id .running) h₁) :
    Grows h (h₁.setPhase id .idle) where
  size_le := by simpa [Host.setPhase] using hg.size_le
  driver_eq := by
    intro id' hlt
    have hlt' : id' < (h.setPhase id .running).drivers.size := by
      simpa [Host.setPhase] using hlt
    by_cases heq : id = id'
    · subst heq
      rw [Host.driver_setPhase (hlt'.trans_le hg.size_le), hg.driver_eq id hlt',
        Host.driver_setPhase hid]
      show { h.driver id with phase := Phase.idle } = h.driver id
      rw [← hidle]
    · rw [Host.driver_setPhase_of_ne h₁ heq, hg.driver_eq id' hlt',
        Host.driver_setPhase_of_ne h heq]
  new_idle := by
    intro id' hle
    have hle' : (h.setPhase id .running).drivers.size ≤ id' := by
      simpa [Host.setPhase] using hle
    rw [Host.driver_setPhase_of_ne h₁ (by omega), hg.new_idle id' hle']
  outlasts := hg.outlasts
  housed := by
    intro hh
    have hmarked : State.Housed (h.setPhase id .running) := by
      simpa [State.Housed, State.Below, Host.setPhase] using hh
    simpa [State.Housed, State.Below, Host.setPhase] using hg.housed hmarked
  wired := by
    rw [wired_setPhase]
    exact fun hw => hg.wired (wired_setPhase.mpr hw)

end Grows

theorem onward_housed : Onward State.Housed Grows where
  refl := .refl
  trans := .trans
  closed := fun hs hg => hg.housed hs

theorem ignoresReports_grows : Host.IgnoresReports Grows :=
  fun _ _ hd hc ho => .of_same hd (by rw [hc]) ho

namespace State.Housed

variable {h : State}

theorem unbind (hh : State.Housed h) (name : String) :
    State.Housed (modifyScope h (·.unbind name)) :=
  fun p hp => hh p (List.mem_filter.mp hp).1

theorem bind (hh : State.Housed h) {o : Object} (ho : o.Below h.drivers.size)
    (name : String) :
    State.Housed (modifyScope h (·.bind name o)) := by
  intro p hp
  rcases List.mem_cons.mp hp with rfl | hp
  · exact ho
  · exact hh.unbind name p hp

end State.Housed

/-! ## Views -/

section Views

@[simp] theorem looks_present (i : Item) : Looks (present i) := looks_read _

@[simp] theorem looks_shown (v : Number) : Looks (shown v) := by simp [shown]

@[simp] theorem looks_display (i : Item) : Looks (display i) := by
  simp [display]

@[simp] theorem looks_displayList (i : Item) : Looks (displayList i) := by
  simp [displayList]

@[simp] theorem looks_displayLog (entries : List Logged) :
    Looks (displayLog entries) := by
  induction entries with
  | nil => simp [displayLog]
  | cons entry rest ih => cases entry <;> simp [displayLog, ih]

@[simp] theorem looks_maskedView (values : Object) (valid : Shape) :
    Looks (maskedView values valid) := by
  refine (looks_settle _).bind fun kind => (looks_settle _).bind fun shape => ?_
  simp

@[simp] theorem looks_tileView (t : TileLists) : Looks (tileView t) := by
  refine (looks_displayList _).bind fun id =>
    (looks_displayList _).bind fun offset => ?_
  refine (looks_displayList _).bind fun shape =>
    (looks_displayList _).bind fun nominal => ?_
  simp

@[simp] theorem looks_view (o : Object) : Looks (view o) := by
  induction o with
  | observed log shape inner ih =>
      refine (looks_settle _).bind fun kind =>
        (looks_display _).bind fun shape => ?_
      refine (looks_read _).bind fun entries =>
        (looks_displayLog entries).bind fun accesses => ?_
      exact ih.bind fun array => looks_pure _
  | _ => simp_all [view]

@[simp] theorem looks_find (name : String) : Looks (find name) := by
  intro h
  show (settle (h.caller.find name) h).state = h
  exact looks_settle _ h

@[simp] theorem looks_driverId (o : Object) : Looks (driverId o) := by
  cases o <;> simp [driverId]

@[simp] theorem looks_findRecorder (name : String) :
    Looks (findRecorder name) := by
  refine (looks_find name).bind fun o => ?_
  cases o <;> simp

theorem looks_asStep {α : Type} {x : Act Scope α} (hx : Looks x) :
    Looks (asStep x) := by
  intro h
  have hsame := hx h
  unfold asStep
  cases hr : x h with
  | ok a h' =>
      rw [hr] at hsame
      exact hsame
  | error f h' =>
      rw [hr] at hsame
      exact hsame

end Views

/-! ## Single steps -/

section Steps

variable {ε α β : Type} {v : Backdrop → α → α} {x : EStateM ε State α}
  {h : State}

/-- The action leads to later states. -/
abbrev Tidy (x : EStateM ε State α) : Prop := Along State.Housed Grows x x

theorem Tidy.bind {k : α → EStateM ε State β} (hx : Tidy x)
    (hk : ∀ a, Tidy (k a)) :
    Tidy (x >>= k) := Along.bind onward_housed hx hk

/-- One action and then one of two others, for which it matters what the
first returned. -/
theorem grows_bind {k l : α → EStateM ε State β} (hx : Grows h (x h).state)
    (hk : ∀ a h', x h = .ok a h' → k a h' = l a h' ∧ Grows h' (k a h').state) :
    (x >>= k) h = (x >>= l) h ∧ Grows h ((x >>= k) h).state := by
  show EStateM.bind x k h = EStateM.bind x l h ∧
      Grows h (EStateM.bind x k h).state
  unfold EStateM.bind
  cases hr : x h with
  | error e h' =>
      rw [hr] at hx
      exact ⟨rfl, hx⟩
  | ok a h' =>
      rw [hr] at hx
      obtain ⟨heq, hlater⟩ := hk a h' hr
      exact ⟨heq, hx.trans hlater⟩

theorem tidy_of_looks (hx : Looks x) : Tidy x := .of_looks onward_housed hx

/-- An action that leaves the drivers and the names as they are. -/
theorem tidy_of_same (hd : ∀ h, (x h).state.drivers = h.drivers)
    (hn : ∀ h, (x h).state.caller.names = h.caller.names)
    (ho : ∀ h, Host.Outlasts h
      (x h).state := by exact fun _ => ⟨le_rfl, List.prefix_rfl⟩) : Tidy x :=
  .of_state fun h _ => .of_same (hd h) (hn h) (ho h)

theorem tidy_of_tracks (hx : ∀ b, Tracks b (v b) x x) : Tidy x := by
  refine .of_state fun h hh => ?_
  obtain ⟨hkept, hbelow⟩ := kept_of_tracks hx hh
  refine .of_drivers hkept.drivers (fun _ => ?_) ?_
  · rw [State.Housed, hkept.drivers]
    exact hbelow
  · rw [Host.Outlasts, hkept.recorders, hkept.console]
    exact ⟨le_rfl, List.prefix_rfl⟩

/-- An object that a plain action returns has only drivers that were made. -/
theorem below_of_tracks {x : Act Scope Object}
    (hx : ∀ b, Tracks b (Object.under b) x x) (hh : State.Housed h) {o : Object}
    {h' : State} (hr : x h = .ok o h') :
    o.Below h'.drivers.size := by
  have hkept := (kept_of_tracks hx hh).1
  rw [hr] at hkept
  rw [show h'.drivers = h.drivers from hkept.drivers]
  exact Object.under_backdrop.mp (fixed_of_tracks hx hh hr)

theorem along_asStep {P : State → Prop} {G : State → State → Prop}
    {x y : Act Scope α} (h : Along P G x y) :
    Along P G (asStep x) (asStep y) := by
  intro s hs
  obtain ⟨heq, hlater⟩ := h s hs
  unfold Script.asStep
  rw [← heq]
  cases hr : x s with
  | ok a t =>
      rw [hr] at hlater
      exact ⟨rfl, hlater⟩
  | error f t =>
      rw [hr] at hlater
      exact ⟨rfl, hlater⟩

theorem eq_ok_of_asStep {x : Act Scope α} {a : α} {h h' : State}
    (hr : asStep x h = .ok a h') :
    x h = .ok a h' := by
  unfold asStep at hr
  cases hx : x h with
  | error f t => rw [hx] at hr; cases hr
  | ok c t =>
      rw [hx] at hr
      cases hr
      rfl

theorem driver_push {h : State} {d : Driver} {recorders : Array (Array Entry)}
    (id : Nat) :
    Host.driver { h with recorders, drivers := h.drivers.push d } id =
      if id = h.drivers.size then d else h.driver id := by
  by_cases heq : id = h.drivers.size
  · simp [Host.driver, heq]
  · simp [Host.driver, Array.getElem?_push, heq]

/-- A new driver is at rest, and all others are as they were. -/
theorem tidy_newDriver (o : Options) :
    Tidy (Host.newDriver o : Act Scope Nat) := by
  refine .of_state fun h _ => ?_
  refine ⟨?_, fun id hid => ?_, fun id hid => ?_, ⟨?_, List.prefix_rfl⟩,
    fun hh p hp => ?_, fun hw id hid => ?_⟩
  · show h.drivers.size ≤ (h.drivers.push _).size
    simp
  · exact (driver_push id).trans (if_neg (Nat.ne_of_lt hid))
  · show (Host.driver { h with recorders := _, drivers := h.drivers.push _ }
        id).phase = _
    rw [driver_push]
    split
    · rfl
    · exact phase_of_size_le hid
  · show h.recorders.size ≤ (h.recorders.push _).size
    simp
  · refine (hh p hp).mono ?_
    show h.drivers.size ≤ (h.drivers.push _).size
    simp
  · have hlt : id < (h.drivers.push _).size := hid
    show (Host.driver { h with recorders := _, drivers := h.drivers.push _ }
        id).recorder < (h.recorders.push _).size
    rw [driver_push, Array.size_push]
    split
    · exact Nat.lt_succ_self _
    · rename_i hne
      rw [Array.size_push] at hlt
      exact (hw id (by omega)).trans (Nat.lt_succ_self _)

/-- What a step makes has only drivers that were made, its own among them. -/
theorem tidy_make (m : Make) : Tidy m.perform ∧ ∀ h, State.Housed h → ∀ o h',
    m.perform h = .ok o h' → o.Below h'.drivers.size := by
  by_cases hm : m.isPlain = true
  · exact ⟨tidy_of_tracks fun b => tracks_make hm,
      fun h hh o h' hr => below_of_tracks (fun b => tracks_make hm) hh hr⟩
  cases m with
  | driver options =>
      refine ⟨(tidy_newDriver options).bind fun _ =>
        tidy_of_looks (looks_pure _), ?_⟩
      intro h _ o h' hr id hid
      cases hr
      obtain rfl := List.mem_singleton.mp hid
      show h.drivers.size < (h.drivers.push _).size
      simp
  | recorder =>
      refine ⟨tidy_of_same (fun _ => rfl) (fun _ => rfl) fun h =>
        ⟨?_, List.prefix_rfl⟩, ?_⟩
      · show h.recorders.size ≤ (h.recorders.push _).size
        simp
      · intro h _ o h' hr
        cases hr
        exact Object.below_of_drivers rfl
  | snapshot of =>
      refine ⟨(tidy_of_looks (looks_findRecorder of)).bind fun recorder =>
        ?_, ?_⟩
      · exact tidy_of_same (fun _ => rfl) fun _ => rfl
      · intro h _ o h' hr
        obtain ⟨recorder, h₁, -, hr⟩ := ok_of_bind hr
        cases hr
        exact Object.below_of_drivers rfl
  | _ => exact absurd rfl hm

theorem tidy_assignField (o : Object) (field : String) (i : Item) :
    Tidy (assignField o field i) := by
  unfold assignField
  split
  · refine (tidy_of_looks (looks_present i)).bind fun v => ?_
    exact tidy_of_tracks fun b => blind_setFirst _ _
  · exact tidy_of_same (fun _ => rfl) fun _ => rfl
  · refine (tidy_of_looks (looks_present i)).bind fun v => ?_
    refine (tidy_of_looks (looks_shown v)).bind fun v => ?_
    refine tidy_of_same (fun _ => rfl) (fun _ => rfl) fun h =>
      ⟨?_, List.prefix_rfl⟩
    simp [EStateM.Result.state]
  · refine (tidy_of_looks (looks_present i)).bind fun v => ?_
    refine (tidy_of_looks (looks_shown v)).bind fun v => ?_
    exact tidy_of_same (fun _ => rfl) fun _ => rfl
  iterate 5 exact tidy_of_looks (looks_pure _)
  · cases o.list? field with
    | none => exact tidy_of_looks (looks_throw _)
    | some item =>
        cases item with
        | value x => exact tidy_of_looks (looks_throw _)
        | list id =>
            refine .of_state fun h _ => ?_
            dsimp only
            split
            · exact .refl h
            · exact .of_same rfl rfl

theorem tidy_answer (a : Ask) : Tidy a.answer := by
  by_cases ha : a.isPlain = true
  · exact tidy_of_tracks fun b => blind_answer ha
  cases a with
  | view of =>
      refine tidy_of_looks ((looks_find of).bind fun o => ?_)
      simp
  | settings source => exact tidy_of_looks (looks_read _)
  | phase driver =>
      refine tidy_of_looks ((looks_find driver).bind fun o => ?_)
      exact (looks_driverId o).bind fun id => looks_read _
  | _ => exact absurd rfl ha

theorem tidy_change (c : Change) : Tidy c.perform := by
  by_cases hc : c.isPlain = true
  · exact tidy_of_tracks fun b => blind_change hc
  cases c with
  | mutate of field value =>
      refine (tidy_of_looks (looks_find of)).bind fun o => ?_
      refine (tidy_of_tracks fun b => blind_evalItem value).bind fun i => ?_
      refine (tidy_assignField o field i).bind fun _ => ?_
      exact tidy_of_looks ((looks_view o).bind fun seen => looks_pure _)
  | setEnvironment assignments => exact tidy_of_same (fun _ => rfl) fun _ => rfl
  | record of fields =>
      refine (tidy_of_looks (looks_findRecorder of)).bind fun id => ?_
      refine tidy_of_same (fun _ => rfl) (fun _ => rfl) fun h =>
        ⟨?_, List.prefix_rfl⟩
      simp [EStateM.Result.state, Host.record]
  | clear of =>
      refine (tidy_of_looks (looks_findRecorder of)).bind fun id => ?_
      refine tidy_of_same (fun _ => rfl) (fun _ => rfl) fun h =>
        ⟨?_, List.prefix_rfl⟩
      simp [EStateM.Result.state, Host.clear]
  | dropFirst of =>
      refine (tidy_of_tracks fun b => blind_findSnapshot of).bind fun id => ?_
      exact tidy_of_same (fun _ => rfl) fun _ => rfl
  | _ => exact absurd rfl hc

theorem Grows.bindName {h : State} {o : Object} (ho : o.Below h.drivers.size)
    (as? : Option String) : Grows h (bindName as? o h).state := by
  cases as? with
  | none => exact .refl h
  | some name => exact .of_drivers rfl fun hh => hh.bind ho name

theorem tidy_collectCalls {act : Act Scope Buffer} (h : Tidy act) :
    Tidy (collectCalls act) := by
  refine .of_state fun s hs => ?_
  have hclear : Grows s (modifyScope s ({ · with calls := #[] })) :=
    .of_same rfl rfl
  have hact := (h _ (hclear.housed hs)).2
  unfold Script.collectCalls
  dsimp only
  cases hr : act (modifyScope s ({ · with calls := #[] })) with
  | ok b t =>
      rw [hr] at hact
      exact (hclear.trans hact).trans (.of_same rfl rfl)
  | error f t =>
      rw [hr] at hact
      exact (hclear.trans hact).trans (.of_same rfl rfl)

/-- **A single step leads to a later state**, whether it succeeds or fails. -/
theorem tidy_perform (s : Step) : Tidy s.perform := by
  cases s with
  | make as? m =>
      obtain ⟨hmake, hbelow⟩ := tidy_make m
      refine fun h hh =>
        grows_bind (along_asStep hmake h hh).2 fun o h' hr => ?_
      have ho := hbelow h hh o h' (eq_ok_of_asStep hr)
      -- the object is bound in the state that it was made in, and then
      -- looked at
      have hview : Looks (asStep (view o)) := looks_asStep (looks_view o)
      refine grows_bind (Grows.bindName ho as?) fun _ h₁ _ => ⟨rfl, ?_⟩
      rw [(hview.bind fun v => looks_pure _) h₁]
      exact .refl h₁
  | map as? of fn k =>
      refine (tidy_collectCalls (tidy_of_tracks fun b =>
        blind_mapNamed of fn k)).bind fun bc => ?_
      refine Tidy.bind (.of_state fun h _ => ?_) fun _ => ?_
      · exact Grows.bindName (Object.below_of_drivers rfl) as?
      · exact tidy_of_looks ((looks_asStep (looks_view _)).bind fun v =>
          looks_pure _)
  | ask a => exact along_asStep (tidy_answer a)
  | change c => exact along_asStep (tidy_change c)

end Steps

end TileGrid.Script
