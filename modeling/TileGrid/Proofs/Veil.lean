import TileGrid.Proofs.Reports

/-!
# Drivers and traces out of sight

A `Veil` lists drivers and traces. `Overlooks v x` says that the action `x` has
no access to them: from states that differ behind the veil only it does the
same, and it changes nothing behind the veil. Runs on drivers in sight and
kernels have none if their bodies have none. Runs on two drivers behind the veil
come to the same, if their bodies have no access to it and the settings of the
drivers are the same (`inStep_runOver`).
-/

namespace TileGrid

/-- The results are the same value or the same fault, and their
states are related. -/
inductive Paired {ε σ α : Type} (R : σ → σ → Prop) :
    EStateM.Result ε σ α → EStateM.Result ε σ α → Prop
  | ok {a : α} {s t : σ} (hs : R s t) : Paired R (.ok a s) (.ok a t)
  | error {e : ε} {s t : σ} (hs : R s t) : Paired R (.error e s) (.error e t)

section

variable {ε σ α : Type} {R : σ → σ → Prop} {Q : (Bool → σ) → Prop}

theorem Paired.state {r r' : EStateM.Result ε σ α} (h : Paired R r r') :
    R r.state r'.state := by
  cases h with
  | ok hs => exact hs
  | error hs => exact hs

theorem Paired.inStep {r : Bool → EStateM.Result ε σ α}
    (h : Paired R (r true) (r false)) (hQ : Q fun i => (r i).state) :
    InStep Q r := by
  generalize ht : r true = r₁ at h
  generalize hf : r false = r₂ at h
  cases h with
  | @ok a s t hs =>
      refine .ok a _ (fun i => ?_) hQ
      cases i with
      | true => rw [ht]; rfl
      | false => rw [hf]; rfl
  | @error e s t hs =>
      refine .error e _ (fun i => ?_) hQ
      cases i with
      | true => rw [ht]; rfl
      | false => rw [hf]; rfl

theorem InStep.state {r : Bool → EStateM.Result ε σ α} (h : InStep Q r) :
    Q fun i => (r i).state := by
  rcases h with ⟨a, s, hr, hs⟩ | ⟨e, s, hr, hs⟩
  · have hstates : (fun i => (r i).state) = s := funext fun i => by rw [hr]; rfl
    rwa [hstates]
  · have hstates : (fun i => (r i).state) = s := funext fun i => by rw [hr]; rfl
    rwa [hstates]

theorem InStep.paired {r : Bool → EStateM.Result ε σ α} (h : InStep Q r)
    (hQ : ∀ s, Q s → R (s true) (s false)) : Paired R (r true) (r false) := by
  rcases h with ⟨a, s, hr, hs⟩ | ⟨e, s, hr, hs⟩
  · rw [hr, hr]
    exact .ok (hQ s hs)
  · rw [hr, hr]
    exact .error (hQ s hs)

end

namespace Host

variable {ν : Type}

/-! ## What an event changes -/

theorem recorders_emit (h : Host ν) (id : Nat) (e : Event) :
    (h.emit id e).recorders =
      if (h.driver id).settings.trace then
        h.recorders.modify (h.driver id).recorder (·.push (.event e))
      else h.recorders := by
  unfold emit
  dsimp only
  cases (h.driver id).settings.trace <;>
    cases (h.driver id).settings.log <;> rfl

theorem size_recorders_emit (h : Host ν) (id : Nat) (e : Event) :
    (h.emit id e).recorders.size = h.recorders.size := by
  rw [recorders_emit]
  split <;> simp

theorem getElem?_recorders_emit (h : Host ν) (id : Nat) (e : Event) (r : Nat) :
    (h.emit id e).recorders[r]? =
      if (h.driver id).settings.trace ∧ (h.driver id).recorder = r then
        h.recorders[r]?.map (·.push (.event e))
      else h.recorders[r]? := by
  rw [recorders_emit]
  by_cases htrace : (h.driver id).settings.trace = true
  · simp [htrace, Array.getElem?_modify]
  · simp [htrace]

theorem getElem?_recorders_emit_of_ne {h : Host ν} {id r : Nat}
    (hne : (h.driver id).recorder ≠ r) (e : Event) :
    (h.emit id e).recorders[r]? = h.recorders[r]? := by
  rw [getElem?_recorders_emit, if_neg fun hboth => hne hboth.2]

theorem entries_emit {h : Host ν} {id : Nat}
    (hlt : (h.driver id).recorder < h.recorders.size) (e : Event) :
    (h.emit id e).entries (h.driver id).recorder =
      h.entries (h.driver id).recorder ++
        ((h.driver id).settings.kept [e]).toArray := by
  have htrace := (Reported.emit h e).trace _ (Array.getElem?_eq_getElem hlt)
  simp [entries, htrace, hlt]

/-! ## Out of sight -/

/-- Drivers and traces that are out of sight. -/
structure Veil where
  drivers : List Nat
  traces : List Nat

namespace Veil

/-- The drivers and traces are there, and no other driver records to
these traces. -/
structure Covers (v : Veil) (h : Host ν) : Prop where
  wired : ∀ i < h.drivers.size, (h.driver i).recorder < h.recorders.size
  made : ∀ i ∈ v.drivers, i < h.drivers.size
  kept : ∀ r ∈ v.traces, r < h.recorders.size
  own : ∀ i < h.drivers.size, i ∉ v.drivers → (h.driver i).recorder ∉ v.traces

/-- The states are the same but for what is behind the veil. -/
structure Same (v : Veil) (h h' : Host ν) : Prop where
  covers : v.Covers h
  covers' : v.Covers h'
  storages : h.storages = h'.storages
  console : h.console = h'.console
  warnings : h.warnings = h'.warnings
  environment : h.environment = h'.environment
  caller : h.caller = h'.caller
  size_drivers : h.drivers.size = h'.drivers.size
  drivers : ∀ i ∉ v.drivers, h.driver i = h'.driver i
  size_recorders : h.recorders.size = h'.recorders.size
  recorders : ∀ r ∉ v.traces, h.recorders[r]? = h'.recorders[r]?

/-- What is behind the veil is as it was. -/
structure Keeps (v : Veil) (h h' : Host ν) : Prop where
  drivers : ∀ i ∈ v.drivers, h'.driver i = h.driver i
  recorders : ∀ r ∈ v.traces, h'.recorders[r]? = h.recorders[r]?

variable {v : Veil} {h h' h₁ : Host ν}

theorem Same.refl (hc : v.Covers h) : v.Same h h :=
  ⟨hc, hc, rfl, rfl, rfl, rfl, rfl, rfl, fun _ _ => rfl, rfl, fun _ _ => rfl⟩

theorem Same.covers_at {s : Bool → Host ν} (hs : v.Same (s true) (s false))
    (i : Bool) :
    v.Covers (s i) := by
  cases i with
  | true => exact hs.covers
  | false => exact hs.covers'

theorem Same.wording {s : Bool → Host ν} (hs : v.Same (s true) (s false))
    (i : Bool) :
    (s i).environment.wording = (s true).environment.wording := by
  cases i with
  | true => rfl
  | false => rw [hs.environment]

theorem Keeps.refl (h : Host ν) : v.Keeps h h :=
  ⟨fun _ _ => rfl, fun _ _ => rfl⟩

theorem Keeps.trans (ha : v.Keeps h h₁) (hb : v.Keeps h₁ h') :
    v.Keeps h h' where
  drivers := fun i hi => (hb.drivers i hi).trans (ha.drivers i hi)
  recorders := fun r hr => (hb.recorders r hr).trans (ha.recorders r hr)

theorem Covers.emit (hc : v.Covers h) (id : Nat) (e : Event) :
    v.Covers (h.emit id e) := by
  constructor
  · simpa [size_recorders_emit] using hc.wired
  · simpa using hc.made
  · simpa [size_recorders_emit] using hc.kept
  · simpa using hc.own

theorem Covers.setPhase (hc : v.Covers h) (id : Nat) (phase : Phase) :
    v.Covers (h.setPhase id phase) := by
  have hsize : (h.setPhase id phase).drivers.size = h.drivers.size := by
    simp [Host.setPhase]
  constructor
  · intro i hi
    rw [recorder_setPhase]
    exact hc.wired i (hsize ▸ hi)
  · simpa [hsize] using hc.made
  · exact hc.kept
  · intro i hi hout
    rw [recorder_setPhase]
    exact hc.own i (hsize ▸ hi) hout

theorem Covers.warnRejected (hc : v.Covers h) (tile : Index)
    (rejection : Option Fault) :
    v.Covers (h.warnRejected tile rejection) := by
  cases rejection <;> exact ⟨hc.wired, hc.made, hc.kept, hc.own⟩

theorem Same.emit {id id' : Nat} {e : Event} (hs : v.Same h h')
    (hsettings : (h.driver id).settings = (h'.driver id').settings)
    (hrecorders : ∀ r ∉ v.traces, (h.emit id e).recorders[r]? =
      (h'.emit id' e).recorders[r]?) :
    v.Same (h.emit id e) (h'.emit id' e) := by
  have ha := agree_emit h id e
  have ha' := agree_emit h' id' e
  have hconsole : (h.emit id e).console = (h'.emit id' e).console := by
    apply Array.toList_inj.mp
    rw [(Reported.emit h e).console, (Reported.emit h' e).console, hs.console,
      hsettings]
  constructor
  · exact hs.covers.emit id e
  · exact hs.covers'.emit id' e
  · rw [← ha.storages, hs.storages, ha'.storages]
  · exact hconsole
  · rw [← ha.warnings, hs.warnings, ha'.warnings]
  · rw [← ha.environment, hs.environment, ha'.environment]
  · rw [← ha.caller, hs.caller, ha'.caller]
  · simpa using hs.size_drivers
  · simpa using hs.drivers
  · rw [size_recorders_emit, size_recorders_emit, hs.size_recorders]
  · exact hrecorders

theorem Same.setPhase {id id' : Nat} {phase : Phase} (hs : v.Same h h')
    (hdrivers : ∀ i ∉ v.drivers, (h.setPhase id phase).driver i =
      (h'.setPhase id' phase).driver i) :
    v.Same (h.setPhase id phase) (h'.setPhase id' phase) where
  covers := hs.covers.setPhase id phase
  covers' := hs.covers'.setPhase id' phase
  storages := hs.storages
  console := hs.console
  warnings := hs.warnings
  environment := hs.environment
  caller := hs.caller
  size_drivers := by simpa [Host.setPhase] using hs.size_drivers
  drivers := hdrivers
  size_recorders := hs.size_recorders
  recorders := hs.recorders

theorem Same.warnRejected (hs : v.Same h h') (tile : Index)
    (rejection : Option Fault) :
    v.Same (h.warnRejected tile rejection)
      (h'.warnRejected tile rejection) := by
  have hc := hs.covers.warnRejected tile rejection
  have hc' := hs.covers'.warnRejected tile rejection
  cases rejection with
  | none => exact hs
  | some reason =>
      have hwarnings : (h.warnRejected tile (some reason)).warnings =
          (h'.warnRejected tile (some reason)).warnings := by
        simp only [Host.warnRejected, warn, describe, hs.warnings,
          hs.environment]
      exact ⟨hc, hc', hs.storages, hs.console, hwarnings, hs.environment,
        hs.caller, hs.size_drivers, hs.drivers, hs.size_recorders, hs.recorders⟩

end Veil

/-- The action has no access to what is behind the veil. -/
structure Overlooks {α : Type} (v : Veil) (x : Act ν α) : Prop where
  same : ∀ {h h'}, v.Same h h' → Paired v.Same (x h) (x h')
  keeps : ∀ {h}, v.Covers h → v.Keeps h (x h).state

namespace Overlooks

variable {v : Veil} {α β : Type}

/-- Two states at once, of which something is known that changes behind the
veil alone decide. -/
theorem inStep {x : Act ν α} (hx : Overlooks v x) {P : Bool → Host ν → Prop}
    {s : Bool → Host ν} (hs : v.Same (s true) (s false))
    (hP : ∀ i t, v.Keeps (s i) t → P i t) :
    InStep (fun t => v.Same (t true) (t false) ∧ ∀ i, P i (t i)) fun i =>
      x (s i) := by
  have hpair := hx.same hs
  exact hpair.inStep ⟨hpair.state, fun i => hP i _ (hx.keeps (hs.covers_at i))⟩

theorem pure (a : α) : Overlooks v (pure a : Act ν α) :=
  ⟨fun hs => .ok hs, fun _ => .refl _⟩

theorem throw (f : Fault) : Overlooks v (throw f : Act ν α) :=
  ⟨fun hs => .error hs, fun _ => .refl _⟩

theorem modifyCaller (f : ν → ν) (a : α) :
    Overlooks v (fun h => .ok a { h with caller := f h.caller } : Act ν α) := by
  constructor
  · intro h h' hs
    refine .ok ⟨?_, ?_, hs.storages, hs.console, hs.warnings, hs.environment,
      congrArg f hs.caller, hs.size_drivers, hs.drivers, hs.size_recorders,
      hs.recorders⟩
    · exact ⟨hs.covers.wired, hs.covers.made, hs.covers.kept, hs.covers.own⟩
    · exact ⟨hs.covers'.wired, hs.covers'.made, hs.covers'.kept, hs.covers'.own⟩
  · intro h hc
    exact ⟨fun _ _ => rfl, fun _ _ => rfl⟩

theorem bind {x : Act ν α} {k : α → Act ν β} (hx : Overlooks v x)
    (hk : ∀ a h h', v.Covers h → x h = .ok a h' → Overlooks v (k a)) :
    Overlooks v (x >>= k) := by
  constructor
  · intro h h' hs
    have hfirst := hx.same hs
    show Paired v.Same (EStateM.bind x k h) (EStateM.bind x k h')
    unfold EStateM.bind
    generalize hr : x h = r at hfirst
    generalize x h' = r' at hfirst
    cases hfirst with
    | ok hs₁ => exact (hk _ _ _ hs.covers hr).same hs₁
    | error hs₁ => exact .error hs₁
  · intro h hc
    have hafter := (hx.same (.refl hc)).state.covers
    have hfirst := hx.keeps hc
    show v.Keeps h (EStateM.bind x k h).state
    unfold EStateM.bind
    cases hr : x h with
    | ok a h₁ =>
        rw [hr] at hafter hfirst
        exact hfirst.trans ((hk a h h₁ hc hr).keeps hafter)
    | error f h₁ =>
        rw [hr] at hfirst
        exact hfirst

end Overlooks

/-! ## Runs behind the veil -/

/-- The driver is in the phase, and otherwise as it was in `h`, and its trace
holds the events after what it held there, if its driver records them. -/
structure Extended (id : Nat) (phase : Phase) (h : Host ν) (es : List Event)
    (s : Host ν) : Prop where
  driver : s.driver id = { h.driver id with phase }
  trace : s.entries (h.driver id).recorder =
    h.entries (h.driver id).recorder ++ ((h.driver id).settings.kept es).toArray

namespace Extended

variable {id : Nat} {phase : Phase} {h s t : Host ν} {es : List Event}

theorem refl (hphase : (h.driver id).phase = phase) :
    Extended id phase h [] h := by
  constructor
  · rw [← hphase]
  · simp [Settings.kept]

theorem setPhase (he : Extended id phase h es s) (hid : id < s.drivers.size)
    (next : Phase) :
    Extended id next h es (s.setPhase id next) := by
  constructor
  · rw [driver_setPhase hid, he.driver]
  · exact he.trace

theorem emit (he : Extended id phase h es s)
    (hlt : (h.driver id).recorder < s.recorders.size) (e : Event) :
    Extended id phase h (es ++ [e]) (s.emit id e) := by
  constructor
  · rw [driver_emit, he.driver]
  · have hrecorder : (s.driver id).recorder = (h.driver id).recorder := by
      rw [he.driver]
    have htrace := entries_emit (hrecorder ▸ hlt) e
    rw [he.driver] at htrace
    rw [htrace, he.trace, Settings.kept_append]
    simp

theorem warnRejected (he : Extended id phase h es s) (tile : Index)
    (rejection : Option Fault) :
    Extended id phase h es (s.warnRejected tile rejection) := by
  cases rejection <;> exact ⟨he.driver, he.trace⟩

theorem of_keeps {v : Veil} (he : Extended id phase h es s) (hk : v.Keeps s t)
    (hid : id ∈ v.drivers) (hr : (h.driver id).recorder ∈ v.traces) :
    Extended id phase h es t := by
  constructor
  · rw [hk.drivers id hid, he.driver]
  · rw [entries, Array.getD_eq_getD_getElem?, hk.recorders _ hr,
      ← Array.getD_eq_getD_getElem?]
    exact he.trace

end Extended

section

variable {v : Veil} {given current : Act ν Launch}
  {body : Tile → Act ν Completion}
  (hlooks : Looks given) (hgiven : Overlooks v given)
  (hcurrent : Overlooks v current)
  (hbody : ∀ t, Overlooks v (body t))

include hlooks hgiven hcurrent hbody

/-- **Runs on drivers behind the veil** that have the same settings come to the
same, and add the same events to their traces. -/
theorem inStep_runOver (id : Bool → Nat) (h : Bool → Host ν)
    (hs : v.Same (h true) (h false)) (hid : ∀ i, id i ∈ v.drivers)
    (hr : ∀ i, ((h i).driver (id i)).recorder ∈ v.traces)
    (hidle : ∀ i, ((h i).driver (id i)).phase = .idle)
    (hsettings : ((h true).driver (id true)).settings =
      ((h false).driver (id false)).settings) :
    ∃ es, InStep (fun s => v.Same (s true) (s false) ∧ ∀ i,
      Extended (id i) .idle (h i) es (s i))
      fun i => runOver (id i) given current body (h i) := by
  have hlt : ∀ {s : Bool → Host ν}, v.Same (s true) (s false) →
      ∀ i, id i < (s i).drivers.size :=
    fun hs i => (hs.covers_at i).made _ (hid i)
  have hphase : ∀ {s : Bool → Host ν} {phase : Phase},
      v.Same (s true) (s false) →
      v.Same ((s true).setPhase (id true) phase)
        ((s false).setPhase (id false) phase) := by
    intro s phase hs
    refine hs.setPhase fun i hi => ?_
    rw [driver_setPhase_of_ne _ (by rintro rfl; exact hi (hid true)),
      driver_setPhase_of_ne _ (by rintro rfl; exact hi (hid false)),
      hs.drivers i hi]
  apply sideBySide_runOver
    (R := fun es s => v.Same (s true) (s false) ∧ ∀ i,
      Extended (id i) .running (h i) es (s i))
  · rintro es s ⟨hs, -⟩
    exact ⟨_, hs.wording⟩
  · exact ⟨.idle, hidle⟩
  · exact (hgiven.same hs).inStep (funext fun i => hlooks (h i))
  · exact ⟨hs, fun i => .refl (hidle i)⟩
  · intro _
    exact ⟨hphase hs,
      fun i => (Extended.refl (hidle i)).setPhase (hlt hs i) .running⟩
  · rintro es s ⟨hs, he⟩
    exact ⟨hphase hs, fun i => (he i).setPhase (hlt hs i) .idle⟩
  · rintro es s ⟨hs, he⟩ e
    have hrecorder : ∀ i, ((s i).driver (id i)).recorder ∈ v.traces := by
      intro i
      rw [(he i).driver]
      exact hr i
    have hsame : ((s true).driver (id true)).settings =
        ((s false).driver (id false)).settings := by
      rw [(he true).driver, (he false).driver, hsettings]
    refine ⟨hs.emit hsame fun r hout => ?_, fun i => (he i).emit ?_ e⟩
    · have hne : ∀ i, ((s i).driver (id i)).recorder ≠ r := by
        rintro i rfl
        exact hout (hrecorder i)
      rw [getElem?_recorders_emit_of_ne (hne true),
        getElem?_recorders_emit_of_ne (hne false), hs.recorders r hout]
    · exact (hs.covers_at i).kept _ (hr i)
  · rintro es s ⟨hs, he⟩ tile rejection
    exact ⟨hs.warnRejected tile rejection,
      fun i => (he i).warnRejected tile rejection⟩
  · rintro es s ⟨hs, he⟩
    exact hcurrent.inStep hs fun i t hk => (he i).of_keeps hk (hid i) (hr i)
  · rintro t es s ⟨hs, he⟩
    exact (hbody t).inStep hs fun i t hk => (he i).of_keeps hk (hid i) (hr i)

end

/-! ## Runs in sight -/

namespace Veil

variable {v : Veil} {h h' : Host ν} {id : Nat}

/-- An event of a driver in sight goes nowhere behind the veil. -/
theorem Keeps.emit (hc : v.Covers h) (hid : id ∉ v.drivers) (e : Event) :
    v.Keeps h (h.emit id e) := by
  refine ⟨fun i _ => driver_emit h id i e, fun r hr => ?_⟩
  rw [getElem?_recorders_emit, if_neg]
  rintro ⟨htrace, rfl⟩
  by_cases hlt : id < h.drivers.size
  · exact hc.own id hlt hid hr
  · rw [driver_of_size_le (Nat.le_of_not_lt hlt)] at htrace
    cases htrace

theorem Keeps.setPhase (h : Host ν) (hid : id ∉ v.drivers) (phase : Phase) :
    v.Keeps h (h.setPhase id phase) := by
  refine ⟨fun i hi => driver_setPhase_of_ne h ?_ phase, fun _ _ => rfl⟩
  rintro rfl
  exact hid hi

theorem Keeps.warnRejected (h : Host ν) (tile : Index)
    (rejection : Option Fault) :
    v.Keeps h (h.warnRejected tile rejection) := by
  cases rejection <;> exact ⟨fun _ _ => rfl, fun _ _ => rfl⟩

theorem Same.emit_shown (hs : v.Same h h') (hid : id ∉ v.drivers) (e : Event) :
    v.Same (h.emit id e) (h'.emit id e) := by
  have hdriver := hs.drivers id hid
  refine hs.emit (congrArg Driver.settings hdriver) fun r hr => ?_
  rw [getElem?_recorders_emit, getElem?_recorders_emit, hdriver,
    hs.recorders r hr]

theorem Same.setPhase_shown (hs : v.Same h h') (id : Nat) (phase : Phase) :
    v.Same (h.setPhase id phase) (h'.setPhase id phase) := by
  refine hs.setPhase fun i hi => ?_
  rw [driver_setPhase_eq, driver_setPhase_eq, hs.drivers i hi, hs.size_drivers]

end Veil

namespace Overlooks

variable {v : Veil}

/-- **A run on a driver in sight has no access to what is behind the veil**, if
its body has none. -/
theorem runOver {given current : Act ν Launch} {body : Tile → Act ν Completion}
    (hlooks : Looks given) (hgiven : Overlooks v given)
    (hcurrent : Overlooks v current) (hbody : ∀ t, Overlooks v (body t))
    {id : Nat} (hid : id ∉ v.drivers) :
    Overlooks v (runOver id given current body) := by
  have hruns : ∀ {h : Bool → Host ν}, v.Same (h true) (h false) →
      ∃ es : List Event, InStep
        (fun s => v.Same (s true) (s false) ∧ ∀ i, v.Keeps (h i) (s i))
        fun i => Host.runOver id given current body (h i) := by
    intro h hs
    have hphase : ∀ i, ((h i).driver id).phase =
        ((h true).driver id).phase := by
      intro i
      cases i with
      | true => rfl
      | false => rw [hs.drivers id hid]
    apply sideBySide_runOver
      (R := fun _ s => v.Same (s true) (s false) ∧ ∀ i, v.Keeps (h i) (s i))
    · rintro es s ⟨hs, -⟩
      exact ⟨_, hs.wording⟩
    · exact ⟨_, hphase⟩
    · exact (hgiven.same hs).inStep (funext fun i => hlooks (h i))
    · exact ⟨hs, fun i => .refl (h i)⟩
    · intro _
      exact ⟨hs.setPhase_shown id .running,
        fun i => .setPhase (h i) hid .running⟩
    · rintro es s ⟨hs, hk⟩
      exact ⟨hs.setPhase_shown id .idle,
        fun i => (hk i).trans (.setPhase (s i) hid .idle)⟩
    · rintro es s ⟨hs, hk⟩ e
      exact ⟨hs.emit_shown hid e,
        fun i => (hk i).trans (.emit (hs.covers_at i) hid e)⟩
    · rintro es s ⟨hs, hk⟩ tile rejection
      exact ⟨hs.warnRejected tile rejection,
        fun i => (hk i).trans (.warnRejected (s i) tile rejection)⟩
    · rintro es s ⟨hs, hk⟩
      exact hcurrent.inStep hs fun i t hkept => (hk i).trans hkept
    · rintro t es s ⟨hs, hk⟩
      exact (hbody t).inStep hs fun i t hkept => (hk i).trans hkept
  constructor
  · intro h h' hs
    obtain ⟨-, hstep⟩ := hruns (h := fun i => bif i then h else h') hs
    exact hstep.paired fun s hs => hs.1
  · intro h hc
    obtain ⟨-, hstep⟩ := hruns (h := fun _ => h) (.refl hc)
    exact hstep.state.2 true

end Overlooks

/-! ## New drivers -/

namespace Veil

variable {v : Veil} {h h' : Host ν}

theorem Covers.withDriver (hc : v.Covers h) (o : Options) :
    v.Covers (h.withDriver o) := by
  have hsize : (h.withDriver o).recorders.size = h.recorders.size + 1 := by
    simp [Host.withDriver]
  have hcount : (h.withDriver o).drivers.size = h.drivers.size + 1 := by
    simp [Host.withDriver]
  constructor
  · intro i hi
    rw [driver_withDriver_eq, hsize]
    split
    · exact Nat.lt_succ_self _
    · have hlt := hc.wired i (by omega)
      omega
  · intro i hi
    have hlt := hc.made i hi
    omega
  · intro r hr
    have hlt := hc.kept r hr
    omega
  · intro i hi hout
    rw [driver_withDriver_eq]
    split
    · intro hr
      exact Nat.lt_irrefl _ (hc.kept _ hr)
    · exact hc.own i (by omega) hout

theorem Keeps.withDriver (hc : v.Covers h) (o : Options) :
    v.Keeps h (h.withDriver o) := by
  constructor
  · intro i hi
    rw [driver_withDriver_eq, if_neg (Nat.ne_of_lt (hc.made i hi))]
  · intro r hr
    simp [Host.withDriver, Array.getElem?_push, Nat.ne_of_lt (hc.kept r hr)]

theorem Same.withDriver (hs : v.Same h h') (o : Options) :
    v.Same (h.withDriver o) (h'.withDriver o) where
  covers := hs.covers.withDriver o
  covers' := hs.covers'.withDriver o
  storages := hs.storages
  console := hs.console
  warnings := hs.warnings
  environment := hs.environment
  caller := hs.caller
  size_drivers := by simp [Host.withDriver, hs.size_drivers]
  drivers := by
    intro i hi
    rw [driver_withDriver_eq, driver_withDriver_eq, hs.size_drivers,
      hs.size_recorders, hs.environment, hs.drivers i hi]
  size_recorders := by simp [Host.withDriver, hs.size_recorders]
  recorders := by
    intro r hr
    simp [Host.withDriver, Array.getElem?_push, hs.size_recorders,
      hs.recorders r hr]

end Veil

namespace Overlooks

variable {v : Veil}

theorem newDriver (o : Options) : Overlooks v (newDriver o : Act ν Nat) := by
  constructor
  · intro h h' hs
    rw [newDriver_eq, newDriver_eq, hs.size_drivers]
    exact .ok (hs.withDriver o)
  · intro h hc
    exact .withDriver hc o

/-- **A kernel has no access to what is behind the veil**, if its body
has none. -/
theorem launchOver {given current : Act ν Launch}
    {body : Tile → Act ν Completion} (hlooks : Looks given)
    (hgiven : Overlooks v given) (hcurrent : Overlooks v current)
    (hbody : ∀ t, Overlooks v (body t)) (o : Options) :
    Overlooks v (launchOver o given current body) := by
  refine (Overlooks.newDriver o).bind fun id h h' hc hnew => ?_
  cases hnew
  -- the new driver was not there to be covered
  exact .runOver hlooks hgiven hcurrent hbody fun hid =>
    Nat.lt_irrefl _ (hc.made _ hid)

end Overlooks

/-! ## The calls of a body -/

/-- The action beside notes, which it leaves as they are. -/
def beside {α : Type} (x : Act ν α) : Act (ν × List Tile) α :=
  notebook.edit (fun notes => notes) x

theorem looks_beside {α : Type} {x : Act ν α} (hx : Looks x) :
    Looks (beside x) := by
  intro h
  have hsame := hx (notebook.state h)
  unfold beside Notebook.edit
  cases hr : x (notebook.state h) with
  | ok a h' =>
      rw [hr] at hsame
      obtain rfl : h' = _ := hsame
      rfl
  | error f h' =>
      rw [hr] at hsame
      obtain rfl : h' = _ := hsame
      rfl

section

variable {v : Veil} {h h' : Host ν} {μ : Type}

theorem Veil.Covers.withCaller (hc : v.Covers h) (c : μ) :
    v.Covers (h.withCaller c) :=
  ⟨hc.wired, hc.made, hc.kept, hc.own⟩

theorem Veil.Same.withCaller (hs : v.Same h h') (c : μ) :
    v.Same (h.withCaller c) (h'.withCaller c) :=
  ⟨hs.covers.withCaller c, hs.covers'.withCaller c, hs.storages, hs.console,
    hs.warnings, hs.environment, rfl, hs.size_drivers, hs.drivers,
    hs.size_recorders, hs.recorders⟩

theorem Veil.Same.withNotes (hs : v.Same h h') (notes : List Tile) :
    v.Same (h.withNotes notes) (h'.withNotes notes) := by
  unfold Host.withNotes
  rw [hs.caller]
  exact hs.withCaller _

theorem Overlooks.edit {α : Type} {x : Act ν α} (hx : Overlooks v x)
    (change : List Tile → List Tile) :
    Overlooks v (notebook.edit change x) := by
  constructor
  · intro h h' hs
    have hpair := hx.same (hs.withCaller h.caller.1)
    unfold Notebook.edit notebook
    dsimp only
    rw [← hs.caller]
    generalize x (h.withCaller h.caller.1) = r at hpair
    generalize x (h'.withCaller h.caller.1) = r' at hpair
    cases hpair with
    | ok hs' => exact .ok (hs'.withNotes _)
    | error hs' => exact .error (hs'.withNotes _)
  · intro h hc
    have hkept := hx.keeps (hc.withCaller h.caller.1)
    unfold Notebook.edit notebook
    dsimp only
    cases hr : x (h.withCaller h.caller.1) with
    | ok a h' =>
        rw [hr] at hkept
        exact ⟨hkept.drivers, hkept.recorders⟩
    | error f h' =>
        rw [hr] at hkept
        exact ⟨hkept.drivers, hkept.recorders⟩

end

end Host

end TileGrid
