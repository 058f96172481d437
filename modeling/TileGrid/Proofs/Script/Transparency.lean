import TileGrid.Proofs.Script.AlikePrograms
import TileGrid.Proofs.Wording

/-!
# Tracing and logging change nothing else

Two executions that differ only in the options of drivers and kernels and in the
environment answer the same and leave the same, but for the traces and settings
that they show. The events of a run are the same in both, and each execution
prints and records them as the settings of its driver say: what the run prints
is the rendering of what it records.
-/

namespace TileGrid.Script

open State

/-! ## Runs that are about to start -/

/-- A run that is about to start: its driver, the two lists of its launch, and
its body with the arguments that are bound in it. -/
structure Start where
  driver : Nat
  domain : Item
  tile : Item
  params : List String
  args : List Object
  body : Steps

namespace Start

/-- What the run calls for each tile. -/
def calls (r : Start) : Tile → Act Scope Completion :=
  tileBody r.domain r.tile r.params r.args r.body

def runWith (r : Start) (calls : Tile → Act Scope Completion) :
    Act Scope Unit :=
  Host.runOver r.driver (readLaunch r.domain r.tile)
    (readNumbers r.domain r.tile) calls

def run (r : Start) : Act Scope Unit := r.runWith r.calls

/-- The run by itself: what each call prints and adds to the driver's
trace is taken back. -/
def alone (r : Start) : Act Scope Unit :=
  r.runWith (Host.muted r.driver r.calls)

end Start

/-- What the next step of a program does up to where its run starts, if
it has one, and what follows it. `call` is what launches do with the
body of a kernel. -/
def Program.starts? (call : Program → Steps) :
    Program → Option (Act Scope Start × Program)
  | run driver domain tile params args body rest => some (do
      let (id, domain, tile, args) ← runInputs driver domain tile args
      return ⟨id, domain, tile, params, args, body.exec call false⟩, rest)
  | launch name l args rest => some (do
      let (k, domain, tile, args) ← launchInputs name l args
      let id ← Host.newDriver k.options
      return ⟨id, domain, tile, k.params, args, call k.body⟩, rest)
  | _ => none

/-- The step is the run, of which what the bodies answer is gathered. -/
theorem Program.first?_of_starts {call : Program → Steps} {p rest : Program}
    {act : Act Scope Start} (hp : p.starts? call = some (act, rest)) :
    p.first? call = some (collectTiles (act >>= Start.run), rest) := by
  cases p with
  | run driver domain tile params args body rest =>
      cases hp
      show some (runOn driver domain tile params args (body.exec call false),
          rest) = _
      rw [runOn_eq]
      simp only [bind_assoc, pure_bind]
      rfl
  | launch name l args rest =>
      cases hp
      show some (launchKernel call name l args, rest) = _
      rw [launchKernel_eq]
      simp only [bind_assoc, pure_bind]
      rfl
  | _ => cases hp

/-! ## What bodies say is taken back -/

section Muted

theorem State.bare_takeBack (id : Nat) (h h' : State) :
    State.bare (Host.takeBack id h h') = h'.bare := by
  have hsame : (h'.recorders.setIfInBounds (h.driver id).recorder
      (h.entries (h.driver id).recorder)).map (fun _ => (#[] : Array Entry)) =
      h'.recorders.map fun _ => #[] := by
    simp [Array.map_const']
  show ({ h'.bare with
      recorders := (h'.recorders.setIfInBounds (h.driver id).recorder
    (h.entries (h.driver id).recorder)).map fun _ => #[] } : State) = _
  rw [hsame]
  rfl

/-- Muting a body changes nothing else. -/
theorem alike_muted (driver : Nat) {body body' : Tile → Act Scope Completion}
    {t : Tile} (h : Alike id id (body t) (body' t)) :
    Alike id id (Host.muted driver body t) (body' t) := by
  intro h₁ h₂ hh
  have hsame := h h₁ h₂ hh
  unfold Host.muted
  generalize body t h₁ = r₁ at hsame
  generalize body' t h₂ = r₂ at hsame
  cases hsame with
  | ok hv hs => exact .ok hv ((State.bare_takeBack driver h₁ _).trans hs)
  | error hw hs => exact .error hw ((State.bare_takeBack driver h₁ _).trans hs)

theorem alike_spoken (driver : Nat) {body body' : Tile → Act Scope Completion}
    {t : Tile} (h : Alike id id (body t) (body' t)) (aloud aloud' : Bool) :
    Alike id id (Host.spoken driver body aloud t)
      (Host.spoken driver body' aloud' t) := by
  have hfirst : Alike id id (Host.spoken driver body aloud t) (body' t) := by
    cases aloud with
    | true => exact h
    | false => exact alike_muted driver h
  cases aloud' with
  | true => exact hfirst
  | false => exact (alike_muted driver hfirst.symm).symm

/-- With a call taken back, the state is still a later one. -/
theorem Grows.takeBack {h h' : State} (hg : Grows h h') (id : Nat) :
    Grows h (Host.takeBack id h h') where
  size_le := hg.size_le
  driver_eq := hg.driver_eq
  new_idle := hg.new_idle
  outlasts := ⟨by simpa [Host.takeBack] using hg.outlasts.1, List.prefix_rfl⟩
  housed := hg.housed
  wired := by
    intro hw n hn
    show (h'.driver n).recorder < (h'.recorders.setIfInBounds _ _).size
    rw [Array.size_setIfInBounds]
    exact hg.wired hw n hn

theorem Grows.spoken {h : State} {body : Tile → Act Scope Completion} {t : Tile}
    (hg : Grows h (body t h).state) (id : Nat) (aloud : Bool) :
    Grows h (Host.spoken id body aloud t h).state := by
  cases aloud with
  | true => exact hg
  | false =>
      show Grows h (Host.muted id body t h).state
      unfold Host.muted
      cases hr : body t h with
      | ok c h' =>
          rw [hr] at hg
          exact hg.takeBack id
      | error f h' =>
          rw [hr] at hg
          exact hg.takeBack id

end Muted

/-! ## What a run tells -/

/-- What a run tells of its events. -/
structure Start.Tells (r : Start) (h : State) (own : List Event) : Prop where
  /-- By itself it prints their lines if its driver logs, and nothing else. -/
  printed : (r.alone h).state.console.toList =
    h.console.toList ++ (h.driver r.driver).settings.lines own
  /-- Each line shows its event with all of its fields. -/
  shown : List.Forall₂ Event.Shows own (own.map Event.line)
  /-- By itself it records them if its driver traces, and nothing else. -/
  recorded : ((r.alone h).state.entries (h.driver r.driver).recorder).toList =
    (h.entries (h.driver r.driver).recorder).toList ++
      (h.driver r.driver).settings.kept own
  /-- With what its body prints, the lines are there in the same order. -/
  heard : Host.Heard r.driver own h (r.run h).state
  /-- What its body prints and records makes no other difference. -/
  same : Same id id (r.run h) (r.alone h)

/-- The run is on a driver that was made, as were those among its arguments. -/
structure Start.Ready (r : Start) (h : State) : Prop where
  housed : State.Housed h
  wired : State.Wired h
  driver_lt : r.driver < h.drivers.size
  args_below : ∀ o ∈ r.args, o.Below h.drivers.size
  body_tidy : TidySteps r.body

/-- The run is under way, and has told these events so far. -/
structure Start.Underway (r : Start) (h : State) (aloud : Bool)
    (es : List Event) (s : State) :
    Prop where
  later : Grows (h.setPhase r.driver .running) s
  housed : State.Housed s
  told : Host.Told r.driver es h s aloud

namespace Start.Underway

variable {r : Start} {h s : State} {aloud : Bool} {es : List Event}

theorem enter (hr : r.Ready h) :
    r.Underway h aloud [] (h.setPhase r.driver .running) where
  later := .refl _
  housed := by simpa [State.Housed, State.Below, Host.setPhase] using hr.housed
  told := (Host.Told.refl h).setPhase .running

/-- The driver is there, with the settings that it started with. -/
theorem settings (hs : r.Underway h aloud es s) (hr : r.Ready h) :
    r.driver < s.drivers.size ∧
      (s.driver r.driver).settings = (h.driver r.driver).settings := by
  have hlt : r.driver < (h.setPhase r.driver .running).drivers.size := by
    simpa [Host.setPhase] using hr.driver_lt
  refine ⟨hlt.trans_le hs.later.size_le, ?_⟩
  rw [hs.later.driver_eq r.driver hlt, Host.driver_setPhase hr.driver_lt]

theorem emit (hs : r.Underway h aloud es s) (hr : r.Ready h) (e : Event) :
    r.Underway h aloud (es ++ [e]) (s.emit r.driver e) := by
  have hlater := Host.later_emit ignoresReports_grows s r.driver e
  exact ⟨hs.later.trans hlater, hlater.housed hs.housed,
    hs.told.emit (hs.settings hr).2 e⟩

theorem warnRejected (hs : r.Underway h aloud es s) (tile : Index)
    (rejection : Option Fault) :
    r.Underway h aloud es (s.warnRejected tile rejection) := by
  have hlater := Host.later_warnRejected ignoresReports_grows s tile rejection
  exact ⟨hs.later.trans hlater, hlater.housed hs.housed,
    hs.told.warnRejected tile rejection⟩

/-- A call leads to a later state. -/
theorem grows_calls (hs : r.Underway h aloud es s) (hr : r.Ready h) (t : Tile) :
    Grows s (r.calls t s).state := by
  have hstage := stage_later (h.setPhase r.driver .running)
  have hlarge : ∀ s, Grows (h.setPhase r.driver .running) s ∧ State.Housed s →
      ∀ o ∈ r.args, o.Below s.drivers.size := by
    intro s hs o ho
    refine (hr.args_below o ho).mono ?_
    simpa [Host.setPhase] using hs.1.size_le
  have hbody :
      AlongSteps (fun s => Grows (h.setPhase r.driver .running) s ∧
        State.Housed s)
      r.body r.body := hr.body_tidy.mono fun s hs => hs.2
  have hcall := along_tileBody hstage r.domain r.tile r.params hlarge hbody t
  exact (hcall s ⟨hs.later, hs.housed⟩).2

theorem call (hs : r.Underway h aloud es s) (hr : r.Ready h) (t : Tile) :
    r.Underway h aloud es (Host.spoken r.driver r.calls aloud t s).state := by
  have hcall := hs.grows_calls hr t
  have hlater := hcall.spoken r.driver aloud
  have hdriver := hcall.driver_eq r.driver (hs.settings hr).1
  exact ⟨hs.later.trans hlater, hlater.housed hs.housed,
    hs.told.call hdriver hcall.outlasts⟩

end Start.Underway

/-- A run by itself has reported what it tells. -/
theorem Start.Ready.tells {r : Start} {h : State} {own : List Event}
    (hr : r.Ready h) (halone : Host.Reported r.driver own h (r.alone h).state)
    (haloud : Host.Heard r.driver own h (r.run h).state)
    (hsame : Same id id (r.run h) (r.alone h)) :
    r.Tells h own where
  printed := halone.console
  shown := by
    rw [List.forall₂_map_right_iff, List.forall₂_same]
    exact fun e _ => e.shows_line
  recorded := by
    have hlt := hr.wired r.driver hr.driver_lt
    have htrace := halone.trace _ (Array.getElem?_eq_getElem hlt)
    simp [Host.entries, htrace, hlt]
  heard := haloud
  same := hsame

section Runs

variable {ι : Type} [Nonempty ι] {driver : Nat} {domain tile : Item}
  {params : List String}
  {args : ι → List Object} {body : ι → Steps} {h : ι → State}

/-- **Runs that are alike tell the same events**, each as the settings of
its driver say. -/
theorem exists_tells (hh : ∀ i j, Akin (h i) (h j))
    (hargs : ∀ i j, (args i).map Object.bare = (args j).map Object.bare)
    (hbody : ∀ i j, AlikeSteps (body i) (body j))
    (hready : ∀ i, Start.Ready ⟨driver, domain, tile, params, args i, body i⟩
      (h i)) :
    ∃ own, ∀ i, Start.Tells ⟨driver, domain, tile, params, args i, body i⟩
      (h i) own := by
  have hcalls :
      ∀ t i j, Alike id id (tileBody domain tile params (args i) (body i) t)
      (tileBody domain tile params (args j) (body j) t) :=
    fun t i j => alike_tileBody domain tile params (hargs i j) (hbody i j) t
  -- each run is followed twice, with its body as it is and with its body muted
  obtain ⟨own, hsame, htold⟩ := sideBySide_akin
    (Q := fun (c : ι × Bool) es s => Host.Told driver es (h c.1) s c.2)
    (R := fun c => Start.Underway ⟨driver, domain, tile, params, args c.1,
      body c.1⟩ (h c.1) c.2)
    (fun t c d => alike_spoken driver (hcalls t c.1 d.1) c.2 d.2)
    (fun c d => hh c.1 d.1)
    (fun c => .refl _) (fun c _ => .enter (hready c.1))
    (fun c es s hs => hs.told.setPhase .idle)
    (fun c es s hs e => hs.emit (hready c.1) e)
    (fun c es s hs index rejection => hs.warnRejected index rejection)
    (fun c t es s hs => hs.call (hready c.1) t)
  exact ⟨own, fun i => (hready i).tells (htold (i, false)) (htold (i, true))
    (hsame (i, true) (i, false))⟩

end Runs

/-! ## Runs of programs -/

section Starts

variable {h : State} {depth : Nat} {p rest : Program} {act : Act Scope Start}
  {r : Start} {s : State}

/-- **What a step starts is on a driver that was made**, as are the drivers
among its arguments. -/
theorem ready_of_starts (hh : State.Housed h) (hw : State.Wired h)
    (hp : p.starts? (Program.nested depth) = some (act, rest))
    (hr : act (cleared h) = .ok r s) :
    r.Ready s := by
  cases p with
  | run driver domain tile params args body rest =>
      cases hp
      obtain ⟨q, s₁, hq, hr⟩ := ok_of_bind hr
      cases hr
      have hlater := (tidy_of_tracks
        (fun b => tracks_runInputs (b := b) driver domain tile args)
        (cleared h) hh).2
      rw [hq] at hlater
      obtain ⟨hlt, hbelow⟩ := below_of_runInputs hh hq
      exact ⟨hlater.housed hh, hlater.wired hw, hlt, hbelow,
        tidySteps_exec (tidySteps_nested depth) body false⟩
  | launch name l args rest =>
      cases hp
      obtain ⟨q, s₁, hq, hr⟩ := ok_of_bind hr
      obtain ⟨id, s₂, hid, hr⟩ := ok_of_bind hr
      obtain ⟨rfl, rfl⟩ := EStateM.Result.ok.inj hr
      have hlater := (tidy_of_tracks
        (fun b => tracks_launchInputs (b := b) name l args) (cleared h) hh).2
      rw [hq] at hlater
      have hhoused := hlater.housed hh
      have hmade := (tidy_newDriver q.1.options s₁ hhoused).2
      rw [hid] at hmade
      have hlt : id < s₂.drivers.size := by cases hid; simp
      exact ⟨hmade.housed hhoused, hmade.wired (hlater.wired hw), hlt,
        fun o ho => (below_of_launchInputs hh hq o ho).mono hmade.size_le,
        tidySteps_nested depth q.1.body⟩
  | _ => cases hp

/-- The step is the run, of which what the bodies answer is gathered. -/
theorem execute_of_starts (hp : p.starts? (Program.nested depth) =
    some (act, rest))
    (guarded : Bool) :
    p.execute depth guarded =
      follow guarded (collectTiles (act >>= Start.run))
        (rest.execute depth guarded) := by
  rw [Program.execute_eq, Program.execute_eq,
    Program.exec_of_first (Program.first?_of_starts hp)]

/-- Two runs that start alike. -/
structure Start.Akin (r r' : Start) : Prop where
  driver : r.driver = r'.driver
  domain : r.domain = r'.domain
  tile : r.tile = r'.tile
  params : r.params = r'.params
  args : r.args.map Object.bare = r'.args.map Object.bare
  body : AlikeSteps r.body r'.body

theorem alikeSteps_nested (depth : Nat) {body body' : Program}
    (hbody : body.bare = body'.bare) :
    AlikeSteps (body.nested depth) (body'.nested depth) := by
  cases depth with
  | zero => exact fun h₁ h₂ hh => ⟨rfl, hh⟩
  | succ depth => exact alikeSteps_execute depth hbody false

theorem akin_cleared {h h' : State} (hh : Akin h h') :
    Akin (cleared h) (cleared h') :=
  hh.withTiles rfl

/-- **Programs that are alike start runs that are.** -/
theorem akin_of_starts {p' : Program} (hp' : p.bare = p'.bare) {h' : State}
    (hh : Akin h h') (hp : p.starts? (Program.nested depth) = some (act, rest))
    (hr : act (cleared h) = .ok r s) :
    ∃ act' rest' r' s', p'.starts? (Program.nested depth) = some (act', rest') ∧
      act' (cleared h') = .ok r' s' ∧ r.Akin r' ∧ Akin s s' := by
  cases p with
  | run driver domain tile params args body rest =>
      cases p' with
      | run driver' domain' tile' params' args' body' rest' =>
          obtain ⟨rfl, rfl, rfl, rfl, rfl, hbody, -⟩ := Program.run.inj hp'
          cases hp
          obtain ⟨q, s₁, hq, hr⟩ := ok_of_bind hr
          obtain ⟨rfl, rfl⟩ := EStateM.Result.ok.inj hr
          have hsame := alike_runInputs driver domain tile args _ _
            (akin_cleared hh)
          rw [hq] at hsame
          generalize hq' : runInputs driver domain tile args (cleared h') =
            r' at hsame
          cases hsame with
          | @ok _ q' _ s' hv hs =>
              obtain ⟨hid, hv⟩ := Prod.mk.inj hv
              obtain ⟨hdomain, hv⟩ := Prod.mk.inj hv
              obtain ⟨htile, hargs⟩ := Prod.mk.inj hv
              refine ⟨_, _, _, s', rfl, bind_of_ok hq' _,
                ⟨hid, hdomain, htile, rfl, hargs, ?_⟩, hs⟩
              exact alikeSteps_exec (fun _ _ => alikeSteps_nested depth)
                hbody false
      | _ => cases hp'
  | launch name l args rest =>
      cases p' with
      | launch name' l' args' rest' =>
          obtain ⟨rfl, rfl, rfl, -⟩ := Program.launch.inj hp'
          cases hp
          obtain ⟨q, s₁, hq, hr⟩ := ok_of_bind hr
          obtain ⟨id, s₂, hid, hr⟩ := ok_of_bind hr
          obtain ⟨rfl, rfl⟩ := EStateM.Result.ok.inj hr
          have hsame := alike_launchInputs name l args _ _ (akin_cleared hh)
          rw [hq] at hsame
          generalize hq' : launchInputs name l args (cleared h') = r' at hsame
          cases hsame with
          | @ok _ q' _ s' hv hs =>
              obtain ⟨hk, hv⟩ := Prod.mk.inj hv
              obtain ⟨hdomain, hv⟩ := Prod.mk.inj hv
              obtain ⟨htile, hargs⟩ := Prod.mk.inj hv
              obtain ⟨-, hparams, hbody⟩ := Kernel.mk.inj hk
              -- each makes a driver of its own, under the same number
              have hnew := alike_newDriver q.1.options q'.1.options _ _ hs
              rw [hid] at hnew
              generalize hid' : Host.newDriver q'.1.options s' = r' at hnew
              cases hnew with
              | @ok _ id' _ s₂ hv hs =>
                  refine ⟨_, _, _, s₂, rfl,
                    (bind_of_ok hq' _).trans (bind_of_ok hid' _), ?_, hs⟩
                  exact ⟨hv, hdomain, htile, hparams, hargs,
                    alikeSteps_nested depth hbody⟩
      | _ => cases hp'
  | _ => cases hp

end Starts

/-- Two runs that start alike tell the same events. -/
theorem exists_tells_pair {r r' : Start} {s s' : State} (hr : r.Akin r')
    (hs : Akin s s') (hready : r.Ready s) (hready' : r'.Ready s') :
    ∃ own, r.Tells s own ∧ r'.Tells s' own := by
  obtain ⟨driver, domain, tile, params, args, body⟩ := r
  obtain ⟨driver', domain', tile', params', args', body'⟩ := r'
  obtain ⟨hdriver, hdomain, htile, hparams, hargs, hbody⟩ := hr
  dsimp only at hdriver hdomain htile hparams hargs hbody
  subst hdriver hdomain htile hparams
  have hready : ∀ i, Start.Ready
      ⟨driver, domain, tile, params, either args args' i, either body body' i⟩
      (either s s' i) := by
    intro i
    cases i with
    | true => exact hready
    | false => exact hready'
  obtain ⟨own, htells⟩ :=
    exists_tells (rel_either (R := Akin) Eq.symm Eq.trans hs)
    (rel_either (R := fun os os' : List Object =>
      os.map Object.bare = os'.map Object.bare) Eq.symm
      Eq.trans hargs)
    (rel_either (R := AlikeSteps) AlikeSteps.symm AlikeSteps.trans hbody) hready
  exact ⟨own, htells true, htells false⟩

/-! ## Transparency -/

theorem Object.drivers_bare (o : Object) : o.bare.drivers = o.drivers := by
  induction o with
  | masked values valid ih => exact ih
  | observed log shape inner ih => exact ih
  | slice array origin ih => exact ih
  | _ => rfl

theorem housed_bare {h : State} : State.Housed h.bare ↔ State.Housed h := by
  have hsize : h.bare.drivers.size = h.drivers.size := Array.size_map
  have hnames : h.bare.caller.names = h.caller.names.map fun p =>
      (p.1, p.2.bare) := rfl
  simp only [State.Housed, State.Below, hsize, hnames, List.forall_mem_map,
    Object.Below, Object.drivers_bare]

theorem wired_bare {h : State} : State.Wired h.bare ↔ State.Wired h := by
  have hsize : h.bare.drivers.size = h.drivers.size := Array.size_map
  have hrecorders : h.bare.recorders.size = h.recorders.size := Array.size_map
  have hrecorder : ∀ id, (h.bare.driver id).recorder =
      (h.driver id).recorder := by
    intro id
    rw [driver_bare]
    rfl
  simp only [State.Wired, hsize, hrecorders, hrecorder]

theorem State.Akin.housed {h h' : State} (hh : Akin h h')
    (hhoused : State.Housed h) :
    State.Housed h' := by
  rw [← housed_bare, ← hh]
  exact housed_bare.mpr hhoused

theorem State.Akin.wired {h h' : State} (hh : Akin h h') (hw : State.Wired h) :
    State.Wired h' := by
  rw [← wired_bare, ← hh]
  exact wired_bare.mpr hw

/-- What two executions have in common. -/
structure Transparent (depth : Nat) (guarded : Bool) (p₁ p₂ : Program)
    (h₁ h₂ : State) : Prop where
  /-- The same answers and errors, up to the traces and settings
  that answers show. -/
  outcome : (p₁.execute depth guarded h₁).1.bare =
    (p₂.execute depth guarded h₂).1.bare
  /-- Outright the same, where none are shown. -/
  outcome_eq :
    (p₁.execute depth guarded h₁).1.bare = (p₁.execute depth guarded h₁).1 →
    (p₂.execute depth guarded h₂).1.bare = (p₂.execute depth guarded h₂).1 →
    (p₁.execute depth guarded h₁).1 = (p₂.execute depth guarded h₂).1
  /-- The same contents of all arrays and buffers. -/
  storages : (p₁.execute depth guarded h₁).2.storages =
    (p₂.execute depth guarded h₂).2.storages
  /-- The same objects under the same names, up to the options of kernels. -/
  names : (p₁.execute depth guarded h₁).2.caller.names.map
    (fun p => (p.1, p.2.bare)) =
    (p₂.execute depth guarded h₂).2.caller.names.map (fun p => (p.1, p.2.bare))
  /-- The same drivers, in the same phases. -/
  phases : (p₁.execute depth guarded h₁).2.drivers.map Driver.phase =
    (p₂.execute depth guarded h₂).2.drivers.map Driver.phase
  warnings : (p₁.execute depth guarded h₁).2.warnings =
    (p₂.execute depth guarded h₂).2.warnings
  /-- A step that starts a run is that run, with what its bodies
  answer gathered. -/
  step : ∀ {act rest}, p₁.starts? (Program.nested depth) = some (act, rest) →
    p₁.execute depth guarded =
      follow guarded (collectTiles (act >>= Start.run))
        (rest.execute depth guarded)
  /-- In the other execution it starts a run too, and both tell the
  same events. -/
  tells : ∀ {act rest r s}, p₁.starts? (Program.nested depth) =
    some (act, rest) → act (cleared h₁) = .ok r s →
    ∃ act' rest' r' s', p₂.starts? (Program.nested depth) = some (act', rest') ∧
      act' (cleared h₂) = .ok r' s' ∧ ∃ own, r.Tells s own ∧ r'.Tells s' own

theorem phases_of_akin {h h' : State} (hh : Akin h h') :
    h.drivers.map Driver.phase = h'.drivers.map Driver.phase := by
  have hphase : ∀ s : State, s.drivers.map Driver.phase =
      s.bare.drivers.map Driver.phase := by
    intro s
    show _ = (s.drivers.map Driver.bare).map Driver.phase
    rw [Array.map_map]
    rfl
  rw [hphase h, hh, ← hphase h']

/-- Programs that differ in options only, from states that differ in options,
traces and environment only. -/
theorem transparent_of_akin {p₁ p₂ : Program} (hp : p₁.bare = p₂.bare)
    {h₁ h₂ : State} (hh : Akin h₁ h₂) (hhoused : State.Housed h₁)
    (hwired : State.Wired h₁) (depth : Nat) (guarded : Bool) :
    Transparent depth guarded p₁ p₂ h₁ h₂ := by
  obtain ⟨hout, hend⟩ := alikeSteps_execute depth hp guarded h₁ h₂ hh
  refine ⟨hout, fun hbare₁ hbare₂ => ?_, ?_, ?_, phases_of_akin hend,
    ?_, ?_, ?_⟩
  · rw [← hbare₁, hout, hbare₂]
  · have hstorages := congrArg Host.storages hend
    exact hstorages
  · have hnames := congrArg (fun h : State => h.caller.names) hend
    exact hnames
  · have hwarnings := congrArg Host.warnings hend
    exact hwarnings
  · exact fun hstarts => execute_of_starts hstarts guarded
  · intro act rest r s hstarts hr
    obtain ⟨act', rest', r', s', hstarts', hr', hakin, hs⟩ :=
      akin_of_starts hp hh hstarts hr
    refine ⟨act', rest', r', s', hstarts', hr',
      exists_tells_pair hakin hs ?_ ?_⟩
    · exact ready_of_starts hhoused hwired hstarts hr
    · exact ready_of_starts (hh.housed hhoused) (hh.wired hwired) hstarts' hr'

/-- **Tracing and logging are transparent.** Programs that differ in options
only do the same whatever variables are set around them. So do, at every moment
of a script, the steps that are left and others that differ in options only,
from states that differ in options, traces and variables only. -/
theorem Program.transparent (p₁ p₂ : Program) (hp : p₁.bare = p₂.bare)
    (depth : Nat) (guarded : Bool) (wording : Fault → String)
    (bindings₁ bindings₂ : List (String × String)) :
    Transparent depth guarded p₁ p₂
      (Host.empty ⟨bindings₁, wording⟩ Scope.empty)
      (Host.empty ⟨bindings₂, wording⟩ Scope.empty) ∧
      ∀ m, Relation.ReflTransGen Moment.Next
          (Moment.start p₁ depth guarded ⟨bindings₁, wording⟩) m →
        ∀ p h, m.program.bare = p.bare → Akin m.state h →
          Transparent m.depth m.guarded m.program p m.state h := by
  have hmoment : ∀ m, Relation.ReflTransGen Moment.Next
        (Moment.start p₁ depth guarded ⟨bindings₁, wording⟩) m →
      ∀ p h, m.program.bare = p.bare → Akin m.state h →
        Transparent m.depth m.guarded m.program p m.state h := by
    intro m hm p h hp hh
    have hsound := Moment.sound_of_reachable hm
    exact transparent_of_akin hp hh hsound.housed hsound.wired m.depth m.guarded
  exact ⟨hmoment _ .refl p₂ _ hp rfl, hmoment⟩

/-- A run whose body launches a kernel that fails. -/
def runOfFailing : Program :=
  .run "d" (.value (.ofList [2])) (.value (.ofList [1])) [] []
    (.launch "k" (.given (.value (.ofList [1])) (.value (.ofList [1])))
      [] .done) .done

/-- The same, with the driver and the kernel, which have the options given. -/
def failingInside (o : Options) : Program :=
  .step (.make (some "d") (.driver o))
    (.kernel (some "k") o [] (.step (.change (.throw (.string "boom"))) .done)
      runOfFailing)

/-- The state as that run starts, with the settings of the driver. -/
def failingState (o : Options) (s : Settings) : State :=
  { Host.empty .empty Scope.empty with
    recorders := #[#[]]
    drivers := #[⟨.idle, s, 0⟩]
    caller := (Scope.empty.bind "d" (.driver 0)).bind "k"
      (.kernel ⟨o, [], .step (.change (.throw (.string "boom"))) .done⟩) }

theorem akin_failingState (o o' : Options) (s s' : Settings) :
    Akin (failingState o s) (failingState o' s') := by
  have hkernel : ∀ body, (Object.kernel ⟨o, [], body⟩).bare =
      (Object.kernel ⟨o', [], body⟩).bare :=
    fun _ => rfl
  simp [Akin, State.bare, failingState, Driver.bare, Scope.bare_bind, hkernel]

theorem Program.transparent_failing :
    (failingInside ⟨some true, some true⟩).bare =
      (failingInside ⟨none, none⟩).bare ∧
    Transparent 1 true (failingInside ⟨some true, some true⟩)
      (failingInside ⟨none, none⟩)
      (Host.empty .empty Scope.empty)
      (Host.empty { Environment.empty with bindings := [("TILESIM_LOG", "1")] }
        Scope.empty) ∧
    Relation.ReflTransGen Moment.Next
      (Moment.start (failingInside ⟨some true, some true⟩) 1 true .empty)
      ⟨[], 1, runOfFailing, true,
        failingState ⟨some true, some true⟩ ⟨true, true⟩⟩ ∧
    Akin (failingState ⟨some true, some true⟩ ⟨true, true⟩)
      (failingState ⟨none, none⟩ ⟨false, true⟩) ∧
    Transparent 1 true runOfFailing runOfFailing
      (failingState ⟨some true, some true⟩ ⟨true, true⟩)
      (failingState ⟨none, none⟩ ⟨false, true⟩) := by
  have hbare : (failingInside ⟨some true, some true⟩).bare =
      (failingInside ⟨none, none⟩).bare := rfl
  obtain ⟨hwhole, hmoment⟩ := Program.transparent _ _ hbare 1 true
    Environment.empty.wording [] [("TILESIM_LOG", "1")]
  have hdriver := Moment.Next.done
    (m := Moment.start (failingInside ⟨some true, some true⟩) 1 true .empty)
    rfl rfl
  have hkernel : Relation.ReflTransGen Moment.Next
      (Moment.start (failingInside ⟨some true, some true⟩) 1 true .empty)
      ⟨[], 1, runOfFailing, true,
        failingState ⟨some true, some true⟩ ⟨true, true⟩⟩ :=
    (Relation.ReflTransGen.single hdriver).tail (.done rfl rfl)
  have hakin := akin_failingState ⟨some true, some true⟩ ⟨none, none⟩
    ⟨true, true⟩ ⟨false, true⟩
  exact ⟨hbare, hwhole, hkernel, hakin, hmoment _ hkernel _ _ rfl hakin⟩

end TileGrid.Script
