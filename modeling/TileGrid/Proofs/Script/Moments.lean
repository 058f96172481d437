import Mathlib.Logic.Relation
import TileGrid.Proofs.Script.Blame

/-!
# Moments of a script

A script calls bodies, which are scripts and call others. A moment is a place
in this: the runs that are under way, and the steps that are next in the
innermost body. `Next` leads from a moment to those that follow, from step to
step and into bodies; no body is called without a moment for it
(`Enters.next`). At every moment exactly those drivers are running whose runs
are under way, and from this it follows when a run is refused, and that a
launch never is on account of its own driver.
-/

namespace TileGrid.Script

open State

/-- What launches do with the body of a kernel that may nest so deep. -/
def Program.nested : Nat → Program → Steps
  | 0, _ => fun h => (⟨[], some (.ofFault .tooDeep)⟩, h)
  | depth + 1, body => body.execute depth false

theorem Program.execute_eq (depth : Nat) (p : Program) :
    p.execute depth = p.exec (nested depth) := by
  cases depth with
  | zero => rfl
  | succ depth => rfl

theorem tidySteps_nested (depth : Nat) (body : Program) :
    TidySteps (body.nested depth) := by
  cases depth with
  | zero => exact fun h _ => ⟨rfl, .refl h⟩
  | succ depth => exact tidySteps_execute depth body false

/-- A place in the execution of a script. -/
structure Moment where
  /-- The drivers of the runs that are under way, the innermost first. -/
  active : List Nat
  /-- How deep launches may still nest. -/
  depth : Nat
  /-- The steps that are next in the innermost body. -/
  program : Program
  /-- Whether they go on after a fault. -/
  guarded : Bool
  state : State

namespace Moment

/-- A script before its first step. -/
def start (p : Program) (depth : Nat) (guarded : Bool)
    (env : Environment) : Moment :=
  ⟨[], depth, p, guarded, Host.empty env Scope.empty⟩

/-- The next step, and what follows it. -/
def first? (m : Moment) : Option (StepAct Answer × Program) :=
  m.program.first? (Program.nested m.depth)

/-- What the steps from here to the end of the innermost body come to. -/
def outcome (m : Moment) : Outcome :=
  (m.program.execute m.depth m.guarded m.state).1

/-- From a moment to one that follows: after the next step, or at the start of a
body that it calls. -/
inductive Next : Moment → Moment → Prop
  | done {m : Moment} {x : StepAct Answer} {rest : Program} {a : Answer}
      {h' : State} (hx : m.first? = some (x, rest))
      (hr : x m.state = .ok a h') :
      Next m { m with program := rest, state := h' }
  | failed {m : Moment} {x : StepAct Answer} {rest : Program} {f : Fault}
      {a : Answer} {h' : State} (hx : m.first? = some (x, rest))
      (hguarded : m.guarded = true) (hr : x m.state = .error (.failed f a) h') :
    Next m { m with program := rest, state := h' }
  | walk {active : List Nat} {depth : Nat} {guarded : Bool} {h s : State}
      {shape : Term} {body rest : Program}
      (hcall : CallsAt (walkBox shape) (body.execute depth false) h s) :
      Next ⟨active, depth, .walk shape body rest, guarded, h⟩
        ⟨active, depth, body, false, s⟩
  | ifSame {active : List Nat} {depth : Nat} {guarded : Bool} {h s : State}
      {value : Term} {expected? : Option Number} {body rest : Program}
      (hcall : CallsAt (whenSame value expected?)
        (body.execute depth false) h s) :
      Next ⟨active, depth, .ifSame value expected? body rest, guarded, h⟩
        ⟨active, depth, body, false, s⟩
  | attempt {active : List Nat} {depth : Nat} {guarded : Bool} {h s : State}
      {body rest : Program}
      (hcall : CallsAt gathered (body.execute depth true) h s) :
      Next ⟨active, depth, .attempt body rest, guarded, h⟩
        ⟨active, depth, body, true, s⟩
  /-- A run adds its driver to those under way. -/
  | run {active : List Nat} {depth : Nat} {guarded : Bool} {h s₀ s : State}
      {driver : String} {domain tile : Term} {params args : List String}
      {body rest : Program} {q : Nat × Item × Item × List Object}
      (hinputs : runInputs driver domain tile args (cleared h) = .ok q s₀)
      (hcall : CallsAt (runOn driver domain tile params args)
        (body.execute depth false) h s) :
      Next ⟨active, depth, .run driver domain tile params args body rest,
        guarded, h⟩
        ⟨q.1 :: active, depth, body, false, s⟩
  /-- A launch adds a driver that it makes, and its body is that of
  its kernel. -/
  | launch {active : List Nat} {depth : Nat} {guarded : Bool} {h s₀ s : State}
      {name : String} {l : LaunchTerm} {args : List String} {rest : Program}
      {q : Kernel × Item × Item × List Object}
      (hinputs : launchInputs name l args (cleared h) = .ok q s₀)
      (hcall : CallsAt (fun steps => launchKernel (fun _ => steps) name l args)
        (q.1.body.execute depth false) h s) :
      Next ⟨active, depth + 1, .launch name l args rest, guarded, h⟩
        ⟨h.drivers.size :: active, depth, q.1.body, false, s⟩

/-- From a moment to the start of a body that the next step comes to call, by
what the step does up to there. -/
inductive Enters : Moment → Moment → Prop
  | walk {active : List Nat} {depth : Nat} {guarded : Bool}
      {h s₁ s₂ s₃ s : State} {shape : Term} {body rest : Program} {i : Item}
      {box : Shape} (hitem : asStep (evalItem shape) h = .ok i s₁)
      (hread : asStep (readList i) s₁ = .ok box s₂)
      (hneed : asStep (needNumbers box) s₂ = .ok () s₃)
      (hcall : WalkCall i box.length box.size s₃.caller.lists.size
        (body.execute depth false)
        Number.safeLimit 0 (modifyScope s₃ (·.entered box.corner)) s) :
      Enters ⟨active, depth, .walk shape body rest, guarded, h⟩
        ⟨active, depth, body, false, s⟩
  | ifSame {active : List Nat} {depth : Nat} {guarded : Bool} {h s₁ s : State}
      {value : Term} {expected? : Option Number} {body rest : Program}
      {v x : Number} (heval : asStep (eval value) h = .ok v s₁)
      (hshown : asStep (shown v) s₁ = .ok x s) (hsame : expected? = some x) :
      Enters ⟨active, depth, .ifSame value expected? body rest, guarded, h⟩
        ⟨active, depth, body, false, s⟩
  | attempt {active : List Nat} {depth : Nat} {guarded : Bool} {h : State}
      {body rest : Program} :
      Enters ⟨active, depth, .attempt body rest, guarded, h⟩
        ⟨active, depth, body, true, h⟩
  | run {active : List Nat} {depth : Nat} {guarded : Bool} {h s₀ s : State}
      {driver : String} {domain tile : Term} {params args : List String}
      {body rest : Program} {q : Nat × Item × Item × List Object}
      (hinputs : runInputs driver domain tile args (cleared h) = .ok q s₀)
      (hcall : BodyCall q.1 q.2.1 q.2.2.1 params q.2.2.2
        (body.execute depth false) s₀ s) :
      Enters ⟨active, depth, .run driver domain tile params args body rest,
        guarded, h⟩
        ⟨q.1 :: active, depth, body, false, s⟩
  | launch {active : List Nat} {depth : Nat} {guarded : Bool} {h s₀ s : State}
      {name : String} {l : LaunchTerm} {args : List String} {rest : Program}
      {q : Kernel × Item × Item × List Object}
      (hinputs : launchInputs name l args (cleared h) = .ok q s₀)
      (hcall : BodyCall s₀.drivers.size q.2.1 q.2.2.1 q.1.params q.2.2.2
        (q.1.body.execute depth false)
        (s₀.withDriver q.1.options) s) :
      Enters ⟨active, depth + 1, .launch name l args rest, guarded, h⟩
        ⟨h.drivers.size :: active, depth, q.1.body, false, s⟩

/-- **No body is called without a moment for it.** -/
theorem Enters.next {m m' : Moment} (hm : Enters m m') : Next m m' := by
  cases hm with
  | walk hitem hread hneed hcall =>
    exact .walk (callsAt_walkBox hitem hread hneed hcall)
  | ifSame heval hshown hsame =>
    exact .ifSame (callsAt_whenSame heval hshown hsame)
  | attempt => exact .attempt (callsAt_gathered _ _)
  | run hinputs hcall => exact .run hinputs (callsAt_runOn hinputs hcall)
  | launch hinputs hcall =>
    exact .launch hinputs (callsAt_launchKernel hinputs hcall)

/-! ## The drivers that are running -/

/-- Exactly the drivers of the runs under way are running, and every driver
has its recorder. -/
structure Sound (m : Moment) : Prop where
  housed : State.Housed m.state
  wired : State.Wired m.state
  running_iff : ∀ id, (m.state.driver id).phase = .running ↔ id ∈ m.active

section Sound

variable {m m' : Moment}

theorem sound_start (p : Program) (depth : Nat) (guarded : Bool)
    (env : Environment) :
    (start p depth guarded env).Sound where
  housed := fun _ hp => absurd hp List.not_mem_nil
  wired := fun id hid => absurd hid (Nat.not_lt_zero id)
  running_iff := by
    intro id
    have hidle : ((start p depth guarded env).state.driver id).phase = .idle :=
      phase_of_size_le (Nat.zero_le id)
    rw [hidle]
    simp [start]

/-- The next step leads to a later state. -/
theorem grows_first (hm : m.Sound) {x : StepAct Answer} {rest : Program}
    (hx : m.first? = some (x, rest)) : Grows m.state (x m.state).state := by
  have hbodies : ∀ body ∈ m.program.bodies, ∀ guarded,
      TidySteps (body.exec (Program.nested m.depth) guarded) :=
    fun body _ guarded => tidySteps_exec (tidySteps_nested m.depth) body guarded
  exact (tidy_first (tidySteps_nested m.depth) hbodies hx m.state hm.housed).2

/-- In a later state the same drivers are running. -/
theorem Sound.later (hm : m.Sound) {h' : State} (hg : Grows m.state h') :
    ∀ id, (h'.driver id).phase = .running ↔ id ∈ m.active := fun id => by
  rw [hg.running_iff, hm.running_iff]

/-- A body that is called in a later state, within the same runs. -/
theorem Sound.body (hm : m.Sound) {act : Steps → StepAct Answer}
    {body : Program} {guarded : Bool} {s : State}
    (hcall : CallsAt act (body.execute m.depth guarded) m.state s)
    (hact : ∀ (P : State → Prop) (y : Steps), Stage P →
      AlongSteps P (body.execute m.depth guarded) y →
      Along P Grows (act (body.execute m.depth guarded)) (act y)) :
    Sound ⟨m.active, m.depth, body, guarded, s⟩ := by
  have hstage := stage_later m.state
  have hbody : AlongSteps (fun s => Grows m.state s ∧ State.Housed s)
      (body.execute m.depth guarded) (body.execute m.depth guarded) :=
    (tidySteps_execute m.depth body guarded).mono fun s hs => hs.2
  have hmem : Grows m.state s ∧ State.Housed s :=
    hcall.mem hbody fun other hother =>
    (hact _ other hstage hother m.state ⟨.refl _, hm.housed⟩).1
  exact ⟨hmem.2, hmem.1.wired hm.wired, hm.later hmem.1⟩

/-- A body that is called while one more driver is running. -/
theorem Sound.inside (hm : m.Sound) {id : Nat} {s : State}
    (hs : Inside id m.state s) (depth : Nat) (body : Program) :
    Sound ⟨id :: m.active, depth, body, false, s⟩ where
  housed := hs.housed
  wired := hs.wired hm.wired
  running_iff := by
    intro id'
    rw [hs.running_iff, hm.running_iff, List.mem_cons]

/-- **One step, into a body or past it.** -/
theorem Sound.next (hm : m.Sound) (hnext : Next m m') : m'.Sound := by
  cases hnext with
  | done hx hr =>
      have hg := grows_first hm hx
      rw [hr] at hg
      exact ⟨hg.housed hm.housed, hg.wired hm.wired, hm.later hg⟩
  | failed hx hguarded hr =>
      have hg := grows_first hm hx
      rw [hr] at hg
      exact ⟨hg.housed hm.housed, hg.wired hm.wired, hm.later hg⟩
  | walk hcall => exact hm.body hcall fun P y hP hy => along_walkBox hP hy _
  | ifSame hcall =>
    exact hm.body hcall fun P y hP hy => along_whenSame hP hy _ _
  | attempt hcall => exact hm.body hcall fun P y hP hy => along_gathered hP hy
  | @run active depth guarded h s₀ s driver domain tile params args body rest q
      hinputs hcall =>
      have hbody := (tidySteps_execute depth body false).inside q.1 h
      refine hm.inside (hcall.mem hbody fun other hother => ?_) depth body
      refine (along_runOn hm.housed (fun q' s' hr => ?_) params).1
      -- the inputs are those that the run starts from
      rw [hinputs] at hr
      cases hr
      exact hother
  | @launch active depth guarded h s₀ s name l args rest q hinputs hcall =>
      have hbody := (tidySteps_execute depth q.1.body false).inside
        h.drivers.size h
      refine hm.inside (hcall.mem hbody fun other hother => ?_) depth q.1.body
      exact (along_launchKernel hm.housed fun q' s' hr => hother).1

/-- **Every moment of a script.** -/
theorem sound_of_reachable {p : Program} {depth : Nat} {guarded : Bool}
    {env : Environment}
    (hm : Relation.ReflTransGen Next (start p depth guarded env) m) :
    m.Sound := by
  induction hm with
  | refl => exact sound_start p depth guarded env
  | tail _ hnext ih => exact ih.next hnext

end Sound

/-! ## Refusals -/

/-- The step is over before it calls any body: whatever the body, it
ends with the fault, and leaves drivers, traces, console and all the
backdrop as they were. -/
def Refuses (act : Steps → StepAct Answer) (h : State) (fault : Fault) : Prop :=
  ∃ h', Kept h h' ∧ ∀ body, act body h =
    .error (.failed fault (.runFailed fault [])) h'

/-- The fault is what the body comes to that the next step calls in a
run on the driver. -/
def Passes (m : Moment) (id : Nat) (body : Program) (fault : Fault) : Prop :=
  ∃ m', Next m m' ∧ m'.active = id :: m.active ∧ m'.program = body ∧
    ∃ a, m'.outcome.stop? = some (.failed fault a)

section Refusals

variable {m : Moment} {driver : String} {domain tile : Term}
  {params args : List String}
  {q : Nat × Item × Item × List Object} {s : State} {fault : Fault}

theorem refuses_of_runOver {h : State} (hh : State.Housed h)
    (hinputs : runInputs driver domain tile args (cleared h) = .ok q s)
    (hr : ∀ body, Host.runOver q.1 (readLaunch q.2.1 q.2.2.1)
      (readNumbers q.2.1 q.2.2.1) body s =
      .error fault s) :
    Refuses (runOn driver domain tile params args) h fault := by
  have hkept := (kept_of_tracks (h := cleared h)
    (fun b => tracks_runInputs (b := b) driver domain tile args) hh).1
  rw [hinputs] at hkept
  have htiles : s.caller.tiles.toList = [] := congrArg Array.toList hkept.tiles
  refine ⟨regathered h s,
    ⟨hkept.recorders, hkept.drivers, hkept.console, hkept.warnings,
      hkept.environment, hkept.snapshots, rfl⟩, fun body => ?_⟩
  rw [runOn_eq, collectTiles_of_error ((bind_of_ok hinputs _).trans (hr _)),
    htiles]

/-- What the driver of a run is doing as the run starts. -/
theorem Sound.running_of_inputs (hm : m.Sound)
    (hinputs : runInputs driver domain tile args (cleared m.state) = .ok q s) :
    (s.driver q.1).phase = .running ↔ q.1 ∈ m.active := by
  have hdrivers := (drivers_of_inputs
    (fun b => tracks_runInputs (b := b) driver domain tile args) hm.housed
    hinputs).1
  rw [Host.driver, hdrivers, ← Host.driver, hm.running_iff]

theorem Sound.not_active (hm : m.Sound) {id : Nat}
    (hidle : (m.state.driver id).phase = .idle) :
    id ∉ m.active := by
  rw [← hm.running_iff, hidle]
  exact nofun

theorem idle_of_not_running {d : Driver} (hd : d.phase ≠ .running) :
    d.phase = .idle := by
  cases hphase : d.phase with
  | idle => rfl
  | running => exact absurd hphase hd

/-- Where a run ends in a busy driver that is not its own, its body raised that,
in a state that the run called it in. -/
theorem Sound.callsAt_of_run (hm : m.Sound) {body : Steps} {a : Answer}
    {h' : State}
    (hinputs : runInputs driver domain tile args (cleared m.state) = .ok q s)
    (hidle : q.1 ∉ m.active)
    (hrun : runOn driver domain tile params args body m.state =
      .error (.failed fault a) h')
    (hbusy : fault.sort = .busy) :
    ∃ s' a', (body s').1.stop? = some (.failed fault a') ∧
      CallsAt (runOn driver domain tile params args) body m.state s' := by
  have hphase := idle_of_not_running fun hrunning =>
    hidle ((hm.running_of_inputs hinputs).mp hrunning)
  rw [runOn_eq] at hrun
  obtain ⟨h₁, hover⟩ := error_of_collectTiles hrun
  rw [bind_of_ok hinputs] at hover
  obtain ⟨s', a', hcall, hstop⟩ := busy_of_body hphase hover hbusy
  exact ⟨s', a', hstop, callsAt_runOn hinputs hcall⟩

/-- **A run refuses by itself exactly if its driver is running**,
whatever its launch. -/
theorem Sound.busy_iff (hm : m.Sound)
    (hinputs : runInputs driver domain tile args (cleared m.state) = .ok q s) :
    Refuses (runOn driver domain tile params args) m.state .busy ↔
      q.1 ∈ m.active := by
  constructor
  · intro hrefuses
    by_contra hidle
    obtain ⟨h', -, hrun⟩ := hrefuses
    -- a body that does nothing raises nothing
    obtain ⟨s', a', hstop, -⟩ :=
      hm.callsAt_of_run hinputs hidle (hrun fun h => (⟨[], none⟩, h)) rfl
    cases hstop
  · intro hactive
    have hrunning := (hm.running_of_inputs hinputs).mpr hactive
    exact refuses_of_runOver hm.housed hinputs fun body =>
      Host.runOver_of_running hrunning

/-- A run on a driver at rest refuses a launch that is not accepted. -/
theorem Sound.refuses_launch (hm : m.Sound) {l : Launch}
    (hinputs : runInputs driver domain tile args (cleared m.state) = .ok q s)
    (hidle : q.1 ∉ m.active) (hlaunch : readLaunch q.2.1 q.2.2.1 s = .ok l s)
    (hcheck : l.check ≠ .ok ()) :
    Refuses (runOn driver domain tile params args) m.state
      (.launchShape l.domain l.tile) := by
  have hphase := idle_of_not_running fun hrunning =>
    hidle ((hm.running_of_inputs hinputs).mp hrunning)
  exact refuses_of_runOver hm.housed hinputs fun body =>
    Host.runOver_of_rejected hphase hlaunch hcheck

/-- **A run on a driver at rest ends in a busy driver only if its
body does.** -/
theorem Sound.passes_of_run (hm : m.Sound) {body rest : Program} {a : Answer}
    {h' : State}
    (hp : m.program = .run driver domain tile params args body rest)
    (hinputs : runInputs driver domain tile args (cleared m.state) = .ok q s)
    (hidle : q.1 ∉ m.active)
    (hrun : runOn driver domain tile params args
      (body.execute m.depth false) m.state =
      .error (.failed fault a) h') (hbusy : fault.sort = .busy) :
        Passes m q.1 body fault := by
  obtain ⟨s', a', hstop, hcall⟩ := hm.callsAt_of_run hinputs hidle hrun hbusy
  obtain ⟨active, depth, program, guarded, h⟩ := m
  obtain rfl : program = _ := hp
  exact ⟨_, .run hinputs hcall, rfl, rfl, a', hstop⟩

end Refusals

section Launches

variable {m : Moment} {name : String} {l : LaunchTerm} {args : List String}
  {q : Kernel × Item × Item × List Object} {s : State} {fault : Fault}

theorem collectTiles_congr {act act' : Act Scope Unit} {h : State}
    (heq : act (cleared h) = act' (cleared h)) :
    collectTiles act h = collectTiles act' h := by
  unfold collectTiles
  rw [← cleared, heq]

/-- Only the body of the kernel that is found matters to a launch. -/
theorem launchKernel_of_inputs {call : Program → Steps} {h : State}
    (hinputs : launchInputs name l args (cleared h) = .ok q s) :
    launchKernel call name l args h =
      launchKernel (fun _ => call q.1.body) name l args h := by
  rw [launchKernel_eq, launchKernel_eq]
  refine collectTiles_congr ?_
  rw [bind_of_ok hinputs, bind_of_ok hinputs]

/-- Where a launch ends in a busy driver, its body raised that, in a state that
the launch called it in: its own driver is new. -/
theorem callsAt_of_launch {body : Steps} {a : Answer} {h h' : State}
    (hinputs : launchInputs name l args (cleared h) = .ok q s)
    (hrun : launchKernel (fun _ => body) name l args h =
      .error (.failed fault a) h')
    (hbusy : fault.sort = .busy) :
    ∃ s' a', (body s').1.stop? = some (.failed fault a') ∧
      CallsAt (fun steps => launchKernel (fun _ => steps) name l args)
        body h s' := by
  have hidle :
      ((s.withDriver q.1.options).driver s.drivers.size).phase = .idle := by
    rw [Host.driver_withDriver]
  rw [launchKernel_eq] at hrun
  obtain ⟨h₁, hover⟩ := error_of_collectTiles hrun
  rw [bind_of_ok hinputs] at hover
  have hown := (Host.launchOver_eq q.1.options _ _ _ s).symm.trans hover
  obtain ⟨s', a', hcall, hstop⟩ := busy_of_body hidle hown hbusy
  exact ⟨s', a', hstop, callsAt_launchKernel hinputs hcall⟩

/-- **A launch ends in a busy driver only if its body does.** -/
theorem passes_of_launch {rest : Program} {a : Answer} {h' : State}
    (hp : m.program = .launch name l args rest)
    (hinputs : launchInputs name l args (cleared m.state) = .ok q s)
    (hrun : launchKernel (Program.nested m.depth) name l args m.state =
      .error (.failed fault a) h')
    (hbusy : fault.sort = .busy) :
    Passes m m.state.drivers.size q.1.body fault := by
  rw [launchKernel_of_inputs hinputs] at hrun
  obtain ⟨s', a', hstop, hcall⟩ := callsAt_of_launch hinputs hrun hbusy
  obtain ⟨active, depth, program, guarded, h⟩ := m
  obtain rfl : program = _ := hp
  cases depth with
  | zero =>
      -- launches that nest too deep raise another fault
      cases hstop
      cases hbusy
  | succ depth => exact ⟨_, .launch hinputs hcall, rfl, rfl, a', hstop⟩

end Launches

/-! ## The phases of drivers -/

/-- What the phases of drivers say at a moment. A run call is made
once its driver, the two lists of its launch and its arguments are
found (`runInputs`). -/
structure Orderly (m : Moment) : Prop where
  running_iff : ∀ id, (m.state.driver id).phase = .running ↔ id ∈ m.active
  /-- However the next step ends, the runs under way are the same after it, so a
  driver that a step set running is at rest again. -/
  after : ∀ {x rest}, m.first? = some (x, rest) →
    ∀ id, ((x m.state).state.driver id).phase = .running ↔ id ∈ m.active
  /-- So they are at the end of the innermost body, which for a whole script
  is under no run. -/
  atEnd : ∀ id,
    ((m.program.execute m.depth m.guarded m.state).2.driver id).phase =
      .running ↔ id ∈ m.active
  /-- A run call refuses by itself for a busy driver exactly if its
  driver is running. -/
  busy_iff : ∀ {driver domain tile params args q s},
    runInputs driver domain tile args (cleared m.state) = .ok q s →
    (Refuses (runOn driver domain tile params args) m.state .busy ↔
      (m.state.driver q.1).phase = .running)
  /-- Any other fault of that sort comes from the body. -/
  passed : ∀ {driver domain tile params args body rest q s fault a h'},
    m.program = .run driver domain tile params args body rest →
    runInputs driver domain tile args (cleared m.state) = .ok q s →
    (m.state.driver q.1).phase = .idle →
    runOn driver domain tile params args (body.execute m.depth false) m.state =
      .error (.failed fault a) h' →
    fault.sort = .busy → Passes m q.1 body fault
  /-- A launch that is not accepted is refused by a driver at rest. -/
  rejected : ∀ {driver domain tile params args q s l},
    runInputs driver domain tile args (cleared m.state) = .ok q s →
    (m.state.driver q.1).phase = .idle →
    readLaunch q.2.1 q.2.2.1 s = .ok l s → l.check ≠ .ok () →
    Refuses (runOn driver domain tile params args) m.state
      (.launchShape l.domain l.tile)
  /-- A launch has a driver of its own, so a busy driver is one that its
  body met. -/
  launched : ∀ {name l args rest q s fault a h'},
    m.program = .launch name l args rest →
    launchInputs name l args (cleared m.state) = .ok q s →
    launchKernel (Program.nested m.depth) name l args m.state =
      .error (.failed fault a) h' →
    fault.sort = .busy → Passes m m.state.drivers.size q.1.body fault

theorem Sound.orderly {m : Moment} (hm : m.Sound) : m.Orderly where
  running_iff := hm.running_iff
  after := fun hx => hm.later (grows_first hm hx)
  atEnd :=
    hm.later (tidySteps_execute m.depth m.program m.guarded m.state hm.housed).2
  busy_iff := fun hinputs => by rw [hm.busy_iff hinputs, hm.running_iff]
  passed := by
    intro driver domain tile params args body rest q s fault a h' hp hinputs
      hidle hrun hbusy
    exact hm.passes_of_run hp hinputs (hm.not_active hidle) hrun hbusy
  rejected := fun hinputs hidle hl hcheck =>
    hm.refuses_launch hinputs (hm.not_active hidle) hl hcheck
  launched := fun hp hinputs hrun hbusy =>
    passes_of_launch hp hinputs hrun hbusy

/-- **At every moment of a script the phases of its drivers are in order**,
however runs and launches nest and whatever the bodies do. -/
theorem orderly_of_reachable (p : Program) (depth : Nat) (guarded : Bool)
    (env : Environment) (m : Moment)
    (hm : Relation.ReflTransGen Next (start p depth guarded env) m) :
    m.Orderly :=
  (sound_of_reachable hm).orderly

/-- A run of a driver over no tiles at all. -/
def runOfNone : Program :=
  .run "d" (.value (.ofList [0])) (.value (.ofList [1])) [] [] .done .done

/-- A run of a driver whose body runs that driver again. -/
def runInItself : Program :=
  .run "d" (.value (.ofList [1])) (.value (.ofList [1])) [] [] runOfNone .done

/-- The sort of the fault that a step ended with. -/
def sortOf? : EStateM.Result Stop State Answer → Option FaultClass
  | .error (.failed f _) _ => some f.sort
  | _ => none

theorem orderly_of_reachable_inner : ∃ m fault a,
    Relation.ReflTransGen Next
      (start (.step (.make (some "d") (.driver ⟨none, none⟩)) runInItself) 0
        false .empty) m ∧
    m.active = [0] ∧ m.program = runOfNone ∧
    m.outcome.stop? = some (.failed fault a) ∧
    fault.sort = .busy ∧ m.Orderly := by
  let h : State := { Host.empty .empty Scope.empty with
    recorders := #[#[]]
    drivers := #[⟨.idle, ⟨false, false⟩, 0⟩]
    caller := Scope.empty.bind "d" (.driver 0) }
  have hmake :
      Next (start (.step (.make (some "d") (.driver ⟨none, none⟩)) runInItself)
        0 false .empty)
      ⟨[], 0, runInItself, false, h⟩ := .done rfl rfl
  have hstart := Relation.ReflTransGen.single hmake
  have hsort :
      sortOf? (runOn "d" (.value (.ofList [1])) (.value (.ofList [1])) [] []
      (runOfNone.execute 0 false) h) = some .busy := by decide +kernel
  cases hrun : runOn "d" (.value (.ofList [1])) (.value (.ofList [1])) [] []
      (runOfNone.execute 0 false) h with
  | ok a h' =>
      rw [hrun] at hsort
      cases hsort
  | error stop h' =>
      rw [hrun] at hsort
      cases stop with
      | returned c => cases hsort
      | failed fault a =>
          have hbusy : fault.sort = .busy := Option.some.inj hsort
          -- the fault of the outer run leads into its body
          obtain ⟨m, hnext, hactive, hprogram, a', hstop⟩ :=
            (sound_of_reachable hstart).passes_of_run rfl rfl List.not_mem_nil
              hrun hbusy
          have hm := hstart.tail hnext
          exact ⟨m, fault, a', hm, hactive, hprogram, hstop, hbusy,
            orderly_of_reachable _ 0 false .empty m hm⟩

end Moment

end TileGrid.Script
