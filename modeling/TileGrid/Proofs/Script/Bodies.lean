import TileGrid.Proofs.Script.Growth

/-!
# Where bodies are called

Walks, runs and launches take a body and call it in states that come later than
the one they start in. Two bodies that do the same in those states make no
difference (`along_walkBox`, `along_runOn`, `along_launchKernel`). In a run
these are states in which its driver is marked as running.
-/

namespace TileGrid.Script

open State

/-- States from which all later ones are in `P` too, and all of whose
drivers were made. -/
structure Stage (P : State → Prop) : Prop where
  housed : ∀ {s}, P s → State.Housed s
  closed : ∀ {s t}, P s → Grows s t → P t

theorem Stage.onward {P : State → Prop} (hP : Stage P) : Onward P Grows :=
  ⟨.refl, .trans, hP.closed⟩

theorem Stage.along {ε α : Type} {P : State → Prop} (hP : Stage P)
    {v : Backdrop → α → α} {x : EStateM ε State α}
    (hx : ∀ b, Tracks b (v b) x x) : Along P Grows x x :=
  (tidy_of_tracks hx).mono fun _ => hP.housed

/-! ## Lists of steps -/

/-- The steps do the same in the states in `P`, and lead to later ones. -/
def AlongSteps (P : State → Prop) (x y : Steps) : Prop :=
  ∀ s, P s → x s = y s ∧ Grows s (x s).2

section

variable {P : State → Prop} {x y : Steps}

theorem AlongSteps.mono {Q : State → Prop} (h : AlongSteps Q x y)
    (hPQ : ∀ s, P s → Q s) :
    AlongSteps P x y := fun s hs => h s (hPQ s hs)

theorem along_answersOf (h : AlongSteps P x y) :
    Along P Grows (answersOf x) (answersOf y) := by
  intro s hs
  obtain ⟨heq, hlater⟩ := h s hs
  unfold answersOf
  rw [← heq]
  refine ⟨rfl, ?_⟩
  split
  · rename_i hr
    rw [hr] at hlater
    exact hlater
  · rename_i hr
    rw [hr] at hlater
    exact hlater
  · rename_i hr
    rw [hr] at hlater
    exact hlater

theorem alongSteps_follow (hP : Stage P) (guarded : Bool)
    {step step' : StepAct Answer} (hstep : Along P Grows step step')
    (hrest : AlongSteps P x y) :
    AlongSteps P (follow guarded step x) (follow guarded step' y) := by
  intro s hs
  obtain ⟨heq, hlater⟩ := hstep s hs
  unfold follow
  rw [← heq]
  cases hr : step s with
  | ok a t =>
      rw [hr] at hlater
      obtain ⟨heq', hlater'⟩ := hrest t (hP.closed hs hlater)
      dsimp only
      rw [← heq']
      exact ⟨rfl, hlater.trans hlater'⟩
  | error e t =>
      rw [hr] at hlater
      cases e with
      | returned c => exact ⟨rfl, hlater⟩
      | failed f a =>
          -- only a guarded list goes on after a fault
          cases guarded with
          | false => exact ⟨rfl, hlater⟩
          | true =>
              obtain ⟨heq', hlater'⟩ := hrest t (hP.closed hs hlater)
              show _ = _ ∧ _
              simp only [if_true]
              rw [← heq']
              exact ⟨rfl, hlater.trans hlater'⟩

end

/-! ## Walks -/

section Walks

variable {b : Backdrop}

theorem blind_modifyItems (id : Nat) (f : List Item → List Item) :
    Blind b (adjust (·.modifyItems id f)) := blind_adjust fun _ => rfl

theorem blind_advanceList (shape : Item) (coordinate d : Nat) :
    Blind b (advanceList shape coordinate d) := by
  induction d with
  | zero => exact blind_pure _
  | succ d ih =>
      refine (blind_componentAt _ d).bind fun i =>
        (blind_needNumbers _).bind fun _ => ?_
      refine (blind_modifyItems _ _).bind fun _ =>
        (blind_componentAt shape d).bind fun extent => ?_
      refine mirrors_ite (blind_pure _) ?_
      exact (blind_modifyItems _ _).bind fun _ => ih

variable {P : State → Prop} {x y : Steps}

theorem along_walkFrom (hP : Stage P) (h : AlongSteps P x y) (shape : Item)
    (rank : Nat) (total : Number) (coordinate n : Nat) (linear : Number)
    (out : Array Answer) :
    Along P Grows (walkFrom shape rank total coordinate x n linear out)
      (walkFrom shape rank total coordinate y n linear out) := by
  induction n generalizing linear out with
  | zero => exact .ite (.throw hP.onward _) (.pure hP.onward _)
  | succ n ih =>
      refine .ite ?_ (.pure hP.onward _)
      refine .bind hP.onward (along_answersOf h) fun answers => ?_
      have hadvance := hP.along fun b =>
        blind_advanceList (b := b) shape coordinate rank
      exact .bind hP.onward (along_asStep hadvance) fun _ => ih _ _

/-- The scope in which a walk starts. -/
def Scope.entered (s : Scope) (index : Index) : Scope :=
  { s with
    lists := s.lists.push ⟨index.map .value, false⟩
    walk? := some s.lists.size }

theorem withCoordinate_eq (index : Index) (act : Nat → StepAct Answer)
    (h : State) :
    withCoordinate index act h =
      match act h.caller.lists.size (modifyScope h (·.entered index)) with
      | .ok a h' => .ok a (modifyScope h' ({ · with walk? := h.caller.walk? }))
      | .error stop h' =>
        .error stop (modifyScope h' ({ · with walk? := h.caller.walk? })) := rfl

theorem along_withCoordinate (hP : Stage P) (index : Index)
    {act act' : Nat → StepAct Answer}
    (hact : ∀ coordinate, Along P Grows (act coordinate) (act' coordinate)) :
    Along P Grows (withCoordinate index act) (withCoordinate index act') := by
  intro s hs
  have henter : Grows s (modifyScope s (·.entered index)) := .of_same rfl rfl
  obtain ⟨heq, hlater⟩ := hact s.caller.lists.size _ (hP.closed hs henter)
  rw [withCoordinate_eq, withCoordinate_eq, ← heq]
  refine ⟨rfl, ?_⟩
  split
  · rename_i hr
    rw [hr] at hlater
    exact (henter.trans hlater).trans (.of_same rfl rfl)
  · rename_i hr
    rw [hr] at hlater
    exact (henter.trans hlater).trans (.of_same rfl rfl)

/-- A walk, where the body is called in the states in `P`. -/
theorem along_walkBox (hP : Stage P) (h : AlongSteps P x y) (shape : Term) :
    Along P Grows (walkBox shape x) (walkBox shape y) := by
  refine .bind hP.onward (along_asStep (hP.along fun b => blind_evalItem shape))
    fun l => ?_
  refine .bind hP.onward (along_asStep (hP.along fun b => blind_readList l))
    fun box => ?_
  refine .bind hP.onward
    (along_asStep (hP.along fun b => blind_needNumbers box)) fun _ => ?_
  refine along_withCoordinate hP _ fun coordinate => ?_
  exact .bind hP.onward (along_walkFrom hP h l _ _ coordinate _ _ _) fun out =>
    .pure hP.onward _

end Walks

/-! ## Calls of a body -/

section Calls

variable {P : State → Prop} {x y : Steps}

theorem housed_bindParams {h : State} (hh : State.Housed h)
    (params : List String) {args : List Object}
    (hargs : ∀ o ∈ args, o.Below h.drivers.size) :
    State.Housed (modifyScope h (bindParams · params args)) := by
  induction params generalizing h args with
  | nil => exact hh
  | cons p ps ih =>
      have harg : (args.headD .nothing).Below h.drivers.size := by
        cases args with
        | nil => exact Object.below_of_drivers rfl
        | cons o os => exact hargs o List.mem_cons_self
      exact ih (hh.bind harg p) fun o ho => hargs o (List.mem_of_mem_tail ho)

/-- What a name stands for has only drivers that were made. -/
theorem State.Housed.below {h : State} (hh : State.Housed h) {name : String}
    {o : Object} (ho : h.caller.names.lookup name = some o) :
    o.Below h.drivers.size := by
  obtain ⟨before, after, heq, -⟩ := List.lookup_eq_some_iff.mp ho
  exact hh (name, o) (by simp [heq])

/-- The state in which a body starts. -/
def entered (params : List String) (args : List Object) (t : TileLists)
    (h : State) : State :=
  modifyScope h fun s =>
    bindParams (s.bind Scope.tileName (.context t)) params args

theorem grows_entered {h : State} (hh : State.Housed h) (params : List String)
    {args : List Object} (hargs : ∀ o ∈ args, o.Below h.drivers.size)
    (t : TileLists) :
    Grows h (entered params args t h) := by
  have htile :
      State.Housed (modifyScope h (·.bind Scope.tileName (.context t))) :=
    hh.bind (Object.below_of_drivers rfl) Scope.tileName
  exact .of_drivers rfl fun _ => housed_bindParams htile params hargs

/-- The state that a body leaves, with its answers kept and the name of the tile
standing again for what it stood for before. -/
def restored (before? : Option Object) (answers : List Answer)
    (h : State) : State :=
  modifyScope h fun s =>
    let s := match before? with
      | some o => s.bind Scope.tileName o
      | none => s.unbind Scope.tileName
    { s with tiles := s.tiles.push answers }

theorem callBody_eq (params : List String) (args : List Object) (body : Steps)
    (t : TileLists) (h : State) :
    callBody params args body t h =
      match body (entered params args t h) with
      | (o, h') =>
        let h' := restored (h.caller.names.lookup Scope.tileName) o.answers h'
        match o.stop? with
        | none => .ok .finished h'
        | some (.returned v) => .ok v.completion h'
        | some (.failed f _) => .error f h' := rfl

theorem grows_restored {before? : Option Object} {h : State}
    (hbefore : ∀ o, before? = some o → o.Below h.drivers.size)
    (answers : List Answer) :
    Grows h (restored before? answers h) := by
  cases before? with
  | none => exact .of_drivers rfl fun hh => hh.unbind Scope.tileName
  | some o =>
    exact .of_drivers rfl fun hh => hh.bind (hbefore o rfl) Scope.tileName

theorem along_callBody (hP : Stage P) (params : List String)
    {args : List Object} (hargs : ∀ s, P s → ∀ o ∈ args, o.Below s.drivers.size)
    (h : AlongSteps P x y) (t : TileLists) :
    Along P Grows (callBody params args x t) (callBody params args y t) := by
  intro s hs
  have henter := grows_entered (hP.housed hs) params (hargs s hs) t
  obtain ⟨heq, hlater⟩ := h _ (hP.closed hs henter)
  rw [callBody_eq, callBody_eq, ← heq]
  refine ⟨rfl, ?_⟩
  cases hr : x (entered params args t s) with
  | mk o s' =>
      rw [hr] at hlater
      have hcall := henter.trans hlater
      -- what the name stood for was found before the call, and its drivers
      -- are still there
      have hbefore : ∀ o, s.caller.names.lookup Scope.tileName = some o →
          o.Below s'.drivers.size :=
        fun o ho => ((hP.housed hs).below ho).mono hcall.size_le
      have hafter := grows_restored hbefore o.answers
      dsimp only
      split
      · exact hcall.trans hafter
      · exact hcall.trans hafter
      · exact hcall.trans hafter

theorem along_tileBody (hP : Stage P) (domain tile : Item)
    (params : List String) {args : List Object}
    (hargs : ∀ s, P s → ∀ o ∈ args, o.Below s.drivers.size)
    (h : AlongSteps P x y) (t : Tile) :
    Along P Grows (tileBody domain tile params args x t)
      (tileBody domain tile params args y t) := by
  refine .bind hP.onward (hP.along fun b => blind_fixedCopy domain)
    fun domain => ?_
  refine .bind hP.onward (hP.along fun b => blind_fixedCopy tile)
    fun nominal => ?_
  exact along_callBody hP params hargs h _

end Calls

/-! ## What runs and launches start from -/

section Inputs

variable {b : Backdrop}

theorem tracks_findAll (names : List String) :
    Tracks b (List.map (Object.under b)) (findAll names) (findAll names) := by
  induction names with
  | nil => exact mirrors_pure _
  | cons name names ih =>
      exact (tracks_find name).bind fun o _ => ih.bind fun os _ =>
        mirrors_pure _

theorem blind_evalLaunch (l : LaunchTerm) : Blind b (evalLaunch l) := by
  cases l with
  | named name =>
      refine blind_find name fun o => ?_
      cases o <;> simp [Object.under]
  | given domain tile => simp [evalLaunch]

theorem blind_readLaunch (domain tile : Item) :
    Blind b (readLaunch domain tile) := by
  simp [readLaunch]

theorem blind_readNumbers (domain tile : Item) :
    Blind b (readNumbers domain tile) :=
  (blind_readLaunch domain tile).bind fun _ =>
    (blind_needNumbers _).bind fun _ => blind_pure _

theorem looks_readList (i : Item) : Looks (readList i) :=
  (looks_present i).bind fun _ => looks_settle _

theorem looks_readLaunch (domain tile : Item) :
    Looks (readLaunch domain tile) :=
  (looks_readList domain).bind fun _ => (looks_readList tile).bind fun _ =>
    looks_pure _

/-- What a run starts from: its driver, the two lists of its launch,
and its arguments. -/
def runInputs (driver : String) (domain tile : Term) (args : List String) :
    Act Scope (Nat × Item × Item × List Object) := do
  let o ← find driver
  let (domain, tile) ← evalLaunch (.given domain tile)
  let args ← findAll args
  let id ← driverId o
  return (id, domain, tile, args)

theorem runOn_eq (driver : String) (domain tile : Term)
    (params args : List String) (body : Steps) :
    runOn driver domain tile params args body = collectTiles (do
      let (id, domain, tile, args) ← runInputs driver domain tile args
      Host.runOver id (readLaunch domain tile) (readNumbers domain tile)
        (tileBody domain tile params args body)) := by
  simp [runOn, runInputs]

/-- What a launch starts from: its kernel, the two lists of the launch,
and its arguments. -/
def launchInputs (kernel : String) (launch : LaunchTerm) (args : List String) :
    Act Scope (Kernel × Item × Item × List Object) := do
  let (domain, tile) ← evalLaunch launch
  let o ← find kernel
  let args ← findAll args
  match o with
  | .kernel k => return (k, domain, tile, args)
  | _ => throw .unsupported

theorem launchKernel_eq (call : Program → Steps) (kernel : String)
    (launch : LaunchTerm) (args : List String) :
    launchKernel call kernel launch args = collectTiles (do
      let (k, domain, tile, args) ← launchInputs kernel launch args
      Host.launchOver k.options (readLaunch domain tile)
        (readNumbers domain tile)
        (tileBody domain tile k.params args (call k.body))) := by
  simp only [launchKernel, launchInputs, bind_assoc]
  congr
  funext lists
  congr
  funext o
  congr
  funext os
  cases o <;> rfl

theorem tracks_runInputs (driver : String) (domain tile : Term)
    (args : List String) :
    Tracks b (fun q =>
      (b.driver q.1, q.2.1, q.2.2.1, q.2.2.2.map (Object.under b)))
      (runInputs driver domain tile args)
        (runInputs driver domain tile args) := by
  refine (tracks_find driver).bind fun o _ =>
    (blind_evalLaunch _).bind fun lists => ?_
  refine (tracks_findAll args).bind fun os _ => ?_
  cases o with
  | driver id => exact fun _ => rfl
  | _ => exact fun _ => rfl

theorem tracks_launchInputs (kernel : String) (launch : LaunchTerm)
    (args : List String) :
    Tracks b (fun q =>
      (b.kernel q.1, q.2.1, q.2.2.1, q.2.2.2.map (Object.under b)))
      (launchInputs kernel launch args) (launchInputs kernel launch args) := by
  refine (blind_evalLaunch _).bind fun lists =>
    (tracks_find kernel).bind fun o _ => ?_
  refine (tracks_findAll args).bind fun os _ => ?_
  cases o with
  | kernel k => exact fun _ => rfl
  | _ => exact fun _ => rfl

end Inputs

/-! ## Runs -/

section Runs

variable {x y : Steps} {h : State}

theorem lt_of_backdrop {n id : Nat} (hid : (backdrop n h).driver id = id) :
    id < n := by
  simp only [backdrop] at hid
  split at hid <;> omega

theorem below_of_map {n : Nat} {os : List Object}
    (h : os.map (Object.under (backdrop n h)) = os) :
    ∀ o ∈ os, o.Below n := by
  intro o ho
  have hfixed := List.map_eq_map_iff.mp (h.trans (List.map_id _).symm) o ho
  exact Object.under_backdrop.mp hfixed

/-- The states after the driver was marked as running. -/
structure Inside (id : Nat) (h s : State) : Prop where
  running_iff : ∀ id', (s.driver id').phase = .running ↔
    id' = id ∨ (h.driver id').phase = .running
  housed : State.Housed s
  wired : State.Wired h → State.Wired s

theorem stage_later (h : State) :
    Stage fun s => Grows h s ∧ State.Housed s where
  housed := fun hs => hs.2
  closed := fun hs hg => ⟨hs.1.trans hg, hg.housed hs.2⟩

theorem Inside.of_grows {id : Nat} (hid : id < h.drivers.size) {s : State}
    (hg : Grows (h.setPhase id .running) s) (hs : State.Housed s) :
    Inside id h s := by
  refine ⟨fun id' => ?_, hs, fun hw => hg.wired (Grows.wired_setPhase.mpr hw)⟩
  rw [hg.running_iff]
  by_cases heq : id' = id
  · subst heq
    rw [Host.driver_setPhase hid]
    simp
  · rw [Host.driver_setPhase_of_ne h (Ne.symm heq)]
    simp [heq]

/-- **A run, where the body is called with its driver running.** -/
theorem along_runOver {id : Nat} (hh : State.Housed h)
    (hid : id < h.drivers.size) (hbody : AlongSteps (Inside id h) x y)
    (domain tile : Item) (params : List String) {args : List Object}
    (hargs : ∀ o ∈ args, o.Below h.drivers.size) :
    Host.runOver id (readLaunch domain tile) (readNumbers domain tile)
        (tileBody domain tile params args x) h =
      Host.runOver id (readLaunch domain tile) (readNumbers domain tile)
        (tileBody domain tile params args y) h ∧
    Grows h (Host.runOver id (readLaunch domain tile) (readNumbers domain tile)
      (tileBody domain tile params args x) h).state := by
  have hQ := stage_later (h.setPhase id .running)
  have hinside : ∀ s, Grows (h.setPhase id .running) s ∧ State.Housed s →
      Inside id h s :=
    fun s hs => .of_grows hid hs.1 hs.2
  have hlarge : ∀ s, Grows (h.setPhase id .running) s ∧ State.Housed s →
      ∀ o ∈ args, o.Below s.drivers.size := by
    intro s hs o ho
    refine (hargs o ho).mono ?_
    simpa [Host.setPhase] using hs.1.size_le
  refine Host.along_runOver ignoresReports_grows (stage_later h).onward
    hQ.onward ?_ ?_
    (looks_readLaunch domain tile)
    (hQ.along fun b => blind_readNumbers domain tile)
    (fun t => along_tileBody hQ domain tile params hlarge
      (hbody.mono hinside) t) h ⟨.refl h, hh⟩
  · intro s hs _
    refine ⟨hs.1.enter hid, ?_⟩
    simpa [State.Housed, State.Below, Host.setPhase] using hs.2
  · exact fun s s' hs hidle hg => .leave (hid.trans_le hs.1.size_le) hidle hg

theorem Inside.congr {id : Nat} {h' s : State} (hs : Inside id h' s)
    (hsame : ∀ id', (h'.driver id').phase = .running ↔
      (h.driver id').phase = .running)
    (hwired : State.Wired h → State.Wired h') : Inside id h s :=
  ⟨fun id' => by rw [hs.running_iff, hsame], hs.housed,
    fun hw => hs.wired (hwired hw)⟩

/-- The state in which a run starts to gather what its bodies answer. -/
def cleared (h : State) : State := modifyScope h ({ · with tiles := #[] })

theorem grows_collectTiles {act act' : Act Scope Unit}
    (hact : act (cleared h) = act' (cleared h) ∧
      Grows (cleared h) (act (cleared h)).state) :
    collectTiles act h = collectTiles act' h ∧
      Grows h (collectTiles act h).state := by
  obtain ⟨heq, hlater⟩ := hact
  have hclear : Grows h (cleared h) := .of_same rfl rfl
  unfold collectTiles
  rw [← cleared, ← heq]
  refine ⟨rfl, ?_⟩
  cases hr : act (cleared h) with
  | ok _ h' =>
      rw [hr] at hlater
      exact (hclear.trans hlater).trans (.of_same rfl rfl)
  | error f h' =>
      rw [hr] at hlater
      exact (hclear.trans hlater).trans (.of_same rfl rfl)

/-- What a run or launch step starts from was made, and the drivers are as
before the step. -/
theorem drivers_of_inputs {α : Type} {v : Backdrop → α → α} {x : Act Scope α}
    (hx : ∀ b, Tracks b (v b) x x) (hh : State.Housed h) {a : α} {s : State}
    (hr : x (cleared h) = .ok a s) :
    s.drivers = h.drivers ∧ State.Housed s := by
  obtain ⟨hkept, hbelow⟩ := kept_of_tracks (h := cleared h) hx hh
  rw [hr] at hkept hbelow
  have hdrivers : s.drivers = h.drivers := hkept.drivers
  refine ⟨hdrivers, ?_⟩
  rw [State.Housed, hdrivers]
  exact hbelow

/-- The driver of a run was made, and so were the drivers among its
arguments. -/
theorem below_of_runInputs (hh : State.Housed h) {driver : String}
    {domain tile : Term} {args : List String}
    {q : Nat × Item × Item × List Object} {s : State}
    (hr : runInputs driver domain tile args (cleared h) = .ok q s) :
    q.1 < s.drivers.size ∧ ∀ o ∈ q.2.2.2, o.Below s.drivers.size := by
  have hinputs := fun b => tracks_runInputs (b := b) driver domain tile args
  -- before the backdrop that tells made drivers from others, the
  -- inputs are the same
  have hfixed := fixed_of_tracks (h := cleared h) hinputs hh hr
  rw [(drivers_of_inputs hinputs hh hr).1]
  exact ⟨lt_of_backdrop (h := cleared h) (congrArg Prod.fst hfixed),
    below_of_map (congrArg (fun r => r.2.2.2) hfixed)⟩

theorem below_of_launchInputs (hh : State.Housed h) {kernel : String}
    {launch : LaunchTerm} {args : List String}
    {q : Kernel × Item × Item × List Object} {s : State}
    (hr : launchInputs kernel launch args (cleared h) = .ok q s) :
    ∀ o ∈ q.2.2.2, o.Below s.drivers.size := by
  have hinputs := fun b => tracks_launchInputs (b := b) kernel launch args
  have hfixed := fixed_of_tracks (h := cleared h) hinputs hh hr
  rw [(drivers_of_inputs hinputs hh hr).1]
  exact below_of_map (congrArg (fun r => r.2.2.2) hfixed)

/-- **A run step, where the body is called with its driver running.** -/
theorem along_runOn (hh : State.Housed h) {driver : String} {domain tile : Term}
    {args : List String}
    (hbody : ∀ q s, runInputs driver domain tile args (cleared h) = .ok q s →
      AlongSteps (Inside q.1 h) x y) (params : List String) :
    runOn driver domain tile params args x h = runOn driver domain tile params
      args y h ∧ Grows h (runOn driver domain tile params args x h).state := by
  have hinputs := fun b => tracks_runInputs (b := b) driver domain tile args
  rw [runOn_eq, runOn_eq]
  refine grows_collectTiles
    (grows_bind (tidy_of_tracks hinputs (cleared h) hh).2 ?_)
  intro q s hr
  obtain ⟨hdrivers, hs⟩ := drivers_of_inputs hinputs hh hr
  obtain ⟨hid, hargs⟩ := below_of_runInputs hh hr
  have hlater := (tidy_of_tracks hinputs (cleared h) hh).2
  rw [hr] at hlater
  refine along_runOver hs hid
    ((hbody q s hr).mono fun t ht => ht.congr (fun id' => ?_) hlater.wired) _ _
    params hargs
  rw [Host.driver, hdrivers, Host.driver]

/-- **A launch step, where the body is called with the new driver running.** -/
theorem along_launchKernel (hh : State.Housed h) {call call' : Program → Steps}
    {kernel : String} {launch : LaunchTerm} {args : List String}
    (hbody : ∀ q s, launchInputs kernel launch args (cleared h) = .ok q s →
      AlongSteps (Inside h.drivers.size h) (call q.1.body) (call' q.1.body)) :
    launchKernel call kernel launch args h = launchKernel call' kernel
      launch args h ∧
      Grows h (launchKernel call kernel launch args h).state := by
  have hinputs := fun b => tracks_launchInputs (b := b) kernel launch args
  rw [launchKernel_eq, launchKernel_eq]
  refine grows_collectTiles
    (grows_bind (tidy_of_tracks hinputs (cleared h) hh).2 ?_)
  intro q s hr
  obtain ⟨hdrivers, hs⟩ := drivers_of_inputs hinputs hh hr
  have hargs := below_of_launchInputs hh hr
  have hmade := (tidy_newDriver q.1.options s hs).2
  refine grows_bind hmade fun id s₁ hid => ?_
  have hnew : Grows s s₁ := by
    rw [hid] at hmade
    exact hmade
  obtain rfl : id = s.drivers.size := by cases hid; rfl
  have hlt : s.drivers.size < s₁.drivers.size := by cases hid; simp
  refine along_runOver (hnew.housed hs) hlt ?_ _ _ q.1.params
    fun o ho => (hargs o ho).mono hnew.size_le
  have hlater := (tidy_of_tracks hinputs (cleared h) hh).2
  rw [hr] at hlater
  rw [hdrivers]
  refine (hbody q s hr).mono fun t ht =>
    ht.congr (fun id' => ?_) fun hw => hnew.wired (hlater.wired hw)
  rw [hnew.running_iff, Host.driver, hdrivers, Host.driver]

end Runs

/-! ## Other steps with bodies -/

/-- Binds a kernel to a name. -/
def keepKernel (as? : Option String) (k : Kernel) : StepAct Answer := do
  bindName as? (.kernel k)
  return .done

/-- The answers of a body as one. -/
def gathered (body : Steps) : StepAct Answer := do
  let answers ← answersOf body
  return .list answers

/-- The answers of a body as one, if a value is as expected. -/
def whenSame (value : Term) (expected? : Option Number) (body : Steps) :
    StepAct Answer := do
  let v ← asStep (eval value)
  let v ← asStep (shown v)
  if expected? = some v then gathered body else return .skipped

section Others

variable {P : State → Prop} {x y : Steps}

theorem tidy_keepKernel (as? : Option String) (k : Kernel) :
    Tidy (keepKernel as? k) := by
  intro h _
  refine grows_bind (Grows.bindName (Object.below_of_drivers rfl) as?)
    fun _ h₁ _ => ?_
  exact ⟨rfl, .refl h₁⟩

theorem along_gathered (hP : Stage P) (h : AlongSteps P x y) :
    Along P Grows (gathered x) (gathered y) :=
  .bind hP.onward (along_answersOf h) fun _ => .pure hP.onward _

theorem along_whenSame (hP : Stage P) (h : AlongSteps P x y) (value : Term)
    (expected? : Option Number) :
    Along P Grows (whenSame value expected? x)
      (whenSame value expected? y) := by
  refine .bind hP.onward (along_asStep (hP.along fun b => blind_eval value))
    fun v => ?_
  refine .bind hP.onward (along_asStep (hP.along fun b => blind_shown v))
    fun v => ?_
  exact .ite (along_gathered hP h) (.pure hP.onward _)

end Others

/-! ## Programs -/

/-- The first step of a program and what follows it. `call` is what launches do
with the body of a kernel. -/
def Program.first? (call : Program → Steps) :
    Program → Option (StepAct Answer × Program)
  | done => none
  | step s rest => some (s.perform, rest)
  | walk shape body rest => some (walkBox shape (body.exec call false), rest)
  | run driver domain tile params args body rest =>
    some (runOn driver domain tile params args (body.exec call false), rest)
  | kernel as? options params body rest =>
    some (keepKernel as? ⟨options, params, body⟩, rest)
  | launch name l args rest => some (launchKernel call name l args, rest)
  | ifSame value expected? body rest =>
    some (whenSame value expected? (body.exec call false), rest)
  | attempt body rest => some (gathered (body.exec call true), rest)
  | giveBack _ => none

/-- The bodies that the first step of a program calls. Those of kernels run
where they are launched. -/
def Program.bodies : Program → List Program
  | walk _ body _ | run _ _ _ _ _ body _ | ifSame _ _ body _ | attempt body _ =>
    [body]
  | _ => []

/-- The steps lead to later states. -/
abbrev TidySteps (x : Steps) : Prop := AlongSteps State.Housed x x

theorem stage_housed : Stage State.Housed := ⟨id, fun hs hg => hg.housed hs⟩

theorem TidySteps.inside {x : Steps} (hx : TidySteps x) (id : Nat) (h : State) :
    AlongSteps (Inside id h) x x := hx.mono fun _ hs => hs.housed

section Programs

variable {call : Program → Steps}

/-- A program is its first step and then the rest. -/
theorem Program.exec_of_first {p rest : Program} {x : StepAct Answer}
    (hp : p.first? call = some (x, rest)) (guarded : Bool) :
    p.exec call guarded = follow guarded x (rest.exec call guarded) := by
  cases p with
  | done => cases hp
  | giveBack c => cases hp
  | _ =>
      cases hp
      rfl

/-- The first step leads to a later state, if bodies do. -/
theorem tidy_first (hcall : ∀ body, TidySteps (call body)) {p rest : Program}
    {x : StepAct Answer}
    (hbodies : ∀ body ∈ p.bodies, ∀ guarded, TidySteps (body.exec call guarded))
    (hp : p.first? call = some (x, rest)) : Tidy x := by
  cases p with
  | done => cases hp
  | giveBack c => cases hp
  | step s rest =>
      cases hp
      exact tidy_perform s
  | walk shape body rest =>
      cases hp
      exact along_walkBox stage_housed
        (hbodies body List.mem_cons_self false) shape
  | run driver domain tile params args body rest =>
      cases hp
      have hbody := hbodies body List.mem_cons_self false
      exact fun h hh => along_runOn hh (fun q _ _ => hbody.inside q.1 h) params
  | kernel as? options params body rest =>
      cases hp
      exact tidy_keepKernel as? ⟨options, params, body⟩
  | launch name l args rest =>
      cases hp
      exact fun h hh => along_launchKernel hh fun q _ _ =>
        (hcall q.1.body).inside _ h
  | ifSame value expected? body rest =>
      cases hp
      exact along_whenSame stage_housed (hbodies body List.mem_cons_self false)
        value expected?
  | attempt body rest =>
      cases hp
      exact along_gathered stage_housed (hbodies body List.mem_cons_self true)

theorem tidySteps_of_first (hcall : ∀ body, TidySteps (call body))
    {p rest : Program} {x : StepAct Answer}
    (hp : p.first? call = some (x, rest))
    (hbodies : ∀ body ∈ p.bodies, ∀ guarded, TidySteps (body.exec call guarded))
    (hrest : ∀ guarded, TidySteps (rest.exec call guarded)) (guarded : Bool) :
    TidySteps (p.exec call guarded) := by
  rw [Program.exec_of_first hp]
  exact alongSteps_follow stage_housed guarded (tidy_first hcall hbodies hp)
    (hrest guarded)

/-- **A script leads to a later state**, if what launches do with
bodies does. -/
theorem tidySteps_exec (hcall : ∀ body, TidySteps (call body)) (p : Program)
    (guarded : Bool) :
    TidySteps (p.exec call guarded) := by
  induction p generalizing guarded with
  | done => exact fun h _ => ⟨rfl, .refl h⟩
  | giveBack c => exact fun h _ => ⟨rfl, .refl h⟩
  | step s rest ih =>
    exact tidySteps_of_first hcall rfl (by simp [Program.bodies]) ih guarded
  | walk shape body rest ihbody ihrest =>
      exact tidySteps_of_first hcall rfl
        (by simpa [Program.bodies] using ihbody) ihrest guarded
  | run driver domain tile params args body rest ihbody ihrest =>
      exact tidySteps_of_first hcall rfl
        (by simpa [Program.bodies] using ihbody) ihrest guarded
  | kernel as? options params body rest _ ihrest =>
      exact tidySteps_of_first hcall rfl (by simp [Program.bodies])
        ihrest guarded
  | launch name l args rest ih =>
      exact tidySteps_of_first hcall rfl (by simp [Program.bodies]) ih guarded
  | ifSame value expected? body rest ihbody ihrest =>
      exact tidySteps_of_first hcall rfl
        (by simpa [Program.bodies] using ihbody) ihrest guarded
  | attempt body rest ihbody ihrest =>
      exact tidySteps_of_first hcall rfl
        (by simpa [Program.bodies] using ihbody) ihrest guarded

end Programs

/-- **Every script leads to a later state**, however deep its
launches may nest. -/
theorem tidySteps_execute (depth : Nat) (p : Program) (guarded : Bool) :
    TidySteps (p.execute depth guarded) := by
  induction depth generalizing p guarded with
  | zero => exact tidySteps_exec (fun _ h _ => ⟨rfl, .refl h⟩) p guarded
  | succ depth ih => exact tidySteps_exec (fun body => ih body false) p guarded

end TileGrid.Script
