import TileGrid.Proofs.Script.Bodies

/-!
# Calls of bodies, and the faults they raise

That a step calls its body in a state is said without a second account of the
step: a body that differs from the one given only in that state makes a
difference. This holds of every state in which one of the five steps that take a
body comes to call it, as a fault of the body ends the step. A run on a driver
at rest that ends in a busy driver passes on what its body raised, in a state
that the run called it in.
-/

namespace TileGrid.Script

open State

/-! ## Calls -/

/-- The step calls its body in the state `s`: another body that differs from it
only there makes a difference. As a body that fails ends the step with its
fault, every call does (`callsAt_of_failing`). -/
def CallsAt (act : Steps → StepAct Answer) (body : Steps)
    (h s : State) : Prop :=
  ∃ other : Steps, (∀ s', s' ≠ s → other s' = body s') ∧
    act other h ≠ act body h

/-- If it only matters what bodies do in the states in `P`, the body is
only called there. -/
theorem CallsAt.mem {act : Steps → StepAct Answer} {body : Steps} {h s : State}
    {P : State → Prop} (hcall : CallsAt act body h s)
    (hbody : AlongSteps P body body)
    (hact : ∀ other, AlongSteps P body other → act body h = act other h) :
    P s := by
  obtain ⟨other, hother, hne⟩ := hcall
  by_contra hs
  refine hne (hact other fun s' hs' => ?_).symm
  have hsame : other s' = body s' := hother s' fun heq => hs (heq ▸ hs')
  rw [hsame]
  exact hbody s' hs'

open Classical in
/-- The body, but for one state in which it fails with the fault. -/
noncomputable def failingAt (body : Steps) (s : State)
    (f : Fault) : Steps := fun s' =>
  if s' = s then (⟨[], some (.ofFault f)⟩, s') else body s'

theorem failingAt_self (body : Steps) (s : State) (f : Fault) :
    failingAt body s f s = (⟨[], some (.ofFault f)⟩, s) := if_pos rfl

theorem failingAt_of_ne (body : Steps) {s s' : State} (hne : s' ≠ s)
    (f : Fault) :
    failingAt body s f s' = body s' := if_neg hne

/-- A step that ends with whatever its body raises in a state calls it there. -/
theorem callsAt_of_failing {act : Steps → StepAct Answer} {body : Steps}
    {h s : State}
    (hfail : ∀ f, ∃ a h', act (failingAt body s f) h =
      .error (.failed f a) h') :
    CallsAt act body h s := by
  by_contra hnot
  have hsame : ∀ f, act (failingAt body s f) h = act body h := by
    intro f
    by_contra hne
    exact hnot ⟨failingAt body s f,
      fun s' hs' => failingAt_of_ne body hs' f, hne⟩
  -- it would end with two faults at once
  obtain ⟨a, h₁, hbusy⟩ := hfail .busy
  obtain ⟨b, h₂, hendless⟩ := hfail .endless
  rw [hsame] at hbusy hendless
  cases hbusy.symm.trans hendless

/-! ## Faults that bodies raise -/

section Faults

theorem neverBusy_components (v : Number) :
    Host.NeverBusy (settle v.components : Act Scope Shape) := by
  intro h f h' hr
  unfold Number.components at hr
  split at hr
  · cases hr
  · cases hr
    decide

theorem neverBusy_readLaunch (domain tile : Item) :
    Host.NeverBusy (readLaunch domain tile) := by
  have hlist : ∀ i, Host.NeverBusy (readList i) := fun i =>
    Host.NeverBusy.bind (Host.NeverBusy.of_ok fun h => ⟨_, h, rfl⟩) fun v =>
      neverBusy_components v
  exact (hlist domain).bind fun _ => (hlist tile).bind fun _ =>
    Host.NeverBusy.of_ok fun h => ⟨_, h, rfl⟩

theorem neverBusy_readNumbers (domain tile : Item) :
    Host.NeverBusy (readNumbers domain tile) := by
  refine (neverBusy_readLaunch domain tile).bind fun l =>
    Host.NeverBusy.bind ?_ fun _ => ?_
  · intro h f h' hr
    unfold needNumbers at hr
    split at hr
    · cases hr
      decide
    · cases hr
  · exact Host.NeverBusy.of_ok fun h => ⟨_, h, rfl⟩

theorem neverBusy_fixedCopy (i : Item) : Host.NeverBusy (fixedCopy i) := by
  refine Host.NeverBusy.bind ?_ fun is => Host.NeverBusy.of_ok fun h =>
    ⟨_, _, rfl⟩
  cases i with
  | value x =>
    exact (neverBusy_components x).bind fun xs => Host.NeverBusy.of_ok fun h =>
      ⟨_, h, rfl⟩
  | list id => exact Host.NeverBusy.of_ok fun h => ⟨_, h, rfl⟩

variable {params : List String} {args : List Object} {body : Steps}
  {fault : Fault}

/-- A call of a body that fails in one state more. -/
theorem callBody_failingAt (params : List String) (args : List Object)
    (body : Steps) (s : State) (f : Fault) (t : TileLists) (h : State) :
    callBody params args (failingAt body s f) t h =
      callBody params args body t h ∨
    ∃ h', callBody params args (failingAt body s f) t h = .error f h' := by
  by_cases heq : entered params args t h = s
  · right
    rw [callBody_eq, heq, failingAt_self]
    exact ⟨_, rfl⟩
  · left
    rw [callBody_eq, failingAt_of_ne body heq, callBody_eq]

/-- Two actions that start alike and go on alike, but for a fault. -/
theorem error_or_eq_bind {α β : Type} {x : Act Scope α} {k l : α → Act Scope β}
    {f : Fault} (hk : ∀ a h, l a h = k a h ∨ ∃ h', l a h = .error f h')
    (h : State) :
    (x >>= l) h = (x >>= k) h ∨ ∃ h', (x >>= l) h = .error f h' := by
  show EStateM.bind x l h = EStateM.bind x k h ∨
      ∃ h', EStateM.bind x l h = .error f h'
  unfold EStateM.bind
  cases x h with
  | error g h₁ => exact .inl rfl
  | ok a h₁ => exact hk a h₁

theorem mayFail_tileBody (domain tile : Item) (params : List String)
    (args : List Object) (body : Steps) (s : State) (f : Fault) :
    Host.MayFail f (tileBody domain tile params args body)
      (tileBody domain tile params args (failingAt body s f)) := by
  intro t h
  refine error_or_eq_bind (fun domain h => ?_) h
  refine error_or_eq_bind (fun nominal h => ?_) h
  exact callBody_failingAt params args body s f _ h

/-- The calls that a run makes of the steps of its body: for a tile that it
comes to, with copies of the two lists of its launch. -/
inductive BodyCall (id : Nat) (domain tile : Item) (params : List String)
    (args : List Object) (body : Steps) (h : State) : State → Prop
  | enter {t : Tile} {s s₁ s₂ : State} {copy nominal : Item}
      (hcall : Host.RunCall id (readLaunch domain tile)
        (readNumbers domain tile)
        (tileBody domain tile params args body) h t s)
      (hdomain : fixedCopy domain s = .ok copy s₁)
      (hnominal : fixedCopy tile s₁ = .ok nominal s₂) :
      BodyCall id domain tile params args body h
        (entered params args { TileLists.ofTile t with
          domain := copy, nominal } s₂)

/-- A run depends on each call of the steps of its body. -/
theorem BodyCall.stops {id : Nat} {domain tile : Item} {h s : State}
    (hcall : BodyCall id domain tile params args body h s) (f : Fault) :
    ∃ h', Host.runOver id (readLaunch domain tile) (readNumbers domain tile)
      (tileBody domain tile params args (failingAt body s f)) h =
        .error f h' := by
  cases hcall with
  | enter hcall hdomain hnominal =>
      refine hcall.stops (mayFail_tileBody domain tile params args body _ f) ?_
      unfold tileBody
      rw [bind_of_ok hdomain, bind_of_ok hnominal, callBody_eq, failingAt_self]
      exact ⟨_, rfl⟩

/-- What a call of a body fails with is what its steps stopped for. -/
theorem stop_of_callBody {t : TileLists} {h h' : State}
    (hrun : callBody params args body t h = .error fault h') :
    ∃ a, (body (entered params args t h)).1.stop? = some (.failed fault a) := by
  rw [callBody_eq] at hrun
  cases hbody : body (entered params args t h) with
  | mk o s' =>
      rw [hbody] at hrun
      dsimp only at hrun
      cases hstop : o.stop? with
      | none =>
          rw [hstop] at hrun
          cases hrun
      | some stop =>
          cases stop with
          | returned c =>
              rw [hstop] at hrun
              cases hrun
          | failed f a =>
              rw [hstop] at hrun
              cases hrun
              exact ⟨a, rfl⟩

/-- **A run on a driver at rest ends in a busy driver only if its
body does.** -/
theorem busy_of_body {id : Nat} {domain tile : Item} {h h' : State}
    (hidle : (h.driver id).phase = .idle)
    (hrun : Host.runOver id (readLaunch domain tile) (readNumbers domain tile)
      (tileBody domain tile params args body) h = .error fault h')
      (hbusy : fault.sort = .busy) :
    ∃ s a, BodyCall id domain tile params args body h s ∧
      (body s).1.stop? = some (.failed fault a) := by
  obtain ⟨t, s₁, s₂, hcall, hfail⟩ :=
    Host.busy_of_runOver hidle (neverBusy_readLaunch domain tile)
    (neverBusy_readNumbers domain tile) hrun hbusy
  unfold tileBody at hfail
  -- the copies of the two lists do not fail in this way
  rcases error_of_bind hfail with hcopy | ⟨copy, h₁, hdomain, hfail⟩
  · exact absurd hbusy (neverBusy_fixedCopy _ _ _ _ hcopy)
  rcases error_of_bind hfail with hcopy | ⟨nominal, h₂, hnominal, hfail⟩
  · exact absurd hbusy (neverBusy_fixedCopy _ _ _ _ hcopy)
  obtain ⟨a, hstop⟩ := stop_of_callBody hfail
  exact ⟨_, a, .enter hcall hdomain hnominal, hstop⟩

theorem error_of_collectTiles {act : Act Scope Unit} {a : Answer} {h h' : State}
    (hr : collectTiles act h = .error (.failed fault a) h') :
    ∃ h₁, act (cleared h) = .error fault h₁ := by
  unfold collectTiles at hr
  rw [← cleared] at hr
  cases hact : act (cleared h) with
  | ok u h₁ =>
      rw [hact] at hr
      cases hr
  | error f h₁ =>
      rw [hact] at hr
      cases hr
      exact ⟨h₁, rfl⟩

/-- The state that a run leaves, with what outer runs gathered. -/
def regathered (h h' : State) : State :=
  modifyScope h' ({ · with tiles := h.caller.tiles })

theorem collectTiles_of_error {act : Act Scope Unit} {h h' : State}
    (hr : act (cleared h) = .error fault h') :
    collectTiles act h =
      .error (.failed fault (.runFailed fault h'.caller.tiles.toList))
        (regathered h h') := by
  unfold collectTiles
  rw [← cleared, hr]
  rfl

end Faults

/-! ## Every call is one -/

section Calls

variable {driver name : String} {domain tile : Term} {params args : List String}
  {l : LaunchTerm}
  {body : Steps} {h s₀ s : State}

theorem callsAt_runOn {q : Nat × Item × Item × List Object}
    (hinputs : runInputs driver domain tile args (cleared h) = .ok q s₀)
    (hcall : BodyCall q.1 q.2.1 q.2.2.1 params q.2.2.2 body s₀ s) :
    CallsAt (runOn driver domain tile params args) body h s := by
  refine callsAt_of_failing fun f => ?_
  obtain ⟨h', hstop⟩ := hcall.stops f
  rw [runOn_eq]
  exact ⟨_, _, collectTiles_of_error ((bind_of_ok hinputs _).trans hstop)⟩

theorem callsAt_launchKernel {q : Kernel × Item × Item × List Object}
    (hinputs : launchInputs name l args (cleared h) = .ok q s₀)
    (hcall : BodyCall s₀.drivers.size q.2.1 q.2.2.1 q.1.params q.2.2.2 body
      (s₀.withDriver q.1.options) s) :
    CallsAt (fun steps => launchKernel (fun _ => steps) name l args)
      body h s := by
  refine callsAt_of_failing fun f => ?_
  obtain ⟨h', hstop⟩ := hcall.stops f
  rw [← Host.launchOver_eq] at hstop
  rw [launchKernel_eq]
  exact ⟨_, _, collectTiles_of_error ((bind_of_ok hinputs _).trans hstop)⟩

theorem answersOf_failingAt (body : Steps) (s : State) (f : Fault) :
    answersOf (failingAt body s f) s = .error (.ofFault f) s := by
  unfold answersOf
  rw [failingAt_self]
  rfl

theorem gathered_failingAt (body : Steps) (s : State) (f : Fault) :
    gathered (failingAt body s f) s = .error (.ofFault f) s :=
  bind_of_error (answersOf_failingAt body s f) _

theorem callsAt_gathered (body : Steps) (h : State) :
    CallsAt gathered body h h :=
  callsAt_of_failing fun f => ⟨_, _, gathered_failingAt body h f⟩

theorem callsAt_whenSame {value : Term} {expected? : Option Number}
    {v x : Number} (heval : asStep (eval value) h = .ok v s₀)
    (hshown : asStep (shown v) s₀ = .ok x s) (hsame : expected? = some x) :
    CallsAt (whenSame value expected?) body h s := by
  refine callsAt_of_failing fun f => ⟨.failed f, s, ?_⟩
  unfold whenSame
  rw [bind_of_ok heval, bind_of_ok hshown, if_pos hsame]
  exact gathered_failingAt body s f

/-- The calls that a walk makes of its body, one for each visit that it
comes to. -/
inductive WalkCall (shape : Item) (rank : Nat) (total : Number)
    (coordinate : Nat) (body : Steps) :
    Nat → Number → State → State → Prop
  | here {n : Nat} {linear : Number} {h : State}
      (hlt : linear.lt total = true) :
      WalkCall shape rank total coordinate body (n + 1) linear h h
  | later {n : Nat} {linear : Number} {h h₁ h₂ s : State}
      {answers : List Answer} (hlt : linear.lt total = true)
      (hr : answersOf body h = .ok answers h₁)
      (hadvance : asStep (advanceList shape coordinate rank) h₁ = .ok () h₂)
      (hlater : WalkCall shape rank total coordinate body n (linear + 1) h₂ s) :
      WalkCall shape rank total coordinate body (n + 1) linear h s

/-- A walk depends on each call of its body. -/
theorem WalkCall.stops {shape : Item} {rank coordinate n : Nat}
    {total linear : Number}
    (hcall : WalkCall shape rank total coordinate body n linear h s) (f : Fault)
    (out : Array Answer) :
    ∃ h', walkFrom shape rank total coordinate (failingAt body s f) n
      linear out h = .error (.ofFault f) h' := by
  induction hcall generalizing out with
  | @here n linear h hlt =>
      unfold walkFrom
      rw [if_pos hlt, bind_of_error (answersOf_failingAt body h f)]
      exact ⟨h, rfl⟩
  | @later n linear h h₁ h₂ s answers hlt hr hadvance _ ih =>
      unfold walkFrom
      rw [if_pos hlt]
      -- the walk comes to the state for the first time here, or later
      by_cases heq : h = s
      · subst heq
        rw [bind_of_error (answersOf_failingAt body h f)]
        exact ⟨h, rfl⟩
      · have hsame : answersOf (failingAt body s f) h = .ok answers h₁ := by
          rw [← hr, answersOf, answersOf, failingAt_of_ne body heq]
        rw [bind_of_ok hsame, bind_of_ok hadvance]
        exact ih _

theorem callsAt_walkBox {shape : Term} {i : Item} {box : Shape}
    {s₁ s₂ s₃ : State} (hitem : asStep (evalItem shape) h = .ok i s₁)
    (hread : asStep (readList i) s₁ = .ok box s₂)
    (hneed : asStep (needNumbers box) s₂ = .ok () s₃)
    (hcall : WalkCall i box.length box.size s₃.caller.lists.size body
      Number.safeLimit 0
      (modifyScope s₃ (·.entered box.corner)) s) :
    CallsAt (walkBox shape) body h s := by
  refine callsAt_of_failing fun f => ?_
  obtain ⟨h', hstop⟩ := hcall.stops f #[]
  unfold walkBox
  rw [bind_of_ok hitem, bind_of_ok hread, bind_of_ok hneed, withCoordinate_eq,
    bind_of_error hstop]
  exact ⟨_, _, rfl⟩

end Calls

end TileGrid.Script
