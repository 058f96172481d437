import TileGrid.Script.Exec
import TileGrid.Proofs.RunFold
import TileGrid.Proofs.Script.Changing

/-!
# Whole scripts keep the layout

Walks, runs and launches execute bodies any number of times, and a body may fail
at any step. By induction over the program, and over how deep launches nest,
every script leads from a state on its layout to one on an extension of it
(`safeSteps_execute`).
-/

namespace TileGrid.Script

open State

variable {w : Layout}

/-! ## Lists of steps -/

/-- The steps lead to a state on an extension of the layout, however
they end. -/
def SafeSteps (w : Layout) (steps : Steps) : Prop :=
  ∀ w' h, w.Extends w' → Follows w' h → ∃ u, w'.Extends u ∧
    Follows u (steps h).2

theorem safe_answersOf {steps : Steps} (hsteps : SafeSteps w steps) :
    Safe w (answersOf steps) := by
  intro u h hu hh
  obtain ⟨v, hv, hh'⟩ := hsteps u h hu hh
  unfold answersOf
  split
  · rename_i answers h' heq
    rw [heq] at hh'
    exact ⟨v, hv, hh', trivial⟩
  · rename_i heq
    rw [heq] at hh'
    exact ⟨v, hv, hh'⟩
  · rename_i heq
    rw [heq] at hh'
    exact ⟨v, hv, hh'⟩

theorem safeSteps_follow (guarded : Bool) {step : StepAct Answer} {rest : Steps}
    (hstep : Safe w step) (hrest : SafeSteps w rest) :
    SafeSteps w (follow guarded step rest) := by
  intro u h hu hh
  have hland := hstep u h hu hh
  unfold follow
  cases hr : step h with
  | ok a h' =>
      rw [hr] at hland
      obtain ⟨v, hv, hh', -⟩ := hland
      obtain ⟨x, hx, hh''⟩ := hrest v h' (hu.trans hv) hh'
      exact ⟨x, hv.trans hx, hh''⟩
  | error s h' =>
      rw [hr] at hland
      obtain ⟨v, hv, hh'⟩ := hland
      cases s with
      | returned c => exact ⟨v, hv, hh'⟩
      | failed f a =>
          -- only a guarded list goes on after a fault
          cases guarded with
          | false => exact ⟨v, hv, hh'⟩
          | true =>
              obtain ⟨x, hx, hh''⟩ := hrest v h' (hu.trans hv) hh'
              exact ⟨x, hv.trans hx, hh''⟩

/-! ## Walks -/

theorem safe_modifyItems (id : Nat) (f : List Item → List Item) :
    Safe w (adjust (·.modifyItems id f)) := safe_adjust fun _ => rfl

theorem safe_advanceList (shape : Item) (coordinate d : Nat) :
    Safe w (advanceList shape coordinate d) := by
  induction d with
  | zero => exact safe_pure _
  | succ d ih =>
      refine (safe_componentAt _ d).bind fun i =>
        (safe_needNumbers _).bind fun _ => ?_
      refine (safe_modifyItems _ _).bind fun _ =>
        (safe_componentAt shape d).bind fun extent => ?_
      refine keeps_ite (safe_pure _) ?_
      exact (safe_modifyItems _ _).bind fun _ => ih

theorem safe_walkFrom {body : Steps} (hbody : SafeSteps w body) (shape : Item)
    (rank : Nat) (total : Number) (coordinate n : Nat) (linear : Number)
    (out : Array Answer) :
    Safe w (walkFrom shape rank total coordinate body n linear out) := by
  induction n generalizing linear out with
  | zero => exact keeps_ite (keeps_throw _) (safe_pure _)
  | succ n ih =>
      refine keeps_ite ?_ (safe_pure _)
      refine (safe_answersOf hbody).bind fun answers => ?_
      exact Safe.bind (safe_advanceList shape coordinate rank).asStep fun _ =>
        ih _ _

theorem safe_withCoordinate (index : Index) {act : Nat → StepAct Answer}
    (hact : ∀ coordinate, Safe w (act coordinate)) :
    Safe w (withCoordinate index act) := by
  intro u h hu hh
  have henter : Follows u (modifyScope h fun s =>
      { s with
        lists := s.lists.push ⟨index.map .value, false⟩
        walk? := some h.caller.lists.size }) :=
    hh.of_same rfl rfl
  have hland := hact h.caller.lists.size u _ hu henter
  unfold withCoordinate
  dsimp only
  split
  · rename_i a h' heq
    rw [heq] at hland
    exact hland.ok_of_same rfl rfl fun _ _ => trivial
  · rename_i s h' heq
    rw [heq] at hland
    exact hland.error_of_same rfl rfl

theorem safe_walkBox (shape : Term) {body : Steps} (hbody : SafeSteps w body) :
    Safe w (walkBox shape body) := by
  refine Safe.bind (safe_evalItem shape).asStep fun l => ?_
  refine Safe.bind (safe_readList l).asStep fun box => ?_
  refine Safe.bind (safe_needNumbers box).asStep fun _ => ?_
  refine safe_withCoordinate _ fun coordinate => ?_
  exact (safe_walkFrom hbody l _ _ coordinate _ _ _).bind fun out => safe_pure _

/-! ## Bodies -/

theorem Follows.bindParams {h : State} (hh : Follows w h) (params : List String)
    {args : List Object} (hargs : ∀ o ∈ args, o.Fits w) :
    Follows w (modifyScope h (bindParams · params args)) := by
  induction params generalizing h args with
  | nil => exact hh
  | cons p ps ih =>
      have harg : (args.headD .nothing).Fits w := by
        cases args with
        | nil => exact Object.fits_of_tensors rfl
        | cons o os => exact hargs o List.mem_cons_self
      exact ih (hh.bind p harg) fun o ho => hargs o (List.mem_of_mem_tail ho)

/-- The name of the tile stands again for what it stood for before. -/
theorem Follows.restoreTile {h : State} (hh : Follows w h)
    {before? : Option Object} (hbefore : ∀ o, before? = some o → o.Fits w)
    (answers : List Answer) :
    Follows w (modifyScope h fun s =>
      let s := match before? with
        | some o => s.bind Scope.tileName o
        | none => s.unbind Scope.tileName
      { s with tiles := s.tiles.push answers }) := by
  cases before? with
  | none => exact (hh.unbind Scope.tileName).of_same rfl rfl
  | some o => exact (hh.bind Scope.tileName (hbefore o rfl)).of_same rfl rfl

theorem safe_callBody (params : List String) {args : List Object}
    (hargs : ∀ o ∈ args, o.Fits w) {body : Steps} (hbody : SafeSteps w body)
    (t : TileLists) :
    Safe w (callBody params args body t) := by
  intro u h hu hh
  have htile : (Object.context t).Fits u := Object.fits_of_tensors rfl
  have henter := (hh.bind Scope.tileName htile).bindParams params fun o ho =>
    (hargs o ho).mono hu
  obtain ⟨v, hv, hh'⟩ := hbody u _ hu henter
  -- what the name stood for was found before the call, and fits all
  -- that came after
  have hbefore : ∀ o, h.caller.names.lookup Scope.tileName = some o →
      o.Fits v := by
    intro o ho
    exact (hh.find (by rw [Scope.find, ho])).mono hv
  have hafter := hh'.restoreTile hbefore
  unfold callBody
  dsimp only
  split
  · exact ⟨v, hv, hafter _, trivial⟩
  · exact ⟨v, hv, hafter _, trivial⟩
  · exact ⟨v, hv, hafter _⟩

theorem safe_tileBody (domain tile : Item) (params : List String)
    {args : List Object} (hargs : ∀ o ∈ args, o.Fits w) {body : Steps}
    (hbody : SafeSteps w body) (t : Tile) :
    Safe w (tileBody domain tile params args body t) := by
  refine (safe_fixedCopy domain).bind fun domain =>
    (safe_fixedCopy tile).bind fun nominal => ?_
  exact safe_callBody params hargs hbody _

theorem keeps_findAll (names : List String) :
    Keeps w (findAll names) fun w os => ∀ o ∈ os, o.Fits w := by
  induction names generalizing w with
  | nil => exact keeps_pure fun _ _ o ho => absurd ho List.not_mem_nil
  | cons name names ih =>
      refine (keeps_find name).bind fun u o _ ho =>
        ih.bind fun v os hv hos => ?_
      refine keeps_pure fun x hx =>
        List.forall_mem_cons.mpr ⟨?_, fun o' ho' => ?_⟩
      · exact ho.mono (hv.trans hx)
      · exact (hos o' ho').mono hx

/-! ## Runs -/

section Runs

variable {given current : Act Scope Launch} {body : Tile → Act Scope Completion}

theorem Follows.emit {h : State} (hh : Follows w h) (id : Nat) (e : Event) :
    Follows w (h.emit id e) := by
  have hsame := Host.agree_emit h id e
  exact hh.of_same hsame.storages.symm (by rw [hsame.caller])

theorem Follows.warnRejected {h : State} (hh : Follows w h) (tile : Index)
    (rejection : Option Fault) : Follows w (h.warnRejected tile rejection) := by
  cases rejection with
  | none => exact hh
  | some reason => exact hh.of_same rfl rfl

theorem safe_runTiles (id : Nat) (hcurrent : Safe w current)
    (hbody : ∀ t, Safe w (body t)) (counts : Shape) (n : Nat)
    (cursor : Option Index) (finished : Number) :
    Safe w (Host.runTiles id current counts body n cursor finished) := by
  induction n generalizing cursor finished with
  | zero =>
      cases cursor with
      | none => exact safe_pure _
      | some index => exact keeps_throw _
  | succ n ih =>
      cases cursor with
      | none => exact safe_pure _
      | some index =>
          intro u h hu hh
          have hland := hcurrent u h hu hh
          unfold Host.runTiles
          cases hl : current h with
          | error fault h' =>
              rw [hl] at hland
              exact hland
          | ok l h' =>
              rw [hl] at hland
              obtain ⟨v, hv, hh', -⟩ := hland
              refine Lands.mono ?_ hv
              dsimp only
              generalize l.tileAt counts index = t
              -- the body starts after the event of its tile
              have hdone := hbody t v _ (hu.trans hv)
                (hh'.emit id (.tile t.id t.offset t.shape))
              cases hr : body t (h'.emit id (.tile t.id t.offset t.shape)) with
              | error fault h'' =>
                  rw [hr] at hdone
                  exact hdone
              | ok c h'' =>
                  rw [hr] at hdone
                  obtain ⟨x, hx, hh'', -⟩ := hdone
                  cases c with
                  | finished =>
                    exact (ih _ _ x h'' ((hu.trans hv).trans hx) hh'').mono hx
                  | deferred rejection =>
                    exact ⟨x, hx, hh''.warnRejected index rejection⟩

theorem safe_runOver (id : Nat) (hgiven : Safe w given)
    (hcurrent : Safe w current) (hbody : ∀ t, Safe w (body t)) :
    Safe w (Host.runOver id given current body) := by
  intro u h hu hh
  unfold Host.runOver
  cases (h.driver id).phase with
  | running => exact ⟨u, .refl u, hh⟩
  | idle =>
      have hland := hgiven u h hu hh
      dsimp only
      cases hl : given h with
      | error fault h' =>
          rw [hl] at hland
          exact hland
      | ok l h' =>
          rw [hl] at hland
          obtain ⟨v, hv, hh', -⟩ := hland
          dsimp only
          cases l.counts with
          | error fault => exact ⟨v, hv, hh'⟩
          | ok counts =>
              have hrunning : Follows v (h'.setPhase id .running) :=
                hh'.of_same rfl rfl
              have hstart := hrunning.emit id (.start l.domain l.tile counts)
              have hrun := safe_runTiles id hcurrent hbody counts
                counts.stepBound counts.first? 0 v
                _ (hu.trans hv) hstart
              refine Lands.mono ?_ hv
              dsimp only
              split
              · rename_i tiles h'' heq
                rw [heq] at hrun
                obtain ⟨x, hx, hh'', -⟩ := hrun
                exact ⟨x, hx, (hh''.emit id _).of_same rfl rfl, trivial⟩
              · rename_i a h'' heq
                rw [heq] at hrun
                obtain ⟨x, hx, hh''⟩ := hrun
                exact ⟨x, hx, (hh''.emit id _).of_same rfl rfl⟩

theorem safe_launchOver (options : Options) (hgiven : Safe w given)
    (hcurrent : Safe w current) (hbody : ∀ t, Safe w (body t)) :
    Safe w (Host.launchOver options given current body) :=
  (safe_newDriver options).bind fun id => safe_runOver id hgiven hcurrent hbody

end Runs

theorem Safe.collectTiles {act : Act Scope Unit} (hact : Safe w act) :
    Safe w (collectTiles act) := by
  intro u h hu hh
  have hland := hact u (modifyScope h ({ · with tiles := #[] })) hu
    (hh.of_same rfl rfl)
  unfold Script.collectTiles
  dsimp only
  split
  · rename_i h' heq
    rw [heq] at hland
    exact hland.ok_of_same rfl rfl fun _ _ => trivial
  · rename_i f h' heq
    rw [heq] at hland
    exact hland.error_of_same rfl rfl

@[simp] theorem safe_readLaunch (domain tile : Item) :
    Safe w (readLaunch domain tile) := by
  simp [readLaunch]

@[simp] theorem safe_readNumbers (domain tile : Item) :
    Safe w (readNumbers domain tile) := by
  simp [readNumbers]

@[simp] theorem safe_evalLaunch (l : LaunchTerm) : Safe w (evalLaunch l) := by
  cases l with
  | named name =>
      refine (safe_find name).bind fun o => ?_
      cases o <;> simp
  | given domain tile => simp [evalLaunch]

theorem safe_runOn (driver : String) (domain tile : Term)
    (params args : List String) {body : Steps} (hbody : SafeSteps w body) :
    Safe w (runOn driver domain tile params args body) := by
  refine Safe.collectTiles ?_
  refine (safe_find driver).bind fun o =>
    (safe_evalLaunch _).bind fun lists => ?_
  refine (keeps_findAll args).bind fun u args hu hargs =>
    (safe_driverId o).bind fun id => ?_
  refine safe_runOver id (safe_readLaunch _ _) (safe_readNumbers _ _)
    fun t => ?_
  exact safe_tileBody _ _ params hargs
    (fun u' h hu' => hbody u' h (hu.trans hu')) t

theorem safe_launchKernel {call : Program → Steps}
    (hcall : ∀ body, SafeSteps w (call body)) (kernel : String) (l : LaunchTerm)
    (args : List String) :
    Safe w (launchKernel call kernel l args) := by
  refine Safe.collectTiles ?_
  refine (safe_evalLaunch l).bind fun lists =>
    (safe_find kernel).bind fun o => ?_
  refine (keeps_findAll args).bind fun u args hu hargs => ?_
  cases o with
  | kernel k =>
      refine safe_launchOver k.options (safe_readLaunch _ _)
        (safe_readNumbers _ _) fun t => ?_
      exact safe_tileBody _ _ k.params hargs
        (fun u' h hu' => hcall k.body u' h (hu.trans hu')) t
  | _ => exact keeps_throw _

/-! ## Programs -/

/-- **A script leads to a state on an extension of the layout**, if what
launches do with bodies does. -/
theorem safeSteps_exec {call : Program → Steps}
    (hcall : ∀ body, SafeSteps w (call body)) (p : Program) (guarded : Bool) :
    SafeSteps w (p.exec call guarded) := by
  induction p generalizing guarded with
  | done => exact fun u h _ hh => ⟨u, .refl u, hh⟩
  | giveBack c => exact fun u h _ hh => ⟨u, .refl u, hh⟩
  | step s rest ih =>
    exact safeSteps_follow guarded (safe_perform s) (ih guarded)
  | walk shape body rest ihbody ihrest =>
      exact safeSteps_follow guarded (safe_walkBox shape (ihbody false))
        (ihrest guarded)
  | run driver domain tile params args body rest ihbody ihrest =>
      have hrun := safe_runOn driver domain tile params args (ihbody false)
      exact safeSteps_follow guarded hrun (ihrest guarded)
  | kernel as? options params body rest _ ihrest =>
      -- the body is only kept here; it runs where the kernel is launched
      refine safeSteps_follow guarded ?_ (ihrest guarded)
      exact (safe_bindName as? (Object.fits_of_tensors rfl)).bind fun _ =>
        safe_pure _
  | launch name l args rest ih =>
      exact safeSteps_follow guarded (safe_launchKernel hcall name l args)
        (ih guarded)
  | ifSame value expected? body rest ihbody ihrest =>
      refine safeSteps_follow guarded ?_ (ihrest guarded)
      refine Safe.bind (safe_eval value).asStep fun v =>
        Safe.bind (safe_shown v).asStep fun v => ?_
      refine keeps_ite ?_ (safe_pure _)
      exact (safe_answersOf (ihbody false)).bind fun _ => safe_pure _
  | attempt body rest ihbody ihrest =>
      refine safeSteps_follow guarded ?_ (ihrest guarded)
      exact (safe_answersOf (ihbody true)).bind fun _ => safe_pure _

/-- **Every script keeps the layout**, however deep its launches may nest. -/
theorem safeSteps_execute (depth : Nat) (p : Program) (guarded : Bool) :
    SafeSteps w (p.execute depth guarded) := by
  induction depth generalizing p guarded with
  | zero =>
      -- a launch is refused and changes nothing
      exact safeSteps_exec (fun _ u h _ hh => ⟨u, .refl u, hh⟩) p guarded
  | succ depth ih => exact safeSteps_exec (fun body => ih body false) p guarded

end TileGrid.Script
