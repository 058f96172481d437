import TileGrid.Proofs.Reports
import TileGrid.Proofs.Script.Alike
import TileGrid.Proofs.Script.Moments

/-!
# Programs that differ in options and environment only

From states that are the same once stripped, two programs that are the same once
stripped answer and leave the same, once stripped (`alikeSteps_execute`). Steps
that call bodies do so if the bodies do. Runs are followed side by side, any
number of them at once (`sideBySide_akin`).
-/

namespace TileGrid.Script

open State

/-! ## Lists of steps -/

/-- From states that are the same once stripped, the steps come to the
same, once stripped. -/
def AlikeSteps (x y : Steps) : Prop :=
  ∀ h₁ h₂ : State, Akin h₁ h₂ → (x h₁).1.bare = (y h₂).1.bare ∧
    Akin (x h₁).2 (y h₂).2

theorem AlikeSteps.symm {x y : Steps} (h : AlikeSteps x y) :
    AlikeSteps y x := by
  intro h₁ h₂ hh
  obtain ⟨hout, hs⟩ := h h₂ h₁ hh.symm
  exact ⟨hout.symm, hs.symm⟩

theorem AlikeSteps.trans {x y z : Steps} (hxy : AlikeSteps x y)
    (hyz : AlikeSteps y z) :
    AlikeSteps x z := by
  intro h₁ h₂ hh
  obtain ⟨hout, hs⟩ := hxy h₁ h₂ hh
  obtain ⟨hout', hs'⟩ := hyz h₂ h₂ rfl
  exact ⟨hout.trans hout', hs.trans hs'⟩

theorem Answer.bareAll_eq_map (as : List Answer) :
    Answer.bareAll as = as.map Answer.bare := by
  induction as with
  | nil => rfl
  | cons a as ih => exact congrArg (a.bare :: ·) ih

theorem Answer.bareTiles_eq_map (ts : List (List Answer)) :
    Answer.bareTiles ts = ts.map Answer.bareAll := by
  induction ts with
  | nil => rfl
  | cons as ts ih => exact congrArg (Answer.bareAll as :: ·) ih

/-- Steps go on in both, or stop in both for the same reason. -/
inductive Stop.Alike : Option Stop → Option Stop → Prop
  | none : Stop.Alike none none
  | failed (f : Fault) {a b : Answer} (hab : a.bare = b.bare) :
    Stop.Alike (some (.failed f a)) (some (.failed f b))
  | returned (v : Returned) : Stop.Alike (some (.returned v))
      (some (.returned v))

theorem Stop.alike_of_bare {s t : Option Stop}
    (hst : s.map Stop.bare = t.map Stop.bare) :
    Stop.Alike s t := by
  cases s with
  | none =>
      cases t with
      | none => exact .none
      | some t => cases hst
  | some s =>
      cases t with
      | none => cases hst
      | some t =>
          have hst := Option.some.inj hst
          cases s with
          | failed f a =>
              cases t with
              | failed f' b =>
                  obtain ⟨rfl, hab⟩ := Stop.failed.inj hst
                  exact .failed f hab
              | returned c => cases hst
          | returned c =>
              cases t with
              | failed f a => cases hst
              | returned c' =>
                  obtain rfl := Stop.returned.inj hst
                  exact .returned c

section Steps

variable {x y : Steps}

theorem alike_answersOf (h : AlikeSteps x y) :
    Alike Stop.bare Answer.bareAll (answersOf x) (answersOf y) := by
  intro h₁ h₂ hh
  obtain ⟨hout, hs⟩ := h h₁ h₂ hh
  unfold answersOf
  generalize x h₁ = r₁ at hout hs
  generalize y h₂ = r₂ at hout hs
  obtain ⟨⟨answers₁, stop₁⟩, s₁⟩ := r₁
  obtain ⟨⟨answers₂, stop₂⟩, s₂⟩ := r₂
  obtain ⟨hanswers, hstop⟩ := Outcome.mk.inj hout
  cases Stop.alike_of_bare hstop with
  | none => exact .ok hanswers hs
  | failed f hab => exact .error rfl hs
  | returned c => exact .error rfl hs

theorem alikeSteps_follow (guarded : Bool) {step step' : StepAct Answer}
    (hstep : Alike Stop.bare Answer.bare step step') (hrest : AlikeSteps x y) :
    AlikeSteps (follow guarded step x) (follow guarded step' y) := by
  intro h₁ h₂ hh
  have hfirst := hstep h₁ h₂ hh
  -- what the rest comes to after an answer that is the same once stripped
  have hgo : ∀ {a b : Answer} {s t : State}, a.bare = b.bare → Akin s t →
      ((x s).1.prepend a).bare = ((y t).1.prepend b).bare ∧
      Akin (x s).2 (y t).2 := by
    intro a b s t hab hst
    obtain ⟨hout, hs⟩ := hrest s t hst
    obtain ⟨hanswers, hstop⟩ := Outcome.mk.inj hout
    refine ⟨?_, hs⟩
    show Outcome.mk (a.bare :: Answer.bareAll (x s).1.answers) _ =
      ⟨b.bare :: Answer.bareAll (y t).1.answers, _⟩
    rw [hab, hanswers]
    exact congrArg (Outcome.mk _) hstop
  unfold follow
  generalize step h₁ = r₁ at hfirst
  generalize step' h₂ = r₂ at hfirst
  cases hfirst with
  | ok hv hs => exact hgo hv hs
  | @error e e' s t hw hs =>
      have hstop : Stop.Alike (some e) (some e') :=
        Stop.alike_of_bare (congrArg some hw)
      cases hstop with
      | returned c => exact ⟨rfl, hs⟩
      | failed f hab =>
          cases guarded with
          | true => exact hgo hab hs
          | false =>
            exact ⟨congrArg (fun stop => Outcome.mk [] (some stop)) hw, hs⟩

end Steps

/-! ## Walks -/

section Walks

variable {x y : Steps}

theorem alike_walkFrom (h : AlikeSteps x y) (shape : Item) (rank : Nat)
    (total : Number) (coordinate n : Nat) (linear : Number)
    {out out' : Array Answer}
    (hout : out.map Answer.bare = out'.map Answer.bare) :
    Alike Stop.bare (Array.map Answer.bare)
      (walkFrom shape rank total coordinate x n linear out)
      (walkFrom shape rank total coordinate y n linear out') := by
  induction n generalizing linear out out' with
  | zero => exact alike_ite (alike_throw _) (alike_pure hout)
  | succ n ih =>
      refine alike_ite ?_ (alike_pure hout)
      refine (alike_answersOf h).bind fun as bs has => ?_
      have hadvance := alike_of_blind fun b =>
        blind_advanceList (b := b) shape coordinate rank
      refine (alike_asStep hadvance).bind_same fun _ => ih _ ?_
      rw [Array.map_push, Array.map_push, hout]
      exact congrArg ((out'.map Answer.bare).push ·) (congrArg Answer.list has)

theorem alike_withCoordinate (index : Index) {act act' : Nat → StepAct Answer}
    (hact : ∀ coordinate, Alike Stop.bare Answer.bare (act coordinate)
      (act' coordinate)) :
    Alike Stop.bare Answer.bare (withCoordinate index act)
      (withCoordinate index act') := by
  intro h₁ h₂ hh
  have hlists : h₁.caller.lists = h₂.caller.lists := by
    have hlists := congrArg (fun h : State => h.caller.lists) hh
    exact hlists
  have houter : h₁.caller.walk? = h₂.caller.walk? := by
    have houter := congrArg (fun h : State => h.caller.walk?) hh
    exact houter
  rw [withCoordinate_eq, withCoordinate_eq, ← hlists, ← houter]
  -- the same list is made on both sides, and the walk around is in
  -- place again after it
  have henter : Akin (modifyScope h₁ (·.entered index))
      (modifyScope h₂ (·.entered index)) :=
    congrArg (modifyScope · (·.entered index)) hh
  have hleave : ∀ {s t : State}, Akin s t →
      Akin (modifyScope s ({ · with walk? := h₁.caller.walk? }))
        (modifyScope t ({ · with walk? := h₁.caller.walk? })) :=
    fun hst => congrArg
      (modifyScope · ({ · with walk? := h₁.caller.walk? })) hst
  have hbody := hact h₁.caller.lists.size _ _ henter
  generalize act h₁.caller.lists.size _ = r₁ at hbody
  generalize act' h₁.caller.lists.size _ = r₂ at hbody
  cases hbody with
  | ok hv hs => exact .ok hv (hleave hs)
  | error hw hs => exact .error hw (hleave hs)

theorem alike_walkBox (h : AlikeSteps x y) (shape : Term) :
    Alike Stop.bare Answer.bare (walkBox shape x) (walkBox shape y) := by
  refine (alike_asStep (alike_of_blind fun b => blind_evalItem shape)).bind_same
    fun l => ?_
  refine (alike_asStep (alike_of_blind fun b => blind_readList l)).bind_same
    fun box => ?_
  refine (alike_asStep (alike_of_blind fun b =>
    blind_needNumbers box)).bind_same fun _ => ?_
  refine alike_withCoordinate _ fun coordinate => ?_
  refine (alike_walkFrom h l _ _ coordinate _ _ rfl).bind fun out out' hout =>
    alike_pure ?_
  show Answer.list (Answer.bareAll out.toList) =
      Answer.list (Answer.bareAll out'.toList)
  rw [Answer.bareAll_eq_map, Answer.bareAll_eq_map, ← Array.toList_map,
    ← Array.toList_map, hout]

end Walks

/-! ## Calls of a body -/

section Calls

variable {x y : Steps}

theorem Scope.bare_bindParams (params : List String) {args args' : List Object}
    (hargs : args.map Object.bare = args'.map Object.bare) {s s' : Scope}
    (hs : s.bare = s'.bare) :
    (bindParams s params args).bare = (bindParams s' params args').bare := by
  induction params generalizing s s' args args' with
  | nil => exact hs
  | cons p ps ih =>
      refine ih ?_ ?_
      · rw [List.map_tail, List.map_tail, hargs]
      · have hhead : (args.headD .nothing).bare =
            (args'.headD .nothing).bare := by
          cases args with
          | nil =>
              cases args' with
              | nil => rfl
              | cons o os => cases hargs
          | cons o os =>
              cases args' with
              | nil => cases hargs
              | cons o' os' => exact (List.cons.inj hargs).1
        rw [Scope.bare_bind, Scope.bare_bind, hs, hhead]

theorem akin_entered (params : List String) {args args' : List Object}
    (hargs : args.map Object.bare = args'.map Object.bare) (t : TileLists)
    {h₁ h₂ : State} (hh : Akin h₁ h₂) :
    Akin (entered params args t h₁) (entered params args' t h₂) := by
  have hcaller : h₁.caller.bare = h₂.caller.bare := congrArg Host.caller hh
  have hbind : (h₁.caller.bind Scope.tileName (.context t)).bare =
      (h₂.caller.bind Scope.tileName (.context t)).bare := by
    rw [Scope.bare_bind, Scope.bare_bind, hcaller]
  exact hh.modifyScope (Scope.bare_bindParams params hargs hbind)

theorem akin_restored {before before' : Option Object}
    (hbefore : before.map Object.bare = before'.map Object.bare)
    {as bs : List Answer} (has : Answer.bareAll as = Answer.bareAll bs)
    {h₁ h₂ : State} (hh : Akin h₁ h₂) :
    Akin (restored before as h₁) (restored before' bs h₂) := by
  have hcaller : h₁.caller.bare = h₂.caller.bare := congrArg Host.caller hh
  have hpush : ∀ {s s' : Scope}, s.bare = s'.bare →
      Scope.bare { s with tiles := s.tiles.push as } =
        Scope.bare { s' with tiles := s'.tiles.push bs } := by
    intro s s' hs
    have htiles : s.tiles.map Answer.bareAll = s'.tiles.map Answer.bareAll :=
      congrArg Scope.tiles hs
    show ({ s.bare with tiles := (s.tiles.push as).map Answer.bareAll } :
        Scope) = { s'.bare with tiles := (s'.tiles.push bs).map Answer.bareAll }
    rw [Array.map_push, Array.map_push, htiles, has, hs]
  refine hh.modifyScope (hpush ?_)
  cases before with
  | none =>
      cases before' with
      | none =>
          show (h₁.caller.unbind Scope.tileName).bare =
              (h₂.caller.unbind Scope.tileName).bare
          rw [Scope.bare_unbind, Scope.bare_unbind, hcaller]
      | some o => cases hbefore
  | some o =>
      cases before' with
      | none => cases hbefore
      | some o' =>
          show (h₁.caller.bind Scope.tileName o).bare =
              (h₂.caller.bind Scope.tileName o').bare
          rw [Scope.bare_bind, Scope.bare_bind, hcaller,
            Option.some.inj hbefore]

theorem alike_callBody (params : List String) {args args' : List Object}
    (hargs : args.map Object.bare = args'.map Object.bare) (h : AlikeSteps x y)
    (t : TileLists) :
    Alike id id (callBody params args x t) (callBody params args' y t) := by
  intro h₁ h₂ hh
  have hbefore : (h₁.caller.names.lookup Scope.tileName).map Object.bare =
      (h₂.caller.names.lookup Scope.tileName).map Object.bare := by
    have hnames :=
      congrArg (fun h : State => h.caller.names.lookup Scope.tileName) hh
    rw [← Scope.lookup_bare, ← Scope.lookup_bare]
    exact hnames
  obtain ⟨hout, hs⟩ := h _ _ (akin_entered params hargs t hh)
  rw [callBody_eq, callBody_eq]
  generalize x (entered params args t h₁) = r₁ at hout hs
  generalize y (entered params args' t h₂) = r₂ at hout hs
  obtain ⟨⟨answers₁, stop₁⟩, s₁⟩ := r₁
  obtain ⟨⟨answers₂, stop₂⟩, s₂⟩ := r₂
  obtain ⟨hanswers, hstop⟩ := Outcome.mk.inj hout
  have hend := akin_restored hbefore hanswers hs
  cases Stop.alike_of_bare hstop with
  | none => exact .ok rfl hend
  | failed f hab => exact .error rfl hend
  | returned c => exact .ok rfl hend

theorem alike_tileBody (domain tile : Item) (params : List String)
    {args args' : List Object}
    (hargs : args.map Object.bare = args'.map Object.bare) (h : AlikeSteps x y)
    (t : Tile) :
    Alike id id (tileBody domain tile params args x t)
      (tileBody domain tile params args' y t) := by
  refine (alike_of_blind fun b => blind_fixedCopy domain).bind_same
    fun domain => ?_
  refine (alike_of_blind fun b => blind_fixedCopy tile).bind_same
    fun nominal => ?_
  exact alike_callBody params hargs h _

end Calls

/-! ## Runs -/

section Runs

variable {s t : State}

theorem State.Akin.setPhase (hst : Akin s t) (driver : Nat) (phase : Phase) :
    Akin (s.setPhase driver phase) (t.setPhase driver phase) := by
  show State.bare _ = State.bare _
  rw [← setPhase_bare, ← setPhase_bare, hst]

theorem State.Akin.emit (hst : Akin s t) (driver : Nat) (e : Event) :
    Akin (s.emit driver e) (t.emit driver e) := by
  show State.bare _ = State.bare _
  rw [← emit_bare, ← emit_bare, hst]

theorem State.Akin.wording (hst : Akin s t) :
    s.environment.wording = t.environment.wording := by
  have hbare := congrArg (fun h : State => h.environment.wording) hst
  exact hbare

theorem State.Akin.warnRejected (hst : Akin s t) (tile : Index)
    (rejection : Option Fault) :
    Akin (s.warnRejected tile rejection) (t.warnRejected tile rejection) := by
  show State.bare _ = State.bare _
  rw [← warnRejected_bare, ← warnRejected_bare, hst]

theorem looks_readNumbers (domain tile : Item) :
    Looks (readNumbers domain tile) := by
  refine (looks_readLaunch domain tile).bind fun l => Looks.bind ?_ fun _ =>
    looks_pure _
  unfold needNumbers
  split
  · exact looks_throw _
  · exact looks_pure _

section SideBySide

variable {ι : Type}

/-- Results that are pairwise the same, where each state has a
property of its own. -/
theorem inStep_of_same [Nonempty ι] {α : Type}
    {r : ι → EStateM.Result Fault State α} {Q : ι → State → Prop}
    (hr : ∀ i j, Same id id (r i) (r j)) (hQ : ∀ i, Q i (r i).state) :
    InStep (fun s => (∀ i j, Akin (s i) (s j)) ∧ ∀ i, Q i (s i)) r := by
  have hakin : ∀ i j, Akin (r i).state (r j).state := fun i j => (hr i j).state
  let i₀ := Classical.arbitrary ι
  cases h₀ : r i₀ with
  | ok a s₀ =>
      refine .ok a (fun i => (r i).state) (fun i => ?_) ⟨hakin, hQ⟩
      have hsame := hr i i₀
      rw [h₀] at hsame
      generalize r i = ri at hsame
      cases hsame with
      | ok hv hs => exact congrArg (EStateM.Result.ok · _) hv
  | error f s₀ =>
      refine .error f (fun i => (r i).state) (fun i => ?_) ⟨hakin, hQ⟩
      have hsame := hr i i₀
      rw [h₀] at hsame
      generalize r i = ri at hsame
      cases hsame with
      | error hw hs => exact congrArg (EStateM.Result.error · _) hw

theorem same_of_inStep {α : Type} {r : ι → EStateM.Result Fault State α}
    {Q : ι → State → Prop}
    (hr : InStep (fun s => (∀ i j, Akin (s i) (s j)) ∧ ∀ i, Q i (s i)) r) :
    (∀ i j, Same id id (r i) (r j)) ∧ ∀ i, Q i (r i).state := by
  rcases hr with ⟨a, s, hr, hakin, hQ⟩ | ⟨f, s, hr, hakin, hQ⟩
  · refine ⟨fun i j => ?_, fun i => ?_⟩
    · rw [hr i, hr j]
      exact .ok rfl (hakin i j)
    · rw [hr i]
      exact hQ i
  · refine ⟨fun i j => ?_, fun i => ?_⟩
    · rw [hr i, hr j]
      exact .error rfl (hakin i j)
    · rw [hr i]
      exact hQ i

/-- **Runs on one driver whose bodies are alike**, where `R` holds of each while
it is under way, and `Q` where it ends. -/
theorem sideBySide_akin [Nonempty ι] {driver : Nat} {domain tile : Item}
    {body : ι → Tile → Act Scope Completion}
    (hbody : ∀ u i j, Alike id id (body i u) (body j u)) {h : ι → State}
    (hh : ∀ i j, Akin (h i) (h j)) {Q R : ι → List Event → State → Prop}
    (hrefused : ∀ i, Q i [] (h i))
    (henter : ∀ i, ((h i).driver driver).phase = .idle →
      R i [] ((h i).setPhase driver .running))
    (hleave : ∀ i es s, R i es s → Q i es (s.setPhase driver .idle))
    (hemit : ∀ i es s, R i es s → ∀ e, R i (es ++ [e]) (s.emit driver e))
    (hwarn : ∀ i es s, R i es s → ∀ index rejection, R i es
      (s.warnRejected index rejection))
    (hcall : ∀ i u es s, R i es s → R i es (body i u s).state) :
    ∃ es, (∀ i j, Same id id
        (Host.runOver driver (readLaunch domain tile) (readNumbers domain tile)
          (body i) (h i))
        (Host.runOver driver (readLaunch domain tile) (readNumbers domain tile)
          (body j) (h j))) ∧
      ∀ i, Q i es
        (Host.runOver driver (readLaunch domain tile) (readNumbers domain tile)
          (body i) (h i)).state := by
  have hgiven := alike_of_blind fun b => blind_readLaunch (b := b) domain tile
  have hcurrent := alike_of_blind fun b =>
    blind_readNumbers (b := b) domain tile
  suffices hruns :
      ∃ es, InStep (fun s => (∀ i j, Akin (s i) (s j)) ∧ ∀ i, Q i es (s i))
        fun i => Host.runOver driver (readLaunch domain tile)
          (readNumbers domain tile) (body i) (h i) by
    obtain ⟨es, hruns⟩ := hruns
    exact ⟨es, same_of_inStep (Q := fun i => Q i es) hruns⟩
  refine Host.sideBySide_runOver
    (R := fun es s => (∀ i j, Akin (s i) (s j)) ∧ ∀ i, R i es (s i)) ?_ ?_ ?_
    ⟨hh, hrefused⟩ ?_ ?_
    ?_ ?_ ?_ ?_
  · exact fun es s hs => ⟨_, fun i => (hs.1 i (Classical.arbitrary ι)).wording⟩
  · exact ⟨_, fun i => phase_of_bare (hh i (Classical.arbitrary ι)) driver⟩
  · rcases inStep_of_same (Q := fun i s => s = h i)
      (fun i j => hgiven _ _ (hh i j))
      (fun i => looks_readLaunch domain tile (h i)) with ⟨l, s, hr, -, hs⟩ | ⟨f,
        s, hr, -, hs⟩
    · exact .ok l s hr (funext hs)
    · exact .error f s hr (funext hs)
  · exact fun hidle => ⟨fun i j => (hh i j).setPhase driver .running,
      fun i => henter i (hidle i)⟩
  · exact fun es s hs => ⟨fun i j => (hs.1 i j).setPhase driver .idle,
      fun i => hleave i es _ (hs.2 i)⟩
  · exact fun es s hs e =>
      ⟨fun i j => (hs.1 i j).emit driver e, fun i => hemit i es _ (hs.2 i) e⟩
  · intro es s hs index rejection
    exact ⟨fun i j => (hs.1 i j).warnRejected index rejection,
      fun i => hwarn i es _ (hs.2 i) index rejection⟩
  · intro es s hs
    refine inStep_of_same (fun i j => hcurrent _ _ (hs.1 i j)) fun i => ?_
    rw [looks_readNumbers]
    exact hs.2 i
  · intro u es s hs
    exact inStep_of_same (fun i j => hbody u i j _ _ (hs.1 i j)) fun i =>
      hcall i u es _ (hs.2 i)

end SideBySide

/-- One of two things. -/
abbrev either {α : Type} (a b : α) (first : Bool) : α := bif first then a else b

theorem rel_either {α : Type} {R : α → α → Prop}
    (hsymm : ∀ {a b}, R a b → R b a) (htrans : ∀ {a b c}, R a b → R b c → R a c)
    {a b : α} (hab : R a b) (i j : Bool) :
    R (either a b i) (either a b j) := by
  cases i with
  | true =>
      cases j with
      | true => exact htrans hab (hsymm hab)
      | false => exact hab
  | false =>
      cases j with
      | true => exact hsymm hab
      | false => exact htrans (hsymm hab) hab

/-- Two runs on one driver whose bodies are alike. -/
theorem alike_runOver (driver : Nat) (domain tile : Item)
    {body body' : Tile → Act Scope Completion}
    (hbody : ∀ u, Alike id id (body u) (body' u)) :
    Alike id id (Host.runOver driver (readLaunch domain tile)
      (readNumbers domain tile) body)
      (Host.runOver driver (readLaunch domain tile)
        (readNumbers domain tile) body') := by
  intro h₁ h₂ hh
  have hstates : ∀ i j, Akin (either h₁ h₂ i) (either h₁ h₂ j) :=
    rel_either (R := Akin) Eq.symm Eq.trans hh
  -- nothing is asked of each run by itself
  obtain ⟨-, hruns, -⟩ := sideBySide_akin (Q := fun _ _ _ => True)
    (R := fun _ _ _ => True)
    (fun u => rel_either (R := Alike id id) Alike.symm Alike.trans (hbody u))
    hstates
    (fun _ => trivial) (fun _ _ => trivial) (fun _ _ _ _ => trivial)
    (fun _ _ _ _ _ => trivial)
    (fun _ _ _ _ _ _ => trivial) (fun _ _ _ _ _ => trivial)
  exact hruns true false

/-- The states go on with answers of bodies that are the same once
they are stripped. -/
theorem State.Akin.withTiles (hst : Akin s t) {ts us : Array (List Answer)}
    (htiles : ts.map Answer.bareAll = us.map Answer.bareAll) :
    Akin (State.modifyScope s fun c => { c with tiles := ts })
      (State.modifyScope t fun c => { c with tiles := us }) := by
  refine hst.modifyScope ?_
  have hcaller : s.caller.bare = t.caller.bare := congrArg Host.caller hst
  show ({ s.caller.bare with tiles := ts.map Answer.bareAll } : Scope) =
    { t.caller.bare with tiles := us.map Answer.bareAll }
  rw [htiles, hcaller]

theorem State.Akin.tiles (hst : Akin s t) :
    s.caller.tiles.map Answer.bareAll = t.caller.tiles.map Answer.bareAll := by
  have htiles := congrArg (fun h : State => h.caller.tiles) hst
  exact htiles

theorem State.Akin.bareTiles (hst : Akin s t) :
    Answer.bareTiles s.caller.tiles.toList =
      Answer.bareTiles t.caller.tiles.toList := by
  rw [Answer.bareTiles_eq_map, Answer.bareTiles_eq_map, ← Array.toList_map,
    ← Array.toList_map, hst.tiles]

/-- Acts of which what the bodies of a run answer is gathered. -/
theorem alike_collectTiles {act act' : Act Scope Unit}
    (h : Alike id id act act') :
    Alike Stop.bare Answer.bare (collectTiles act) (collectTiles act') := by
  intro h₁ h₂ hh
  have hact := h (cleared h₁) (cleared h₂) (hh.withTiles rfl)
  unfold collectTiles
  rw [← cleared, ← cleared]
  generalize act (cleared h₁) = r₁ at hact
  generalize act' (cleared h₂) = r₂ at hact
  cases hact with
  | ok hv hs =>
    exact .ok (congrArg Answer.tiles hs.bareTiles) (hs.withTiles hh.tiles)
  | @error f f' s t hw hs =>
      obtain rfl : f = f' := hw
      have hstop := congrArg (fun ts => Stop.failed f (.runFailed f ts))
        hs.bareTiles
      exact .error hstop (hs.withTiles hh.tiles)

/-- What a run starts from, but for the options of kernels. -/
theorem alike_runInputs (driver : String) (domain tile : Term)
    (args : List String) :
    Alike id (fun q => (q.1, q.2.1, q.2.2.1, q.2.2.2.map Object.bare))
      (runInputs driver domain tile args)
      (runInputs driver domain tile args) := by
  have hfades : Fades (fun q => (q.1, q.2.1, q.2.2.1, q.2.2.2.map Object.bare))
      (runInputs driver domain tile args)
      (runInputs driver domain tile args) := by
    refine fades_of_tracks (fun b => tracks_runInputs driver domain tile args)
      fun h q => ?_
    rw [show Object.under (blank h) =
      Object.bare from funext (Object.under_blank h)]
    rfl
  exact hfades.alike hfades

theorem alike_launchInputs (kernel : String) (launch : LaunchTerm)
    (args : List String) :
    Alike id (fun q => (q.1.bare, q.2.1, q.2.2.1, q.2.2.2.map Object.bare))
      (launchInputs kernel launch args) (launchInputs kernel launch args) := by
  have hfades :
      Fades (fun q => (q.1.bare, q.2.1, q.2.2.1, q.2.2.2.map Object.bare))
      (launchInputs kernel launch args) (launchInputs kernel launch args) := by
    refine fades_of_tracks (fun b => tracks_launchInputs kernel launch args)
      fun h q => ?_
    rw [show Object.under (blank h) =
      Object.bare from funext (Object.under_blank h)]
    rfl
  exact hfades.alike hfades

theorem alike_runOn {x y : Steps} (h : AlikeSteps x y) (driver : String)
    (domain tile : Term) (params args : List String) :
    Alike Stop.bare Answer.bare (runOn driver domain tile params args x)
      (runOn driver domain tile params args y) := by
  rw [runOn_eq, runOn_eq]
  refine alike_collectTiles
    ((alike_runInputs driver domain tile args).bind fun q q' hq => ?_)
  obtain ⟨n, d, t, os⟩ := q
  obtain ⟨n', d', t', os'⟩ := q'
  obtain ⟨rfl, hq⟩ := Prod.mk.inj hq
  obtain ⟨rfl, hq⟩ := Prod.mk.inj hq
  obtain ⟨rfl, hargs⟩ := Prod.mk.inj hq
  exact alike_runOver n d t fun u => alike_tileBody d t params hargs h u

/-- Drivers that are made with whatever options. -/
theorem alike_newDriver (o o' : Options) :
    Alike id id (Host.newDriver o : Act Scope Nat) (Host.newDriver o') :=
  (fades_newDriver o).alike (fades_newDriver o')

theorem alike_launchKernel {call : Program → Steps}
    (hcall : ∀ body body' : Program, body.bare = body'.bare →
      AlikeSteps (call body) (call body'))
    (name : String) (launch : LaunchTerm) (args : List String) :
    Alike Stop.bare Answer.bare (launchKernel call name launch args)
      (launchKernel call name launch args) := by
  rw [launchKernel_eq]
  refine alike_collectTiles
    ((alike_launchInputs name launch args).bind fun q q' hq => ?_)
  obtain ⟨k, d, t, os⟩ := q
  obtain ⟨k', d', t', os'⟩ := q'
  obtain ⟨hk, hq⟩ := Prod.mk.inj hq
  obtain ⟨rfl, hq⟩ := Prod.mk.inj hq
  obtain ⟨rfl, hargs⟩ := Prod.mk.inj hq
  obtain ⟨-, hparams, hbody⟩ := Kernel.mk.inj hk
  refine (alike_newDriver k.options k'.options).bind_same fun n => ?_
  dsimp only
  rw [hparams]
  exact alike_runOver n d t fun u =>
    alike_tileBody d t _ hargs (hcall _ _ hbody) u

end Runs

/-! ## Programs -/

section Programs

variable {call : Program → Steps}

theorem alike_gathered {x y : Steps} (h : AlikeSteps x y) :
    Alike Stop.bare Answer.bare (gathered x) (gathered y) :=
  (alike_answersOf h).bind fun _ _ hab => alike_pure (congrArg Answer.list hab)

theorem alike_whenSame {x y : Steps} (h : AlikeSteps x y) (value : Term)
    (expected? : Option Number) :
    Alike Stop.bare Answer.bare (whenSame value expected? x)
      (whenSame value expected? y) := by
  refine (alike_asStep (alike_of_blind fun b => blind_eval value)).bind_same
    fun v => ?_
  refine (alike_asStep (alike_of_blind fun b => blind_shown v)).bind_same
    fun v => ?_
  exact alike_ite (alike_gathered h) (alike_pure rfl)

theorem alike_keepKernel (as? : Option String) {k k' : Kernel}
    (hk : k.bare = k'.bare) :
    Alike Stop.bare Answer.bare (keepKernel as? k) (keepKernel as? k') :=
  (alike_bindName as?
    (show Object.bare (.kernel k) = Object.bare (.kernel k') from
    congrArg Object.kernel hk)).bind_same fun _ => alike_pure rfl

/-- **Programs that differ in options only**, if what launches do with such
bodies is alike. -/
theorem alikeSteps_exec
    (hcall : ∀ body body' : Program, body.bare = body'.bare →
      AlikeSteps (call body) (call body'))
    {p p' : Program} (hp : p.bare = p'.bare) (guarded : Bool) :
    AlikeSteps (p.exec call guarded) (p'.exec call guarded) := by
  induction p generalizing p' guarded with
  | done =>
      cases p' <;> cases hp
      exact fun h₁ h₂ hh => ⟨rfl, hh⟩
  | giveBack c =>
      cases p' <;> cases hp
      exact fun h₁ h₂ hh => ⟨rfl, hh⟩
  | step s rest ih =>
      cases p' with
      | step s' rest' =>
          obtain ⟨hs, hrest⟩ := Program.step.inj hp
          exact alikeSteps_follow guarded (alike_step hs) (ih hrest guarded)
      | _ => cases hp
  | walk shape body rest ihbody ihrest =>
      cases p' with
      | walk shape' body' rest' =>
          obtain ⟨rfl, hbody, hrest⟩ := Program.walk.inj hp
          exact alikeSteps_follow guarded
            (alike_walkBox (ihbody hbody false) shape)
            (ihrest hrest guarded)
      | _ => cases hp
  | run driver domain tile params args body rest ihbody ihrest =>
      cases p' with
      | run driver' domain' tile' params' args' body' rest' =>
          obtain ⟨rfl, rfl, rfl, rfl, rfl, hbody, hrest⟩ := Program.run.inj hp
          exact alikeSteps_follow guarded
            (alike_runOn (ihbody hbody false) driver domain tile params args)
            (ihrest hrest guarded)
      | _ => cases hp
  | kernel as? options params body rest _ ihrest =>
      cases p' with
      | kernel as?' options' params' body' rest' =>
          obtain ⟨rfl, -, rfl, hbody, hrest⟩ := Program.kernel.inj hp
          have hkernel : Kernel.bare ⟨options, params, body⟩ =
              Kernel.bare ⟨options', params, body'⟩ :=
            congrArg (Kernel.mk ⟨none, none⟩ params) hbody
          exact alikeSteps_follow guarded (alike_keepKernel as? hkernel)
            (ihrest hrest guarded)
      | _ => cases hp
  | launch name l args rest ih =>
      cases p' with
      | launch name' l' args' rest' =>
          obtain ⟨rfl, rfl, rfl, hrest⟩ := Program.launch.inj hp
          exact alikeSteps_follow guarded (alike_launchKernel hcall name l args)
            (ih hrest guarded)
      | _ => cases hp
  | ifSame value expected? body rest ihbody ihrest =>
      cases p' with
      | ifSame value' expected?' body' rest' =>
          obtain ⟨rfl, rfl, hbody, hrest⟩ := Program.ifSame.inj hp
          exact alikeSteps_follow guarded
            (alike_whenSame (ihbody hbody false) value expected?)
            (ihrest hrest guarded)
      | _ => cases hp
  | attempt body rest ihbody ihrest =>
      cases p' with
      | attempt body' rest' =>
          obtain ⟨hbody, hrest⟩ := Program.attempt.inj hp
          exact alikeSteps_follow guarded (alike_gathered (ihbody hbody true))
            (ihrest hrest guarded)
      | _ => cases hp

end Programs

/-- **Programs that differ in options only do the same**, however deep
their launches go. -/
theorem alikeSteps_execute (depth : Nat) {p p' : Program}
    (hp : p.bare = p'.bare) (guarded : Bool) :
    AlikeSteps (p.execute depth guarded) (p'.execute depth guarded) := by
  induction depth generalizing p p' guarded with
  | zero =>
      refine alikeSteps_exec (fun body body' _ => ?_) hp guarded
      exact fun h₁ h₂ hh => ⟨rfl, hh⟩
  | succ depth ih =>
    exact alikeSteps_exec (fun body body' hbody => ih hbody false) hp guarded

end TileGrid.Script
