import TileGrid.Proofs.Drivers

/-!
# Runs side by side, and what they report

Runs whose bodies go alike report the same events, each to where the
settings of its driver say: `sideBySide_runOver` follows all of them at
once, with a relation of their states that may depend on what was reported
so far. What a run reports itself is told from what its body does by taking
the latter back (`muted`); then the console and the trace grow by just the
events of the run (`Reported`). Otherwise these events are among what is
printed, in their order (`Heard`).
-/

namespace TileGrid

/-- All results are the same value or the same fault, and their
states are related. -/
inductive InStep {ι ε σ α : Type} (R : (ι → σ) → Prop)
    (r : ι → EStateM.Result ε σ α) : Prop
  | ok (a : α) (s : ι → σ) (hr : ∀ i, r i = .ok a (s i)) (hs : R s)
  | error (e : ε) (s : ι → σ) (hr : ∀ i, r i = .error e (s i)) (hs : R s)

/-- The lines that are printed of events. -/
def Settings.lines (s : Settings) (es : List Event) : List String :=
  if s.log then es.map Event.line else []

/-- The entries that are recorded of events. -/
def Settings.kept (s : Settings) (es : List Event) : List Entry :=
  if s.trace then es.map .event else []

theorem Settings.lines_append (s : Settings) (es es' : List Event) :
    s.lines (es ++ es') = s.lines es ++ s.lines es' := by
  unfold lines
  split
  · simp
  · rfl

theorem Settings.kept_append (s : Settings) (es es' : List Event) :
    s.kept (es ++ es') = s.kept es ++ s.kept es' := by
  unfold kept
  split
  · simp
  · rfl

namespace Host

variable {ν : Type} {id : Nat}

/-! ## Side by side -/

section SideBySide

variable {ι : Type} {id : ι → Nat} {R Q : List Event → (ι → Host ν) → Prop}
  {given current : Act ν Launch} {body : ι → Tile → Act ν Completion}

/-- All loops over the tiles, from states that are related by what was
reported so far. -/
theorem sideBySide_runTiles
    (hemit : ∀ es s, R es s → ∀ e, R (es ++ [e]) fun i => (s i).emit (id i) e)
    (hwarn : ∀ es s, R es s → ∀ tile rejection, R es fun i =>
      (s i).warnRejected tile rejection)
    (hcurrent : ∀ es s, R es s → InStep (R es) fun i => current (s i))
    (hbody : ∀ t es s, R es s → InStep (R es) fun i => body i t (s i))
    (counts : Shape) (n : Nat) (cursor : Option Index) (finished : Number)
    {es : List Event} {s : ι → Host ν} (hs : R es s) :
    ∃ es', InStep (R es') fun i =>
      runTiles (id i) current counts (body i) n cursor finished (s i) := by
  induction n generalizing cursor finished es s with
  | zero =>
      cases cursor with
      | none => exact ⟨es, .ok _ s (fun _ => rfl) hs⟩
      | some index => exact ⟨es, .error _ s (fun _ => rfl) hs⟩
  | succ n ih =>
      cases cursor with
      | none => exact ⟨es, .ok _ s (fun _ => rfl) hs⟩
      | some index =>
          unfold runTiles
          rcases hcurrent _ _ hs with ⟨l, s₁, hr, hs⟩ | ⟨f, s₁, hr, hs⟩
          · simp only [hr]
            generalize l.tileAt counts index = t
            -- all of them report the tile, and then the bodies are called
            rcases hbody t _ _ (hemit _ _ hs (.tile t.id t.offset t.shape)) with
              ⟨c, s₂, hr, hs⟩ | ⟨f, s₂, hr, hs⟩
            · simp only [hr]
              cases c with
              | finished => exact ih _ _ hs
              | deferred rejection =>
                  exact ⟨_,
                    .error _ _ (fun _ => rfl) (hwarn _ _ hs index rejection)⟩
            · simp only [hr]
              exact ⟨_, .error _ s₂ (fun _ => rfl) hs⟩
          · simp only [hr]
            exact ⟨es, .error _ s₁ (fun _ => rfl) hs⟩

/-- **Runs at once.** `R` holds while they are under way, and `Q` where they
end. They share the machine's wording, and so what they say of a fault. -/
theorem sideBySide_runOver {s : ι → Host ν}
    (hwording : ∀ es s, R es s → ∃ w, ∀ i, (s i).environment.wording = w)
    (hphase : ∃ phase, ∀ i, ((s i).driver (id i)).phase = phase)
    (hgiven : InStep (· = s) fun i => given (s i)) (hrefused : Q [] s)
    (henter : (∀ i, ((s i).driver (id i)).phase = .idle) →
      R [] fun i => (s i).setPhase (id i) .running)
    (hleave : ∀ es t, R es t → Q es fun i => (t i).setPhase (id i) .idle)
    (hemit : ∀ es s, R es s → ∀ e, R (es ++ [e]) fun i => (s i).emit (id i) e)
    (hwarn : ∀ es s, R es s → ∀ tile rejection, R es fun i =>
      (s i).warnRejected tile rejection)
    (hcurrent : ∀ es s, R es s → InStep (R es) fun i => current (s i))
    (hbody : ∀ t es s, R es s → InStep (R es) fun i => body i t (s i)) :
    ∃ es, InStep (Q es) fun i =>
      runOver (id i) given current (body i) (s i) := by
  unfold runOver
  obtain ⟨phase, hphase⟩ := hphase
  simp only [hphase]
  cases phase with
  | running => exact ⟨[], .error _ s (fun _ => rfl) hrefused⟩
  | idle =>
      rcases hgiven with ⟨l, t, hr, rfl⟩ | ⟨f, t, hr, rfl⟩
      · simp only [hr]
        cases l.counts with
        | error f => exact ⟨[], .error _ t (fun _ => rfl) hrefused⟩
        | ok counts =>
            have hstart :=
              hemit _ _ (henter hphase) (.start l.domain l.tile counts)
            obtain ⟨es, hloop⟩ :=
              sideBySide_runTiles hemit hwarn hcurrent hbody counts
              counts.stepBound counts.first? 0 hstart
            rcases hloop with ⟨tiles, s₁, hr, hs⟩ | ⟨a, s₁, hr, hs⟩
            · simp only [hr]
              exact ⟨_,
                .ok _ _ (fun _ => rfl)
                  (hleave _ _ (hemit _ _ hs (.finish tiles)))⟩
            · obtain ⟨w, hw⟩ := hwording _ _ hs
              simp only [hr, describe, hw]
              have hend :=
                hemit _ _ hs (.abort a.tile a.finished (a.fault.message w))
              exact ⟨_, .error _ _ (fun _ => rfl) (hleave _ _ hend)⟩
      · simp only [hr]
        exact ⟨[], .error _ t (fun _ => rfl) hrefused⟩

end SideBySide

/-! ## What a run reports itself -/

/-- From one state to another the driver has reported the events, as its
settings say: they are printed, and added to what its trace held. -/
structure Reported (id : Nat) (es : List Event) (h h' : Host ν) : Prop where
  settings : (h'.driver id).settings = (h.driver id).settings
  recorder : (h'.driver id).recorder = (h.driver id).recorder
  console : h'.console.toList =
    h.console.toList ++ (h.driver id).settings.lines es
  trace : ∀ held, h.recorders[(h.driver id).recorder]? = some held →
    h'.recorders[(h.driver id).recorder]? =
      some (held ++ ((h.driver id).settings.kept es).toArray)

namespace Reported

variable {h h₁ h₂ : Host ν} {es es' : List Event}

/-- The driver's settings and its trace are as they were, and
nothing was printed. -/
theorem of_same (hs : (h₁.driver id).settings = (h.driver id).settings)
    (hr : (h₁.driver id).recorder = (h.driver id).recorder)
    (hc : h₁.console = h.console)
    (ht : ∀ held, h.recorders[(h.driver id).recorder]? = some held →
      h₁.recorders[(h.driver id).recorder]? = some held) :
    Reported id [] h h₁ where
  settings := hs
  recorder := hr
  console := by simp [hc, Settings.lines]
  trace := by
    intro held hheld
    rw [ht held hheld]
    simp [Settings.kept]

theorem trans (ha : Reported id es h h₁) (hb : Reported id es' h₁ h₂) :
    Reported id (es ++ es') h h₂ where
  settings := hb.settings.trans ha.settings
  recorder := hb.recorder.trans ha.recorder
  console := by
    rw [hb.console, ha.console, ha.settings, Settings.lines_append,
      List.append_assoc]
  trace := by
    intro held hheld
    have hnext := ha.trace held hheld
    rw [← ha.recorder] at hnext ⊢
    rw [hb.trace _ hnext, ha.settings, Settings.kept_append]
    simp

theorem emit (h : Host ν) (e : Event) : Reported id [e] h (h.emit id e) where
  settings := by rw [driver_emit]
  recorder := by rw [driver_emit]
  console := by
    unfold Host.emit Settings.lines
    dsimp only
    cases (h.driver id).settings.log <;> cases (h.driver id).settings.trace <;>
      simp [print, record]
  trace := by
    intro held hheld
    unfold Host.emit Settings.kept
    dsimp only
    cases (h.driver id).settings.log <;> cases (h.driver id).settings.trace <;>
      simp [print, record, Array.getElem?_modify, hheld]

theorem setPhase (h : Host ν) (phase : Phase) :
    Reported id [] h (h.setPhase id phase) := by
  by_cases hid : id < h.drivers.size
  · have hdriver := driver_setPhase hid phase
    exact of_same (by rw [hdriver]) (by rw [hdriver]) rfl fun _ hheld => hheld
  · have hdriver : (h.setPhase id phase).driver id = h.driver id := by
      simp [driver, Host.setPhase, hid]
    exact of_same (by rw [hdriver]) (by rw [hdriver]) rfl fun _ hheld => hheld

theorem warnRejected (h : Host ν) (tile : Index) (rejection : Option Fault) :
    Reported id [] h (h.warnRejected tile rejection) := by
  cases rejection with
  | none => exact of_same rfl rfl rfl fun _ hheld => hheld
  | some reason => exact of_same rfl rfl rfl fun _ hheld => hheld

end Reported

/-- The state after a call of a body, with what the call printed and added to
the driver's trace taken back. -/
def takeBack (id : Nat) (h h' : Host ν) : Host ν :=
  { h' with
    console := h.console
    recorders := h'.recorders.setIfInBounds (h.driver id).recorder
      (h.entries (h.driver id).recorder) }

/-- The body, with what it prints and adds to the driver's trace taken back
after each call. -/
def muted (id : Nat) (body : Tile → Act ν Completion) :
    Tile → Act ν Completion := fun t h =>
  match body t h with
  | .ok c h' => .ok c (takeBack id h h')
  | .error f h' => .error f (takeBack id h h')

theorem Reported.takeBack {h h' : Host ν} (hd : h'.driver id = h.driver id)
    (hr : h.recorders.size ≤ h'.recorders.size) :
    Reported id [] h (takeBack id h h') := by
  refine of_same (congrArg Driver.settings hd) (congrArg Driver.recorder hd) rfl
    fun held hheld => ?_
  obtain ⟨hlt, hget⟩ := Array.getElem?_eq_some_iff.mp hheld
  have hevents : h.entries (h.driver id).recorder = held := by
    simp [entries, hlt, hget]
  show (h'.recorders.setIfInBounds _ _)[(h.driver id).recorder]? = some held
  rw [Array.getElem?_setIfInBounds_self_of_lt (hlt.trans_le hr), hevents]

/-- From one state to another something was printed, the lines of the driver's
events among it, in their order. -/
def Heard (id : Nat) (es : List Event) (h h' : Host ν) : Prop :=
  ∃ out, h'.console.toList = h.console.toList ++ out ∧
    List.Sublist ((h.driver id).settings.lines es) out

namespace Heard

variable {h h₁ h₂ : Host ν} {es : List Event}

theorem of_nothing (hp : h.console.toList <+: h₁.console.toList) :
    Heard id [] h h₁ := by
  obtain ⟨out, hout⟩ := hp
  refine ⟨out, hout.symm, ?_⟩
  simp [Settings.lines]

theorem later (ha : Heard id es h h₁)
    (hp : h₁.console.toList <+: h₂.console.toList) :
    Heard id es h h₂ := by
  obtain ⟨out, hout, hsub⟩ := ha
  obtain ⟨more, hmore⟩ := hp
  refine ⟨out ++ more, ?_, hsub.trans (List.sublist_append_left out more)⟩
  rw [← hmore, hout, List.append_assoc]

/-- One more event, of which the line comes last. -/
theorem emit (ha : Heard id es h h₁)
    (hs : (h₁.driver id).settings = (h.driver id).settings) (e : Event) :
    Heard id (es ++ [e]) h (h₁.emit id e) := by
  obtain ⟨out, hout, hsub⟩ := ha
  refine ⟨out ++ (h.driver id).settings.lines [e], ?_, ?_⟩
  · rw [(Reported.emit h₁ e).console, hs, hout, List.append_assoc]
  · rw [Settings.lines_append]
    exact hsub.append (List.Sublist.refl _)

end Heard

/-! ## Heard alone or as it is -/

/-- The body as it is, or muted. -/
def spoken (id : Nat) (body : Tile → Act ν Completion) :
    Bool → Tile → Act ν Completion
  | true => body
  | false => muted id body

/-- What a run has told of its events, if its body is as it is, or muted. -/
def Told (id : Nat) (es : List Event) (h h' : Host ν) : Bool → Prop
  | true => Heard id es h h'
  | false => Reported id es h h'

namespace Told

variable {h h₁ : Host ν} {es : List Event} {aloud : Bool}

theorem refl (h : Host ν) : Told id [] h h aloud := by
  cases aloud with
  | true => exact .of_nothing List.prefix_rfl
  | false => exact .of_same rfl rfl rfl fun _ hheld => hheld

/-- Something that is not an event of the run, and prints nothing. -/
theorem other (ht : Told id es h h₁ aloud) {h₂ : Host ν}
    (hr : Reported id [] h₁ h₂) (hc : h₂.console = h₁.console) :
    Told id es h h₂ aloud := by
  cases aloud with
  | true => exact Heard.later ht (by rw [hc])
  | false =>
      have hboth := Reported.trans ht hr
      rwa [List.append_nil] at hboth

theorem setPhase (ht : Told id es h h₁ aloud) (phase : Phase) :
    Told id es h (h₁.setPhase id phase) aloud :=
  ht.other (.setPhase h₁ phase) rfl

theorem warnRejected (ht : Told id es h h₁ aloud) (tile : Index)
    (rejection : Option Fault) :
    Told id es h (h₁.warnRejected tile rejection) aloud := by
  refine ht.other (.warnRejected h₁ tile rejection) ?_
  cases rejection <;> rfl

theorem emit (ht : Told id es h h₁ aloud)
    (hs : (h₁.driver id).settings = (h.driver id).settings) (e : Event) :
    Told id (es ++ [e]) h (h₁.emit id e) aloud := by
  cases aloud with
  | true => exact Heard.emit ht hs e
  | false => exact Reported.trans ht (.emit h₁ e)

/-- A call of the body, which leaves the driver as it is. -/
theorem call (ht : Told id es h h₁ aloud) {body : Tile → Act ν Completion}
    {t : Tile} (hd : (body t h₁).state.driver id = h₁.driver id)
    (ho : Outlasts h₁ (body t h₁).state) :
    Told id es h (spoken id body aloud t h₁).state aloud := by
  cases aloud with
  | true => exact Heard.later ht ho.2
  | false =>
      have hback : Reported id [] h₁ (muted id body t h₁).state := by
        unfold muted
        cases hr : body t h₁ with
        | ok c h₂ =>
            rw [hr] at hd ho
            exact .takeBack hd ho.1
        | error f h₂ =>
            rw [hr] at hd ho
            exact .takeBack hd ho.1
      have hboth := Reported.trans ht hback
      rwa [List.append_nil] at hboth

end Told

end Host

end TileGrid
