import TileGrid.Proofs.RunFold
import TileGrid.Proofs.Along

/-!
# Drivers at rest and under way

A driver that is running refuses a run and nothing happens; so does one at
rest whose launch is not accepted. A run that fails passes on what its body
raised, or reports the body that left work for later, so a driver at rest
never calls itself busy. Between its first and its last event a run touches
its driver in the phase only.
-/

namespace TileGrid.Host

variable {ν : Type}

/-! ## Changes and what they leave alone -/

@[simp] theorem drivers_emit (h : Host ν) (id : Nat) (e : Event) :
    (h.emit id e).drivers = h.drivers := (agree_emit h id e).drivers.symm

@[simp] theorem driver_emit (h : Host ν) (id id' : Nat) (e : Event) :
    (h.emit id e).driver id' = h.driver id' := by
  rw [driver, drivers_emit, driver]

theorem driver_setPhase {h : Host ν} {id : Nat} (hid : id < h.drivers.size)
    (phase : Phase) :
    (h.setPhase id phase).driver id = { h.driver id with phase } := by
  simp [driver, setPhase, hid, Array.getElem_modify_self]

theorem driver_setPhase_of_ne (h : Host ν) {id id' : Nat} (hne : id ≠ id')
    (phase : Phase) :
    (h.setPhase id phase).driver id' = h.driver id' := by
  simp [driver, setPhase, Array.getElem?_modify, hne]

/-- A driver records to where it did. -/
theorem recorder_setPhase (h : Host ν) (id : Nat) (phase : Phase) (id' : Nat) :
    ((h.setPhase id phase).driver id').recorder = (h.driver id').recorder := by
  simp only [driver, setPhase, Array.getD_eq_getD_getElem?,
    Array.getElem?_modify]
  by_cases hid : id = id'
  · subst hid
    rw [if_pos rfl]
    cases h.drivers[id]? <;> rfl
  · rw [if_neg hid]

theorem driver_of_size_le {h : Host ν} {id : Nat} (hid : h.drivers.size ≤ id) :
    h.driver id = default := by
  simp [driver, Array.getElem?_eq_none hid]

theorem driver_setPhase_eq (h : Host ν) (id i : Nat) (phase : Phase) :
    (h.setPhase id phase).driver i =
      if id = i ∧ i < h.drivers.size then { h.driver i with phase }
        else h.driver i := by
  by_cases hid : id = i
  · subst hid
    by_cases hlt : id < h.drivers.size
    · rw [driver_setPhase hlt, if_pos ⟨rfl, hlt⟩]
    · rw [if_neg fun hboth => hlt hboth.2]
      simp [driver, setPhase, hlt]
  · rw [driver_setPhase_of_ne h hid, if_neg fun hboth => hid hboth.1]

/-! ## Making a driver -/

/-- The state with one more driver, at rest, and with a trace of its own. -/
def withDriver (h : Host ν) (o : Options) : Host ν :=
  { h with
    recorders := h.recorders.push #[]
    drivers :=
      h.drivers.push ⟨.idle, o.settings h.environment, h.recorders.size⟩ }

theorem newDriver_eq (o : Options) (h : Host ν) :
    newDriver o h = .ok h.drivers.size (h.withDriver o) := rfl

theorem launchOver_eq (o : Options) (given current : Act ν Launch)
    (body : Tile → Act ν Completion) (h : Host ν) :
    launchOver o given current body h =
      runOver h.drivers.size given current body (h.withDriver o) := rfl

theorem launch_eq (o : Options) (l : Launch) (body : Tile → Act ν Completion)
    (h : Host ν) :
    launch o l body h = run h.drivers.size l body (h.withDriver o) := rfl

theorem driver_withDriver_eq (h : Host ν) (o : Options) (i : Nat) :
    (h.withDriver o).driver i =
      if i = h.drivers.size then
        ⟨.idle, o.settings h.environment, h.recorders.size⟩
      else h.driver i := by
  by_cases hi : i = h.drivers.size
  · simp [driver, withDriver, hi]
  · simp [driver, withDriver, Array.getElem?_push, hi]

theorem driver_withDriver (h : Host ν) (o : Options) :
    (h.withDriver o).driver h.drivers.size =
      ⟨.idle, o.settings h.environment, h.recorders.size⟩ := by
  rw [driver_withDriver_eq, if_pos rfl]

/-! ## Refusals and faults -/

section

variable {id : Nat} {given current : Act ν Launch}
  {body : Tile → Act ν Completion} {h : Host ν}

/-- A driver that is running refuses, and all is as it was. -/
theorem runOver_of_running (hrun : (h.driver id).phase = .running) :
    runOver id given current body h = .error .busy h := by
  rw [runOver, hrun]

/-- A launch that is not accepted is refused, and all is as it was. -/
theorem runOver_of_rejected {l : Launch} (hidle : (h.driver id).phase = .idle)
    (hgiven : given h = .ok l h) (hl : l.check ≠ .ok ()) :
    runOver id given current body h =
      .error (.launchShape l.domain l.tile) h := by
  have hcheck : l.check = .error (.launchShape l.domain l.tile) := by
    unfold Launch.check at hl ⊢
    split
    · rename_i hok
      exact absurd (if_pos hok) hl
    · rfl
  have hcounts : l.counts = .error (.launchShape l.domain l.tile) := by
    rw [Launch.counts, hcheck]
    rfl
  simp only [runOver, hidle, hgiven, hcounts]

/-- The action raises no fault of the sort that a running driver raises. -/
def NeverBusy {α : Type} (x : Act ν α) : Prop :=
  ∀ s f s', x s = .error f s' → f.sort ≠ .busy

theorem NeverBusy.of_ok {α : Type} {x : Act ν α}
    (hx : ∀ s, ∃ a s', x s = .ok a s') : NeverBusy x := by
  intro s f s' hr
  obtain ⟨a, s₁, hok⟩ := hx s
  rw [hok] at hr
  cases hr

theorem NeverBusy.bind {α β : Type} {x : Act ν α} {k : α → Act ν β}
    (hx : NeverBusy x) (hk : ∀ a, NeverBusy (k a)) : NeverBusy (x >>= k) := by
  intro s f s' hr
  rcases error_of_bind hr with hfirst | ⟨a, s₁, -, hsecond⟩
  · exact hx s f s' hfirst
  · exact hk a s₁ f s' hsecond

/-- The second body does what the first does, but for calls in which it fails
with the fault. -/
def MayFail (f : Fault) (body body' : Tile → Act ν Completion) : Prop :=
  ∀ t s, body' t s = body t s ∨ ∃ s', body' t s = .error f s'

/-- The calls that the loop over the tiles makes of its body: the tile, and the
state at the call. -/
inductive TileCall (id : Nat) (current : Act ν Launch) (counts : Shape)
    (body : Tile → Act ν Completion) :
    Nat → Option Index → Host ν → Tile → Host ν → Prop
  | here {n : Nat} {index : Index} {h h₁ : Host ν} {l : Launch} {t : Tile}
      (hl : current h = .ok l h₁) (ht : l.tileAt counts index = t) :
      TileCall id current counts body (n + 1) (some index) h t
        (h₁.emit id (.tile t.id t.offset t.shape))
  | later {n : Nat} {index : Index} {h h₁ h₂ s : Host ν} {l : Launch}
      {t u : Tile} (hl : current h = .ok l h₁) (ht : l.tileAt counts index = t)
      (hr : body t (h₁.emit id (.tile t.id t.offset t.shape)) =
        .ok .finished h₂)
      (hlater : TileCall id current counts body n
        (Shape.next? counts index) h₂ u s) :
      TileCall id current counts body (n + 1) (some index) h u s

/-- The loop depends on each of its calls: a body that fails there stops it
with that fault. -/
theorem TileCall.stops {counts : Shape} {n : Nat} {cursor : Option Index}
    {t : Tile} {s : Host ν}
    (hcall : TileCall id current counts body n cursor h t s) {f : Fault}
    {body' : Tile → Act ν Completion} (hmay : MayFail f body body')
    (hfail : ∃ s', body' t s = .error f s') (finished : Number) :
    ∃ a h', runTiles id current counts body' n cursor finished h = .error a h' ∧
      a.fault = f := by
  induction hcall generalizing finished with
  | here hl ht =>
      obtain ⟨s', hfail⟩ := hfail
      unfold runTiles
      simp only [hl, ht, hfail]
      exact ⟨_, _, rfl, rfl⟩
  | @later n index h h₁ h₂ s l t u hl ht hr _ ih =>
      unfold runTiles
      simp only [hl, ht]
      -- this tile goes as before, or the other body fails already here
      rcases hmay t (h₁.emit id (.tile t.id t.offset t.shape)) with
        hsame | ⟨s', hstop⟩
      · rw [hsame, hr]
        exact ih hfail (finished + 1)
      · rw [hstop]
        exact ⟨_, _, rfl, rfl⟩

/-- What stops the loop over the tiles: the launch could not be looked up, the
body left work for later, or a call of the body failed. -/
theorem fault_of_runTiles {counts : Shape} {n : Nat} {cursor : Option Index}
    {finished : Number} {a : Abort} {h' : Host ν}
    (hrun : runTiles id current counts body n cursor finished h = .error a h') :
    (∃ s s', current s = .error a.fault s') ∨ a.fault = .deferred a.tile ∨
      a.fault = .endless ∨
    ∃ t s s', TileCall id current counts body n cursor h t s ∧
      body t s = .error a.fault s' := by
  induction n generalizing cursor finished h with
  | zero =>
      cases cursor with
      | none => cases hrun
      | some index =>
          cases hrun
          exact .inr (.inr (.inl rfl))
  | succ n ih =>
      cases cursor with
      | none => cases hrun
      | some index =>
          unfold runTiles at hrun
          dsimp only at hrun
          cases hl : current h with
          | error fault h₁ =>
              rw [hl] at hrun
              cases hrun
              exact .inl ⟨_, _, hl⟩
          | ok l h₁ =>
              simp only [hl] at hrun
              generalize ht : l.tileAt counts index = t at hrun
              cases hr : body t (h₁.emit id (.tile t.id t.offset t.shape)) with
              | error fault h₂ =>
                  simp only [hr] at hrun
                  cases hrun
                  exact .inr (.inr (.inr ⟨t, _, _, .here hl ht, hr⟩))
              | ok c h₂ =>
                  simp only [hr] at hrun
                  cases c with
                  | deferred rejection =>
                      cases hrun
                      exact .inr (.inl rfl)
                  | finished =>
                      rcases ih hrun with hcurrent | hdeferred | hendless | ⟨u,
                        s, s', hcall, hfail⟩
                      · exact .inl hcurrent
                      · exact .inr (.inl hdeferred)
                      · exact .inr (.inr (.inl hendless))
                      · exact .inr
                          (.inr (.inr ⟨u, s, s', .later hl ht hr hcall, hfail⟩))

/-- The calls that a run makes of its body, which a driver at rest makes for a
launch that it accepts. -/
structure RunCall (id : Nat) (given current : Act ν Launch)
    (body : Tile → Act ν Completion) (h : Host ν) (t : Tile)
    (s : Host ν) : Prop where
  idle : (h.driver id).phase = .idle
  call : ∃ l h₁ counts, given h = .ok l h₁ ∧ l.counts = .ok counts ∧
    TileCall id current counts body counts.stepBound counts.first?
      ((h₁.setPhase id .running).emit id (.start l.domain l.tile counts)) t s

/-- A run depends on each of its calls. -/
theorem RunCall.stops {t : Tile} {s : Host ν}
    (hcall : RunCall id given current body h t s) {f : Fault}
    {body' : Tile → Act ν Completion} (hmay : MayFail f body body')
    (hfail : ∃ s', body' t s = .error f s') :
    ∃ h', runOver id given current body' h = .error f h' := by
  obtain ⟨hidle, l, h₁, counts, hl, hcounts, hcall⟩ := hcall
  obtain ⟨a, h₂, hstop, rfl⟩ := hcall.stops hmay hfail 0
  simp only [runOver, hidle, hl, hcounts, hstop]
  exact ⟨_, rfl⟩

/-- **A driver at rest does not call itself busy.** Where its run ends in such a
fault, a call of the body raised it. -/
theorem busy_of_runOver {fault : Fault} {h' : Host ν}
    (hidle : (h.driver id).phase = .idle) (hgiven : NeverBusy given)
    (hcurrent : NeverBusy current)
    (hrun : runOver id given current body h = .error fault h')
    (hbusy : fault.sort = .busy) :
    ∃ t s s', RunCall id given current body h t s ∧
      body t s = .error fault s' := by
  unfold runOver at hrun
  rw [hidle] at hrun
  dsimp only at hrun
  cases hl : given h with
  | error f h₁ =>
      rw [hl] at hrun
      cases hrun
      exact absurd hbusy (hgiven _ _ _ hl)
  | ok l h₁ =>
      simp only [hl] at hrun
      cases hcounts : l.counts with
      | error f =>
          simp only [hcounts] at hrun
          cases hrun
          -- what is wrong with a launch is its shape
          unfold Launch.counts Launch.check at hcounts
          split at hcounts
          · cases hcounts
          · cases hcounts
            cases hbusy
      | ok counts =>
          simp only [hcounts] at hrun
          split at hrun
          · cases hrun
          · rename_i a h₂ hloop
            cases hrun
            rcases fault_of_runTiles hloop with ⟨s, s',
              hlookup⟩ | hdeferred | hendless |
              ⟨t, s, s', hcall, hfail⟩
            · exact absurd hbusy (hcurrent _ _ _ hlookup)
            · rw [hdeferred] at hbusy
              cases hbusy
            · rw [hendless] at hbusy
              cases hbusy
            · exact ⟨t, s, s',
                ⟨hidle, l, h₁, counts, hl, hcounts, hcall⟩, hfail⟩

end

end TileGrid.Host
