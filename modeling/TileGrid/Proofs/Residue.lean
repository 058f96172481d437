import TileGrid.Proofs.Veil

/-!
# A run leaves nothing behind for the next

A driver at rest is told from a new one by its number and by what its trace
holds, whatever runs it has had. A body that has no access to either driver and
to their traces therefore cannot tell on which of them it is run: it is called
for the same tiles, does the same and ends the same, and the same events are
added to the one trace and to the other. A kernel is a run on a new driver.
-/

namespace TileGrid

/-- A launch that is checked where it is made. -/
def Launch.group (domain tile : Shape) : Except Fault Launch := do
  check ⟨domain, tile⟩
  return ⟨domain, tile⟩

theorem Launch.eq_of_group {domain tile : Shape} {l : Launch}
    (h : group domain tile = .ok l) :
    l = ⟨domain, tile⟩ := by
  unfold group at h
  cases hcheck : check ⟨domain, tile⟩ with
  | error f =>
      rw [hcheck] at h
      cases h
  | ok u =>
      rw [hcheck] at h
      cases h
      rfl

namespace Host

variable {ν : Type}

/-! ## Whatever happened before -/

/-- The driver is `d`, and its trace is its own. -/
structure Held (id : Nat) (d : Driver) (h : Host ν) : Prop where
  driver : h.driver id = d
  covers : Veil.Covers ⟨[id], [d.recorder]⟩ h

/-- What can have happened to the driver `d` outside its runs: run calls
on it, whatever came of them, and anything else that does not change it.
While it is running, a body can try to run it and do anything else that
does not change it. -/
inductive History (id : Nat) (d : Driver) : Host ν → Host ν → Prop
  | other {h h' : Host ν} : (Held id d h → Held id d h') → History id d h h'
  | call {h : Host ν} {given current : Act ν Launch}
      {body : Tile → Act ν Completion} :
      Looks given → Looks current →
      (∀ t s, Held id { d with phase := .running } s →
        Held id { d with phase := .running } (body t s).state) →
      History id d h (runOver id given current body h).state
  | trans {h h₁ h₂ : Host ν} : History id d h h₁ → History id d h₁ h₂ →
      History id d h h₂

section

variable {id : Nat} {d : Driver}

theorem Held.congr {h h' : Host ν} (hh : Held id d h)
    (hd : h'.drivers = h.drivers) (hr : h.recorders.size ≤ h'.recorders.size) :
    Held id d h' := by
  have hdriver : ∀ i, h'.driver i = h.driver i := by
    intro i
    rw [Host.driver, hd, Host.driver]
  refine ⟨(hdriver id).trans hh.driver, ?_, ?_, ?_, ?_⟩
  · intro i hi
    rw [hdriver]
    exact (hh.covers.wired i (hd ▸ hi)).trans_le hr
  · intro i hi
    rw [hd]
    exact hh.covers.made i hi
  · intro r hr'
    exact (hh.covers.kept r hr').trans_le hr
  · intro i hi hout
    rw [hdriver]
    exact hh.covers.own i (hd ▸ hi) hout

theorem Held.setPhase {h : Host ν} (hh : Held id d h) (phase : Phase) :
    Held id { d with phase } (h.setPhase id phase) := by
  refine ⟨?_, hh.covers.setPhase id phase⟩
  rw [driver_setPhase (hh.covers.made id (by simp)), hh.driver]

/-- **A run leaves its driver as it was**, however it ends. -/
theorem Held.runOver {h : Host ν} (hh : Held id d h)
    {given current : Act ν Launch} {body : Tile → Act ν Completion}
    (hgiven : Looks given) (hcurrent : Looks current)
    (hbody : ∀ t s, Held id { d with phase := .running } s →
      Held id { d with phase := .running } (body t s).state) :
    Held id d (runOver id given current body h).state := by
  let G : Host ν → Host ν → Prop := fun s t =>
    ∀ phase, Held id { d with phase } s → Held id { d with phase } t
  have hreports : IgnoresReports G := fun s t hd _ hr phase hs =>
    hs.congr hd hr.1
  have hG : ∀ phase, Onward (Held id { d with phase }) G := fun phase =>
    ⟨fun s _ hs => hs, fun hst htu phase hs => htu phase (hst phase hs),
      fun hs hst => hst phase hs⟩
  have hphase : ∀ {s : Host ν} {phase : Phase}, Held id { d with phase } s →
      (s.driver id).phase = phase := by
    intro s phase hs
    rw [hs.driver]
  have hrun : Along (Held id d) G (Host.runOver id given current body)
      (Host.runOver id given current body) := by
    apply along_runOver hreports (hG d.phase) (hG .running)
    · exact fun s hs _ => hs.setPhase .running
    · intro s t hs hidle hst phase hp
      obtain rfl : phase = .idle := (hphase hp).symm.trans hidle
      exact (hst .running (hs.setPhase .running)).setPhase .idle
    · exact hgiven
    · exact .of_looks (hG .running) hcurrent
    · intro t
      refine .of_state fun s hs phase hp => ?_
      obtain rfl : phase = .running := (hphase hp).symm.trans (hphase hs)
      exact hbody t s hs
  exact (hrun h hh).2 d.phase hh

/-- After whatever happened a driver is as it was before. -/
theorem History.held {h h' : Host ν} (hhist : History id d h h')
    (hh : Held id d h) :
    Held id d h' := by
  induction hhist with
  | other hkeep => exact hkeep hh
  | call hgiven hcurrent hbody => exact hh.runOver hgiven hcurrent hbody
  | trans _ _ ih₁ ih₂ => exact ih₂ (ih₁ hh)

end

/-! ## As on a new driver -/

/-- Two drivers and their traces. -/
def Veil.pair (id n : Nat) (h : Host ν) : Veil :=
  ⟨[id, n], [(h.driver id).recorder, (h.driver n).recorder]⟩

theorem Held.pair {id n : Nat} {d e : Driver} {h : Host ν} (hd : Held id d h)
    (he : Held n e h) :
    (Veil.pair id n h).Covers h := by
  obtain ⟨rfl, hd⟩ := hd
  obtain ⟨rfl, he⟩ := he
  refine ⟨hd.wired, ?_, ?_, ?_⟩
  · intro i hi
    rcases List.mem_pair.mp hi with rfl | rfl
    · exact hd.made _ (by simp)
    · exact he.made _ (by simp)
  · intro r hr
    rcases List.mem_pair.mp hr with rfl | rfl
    · exact hd.kept _ (by simp)
    · exact he.kept _ (by simp)
  · intro i hi hout hr
    obtain ⟨hid, hn⟩ := not_or.mp (mt List.mem_pair.mpr hout)
    rcases List.mem_pair.mp hr with heq | heq
    · exact hd.own i hi (by simpa using hid) (by simpa using heq)
    · exact he.own i hi (by simpa using hn) (by simpa using heq)

/-- A driver that is made in a state in which all drivers have their traces. -/
theorem held_withDriver {h : Host ν}
    (hw : ∀ i < h.drivers.size, (h.driver i).recorder < h.recorders.size)
    (o : Options) :
    Held h.drivers.size ⟨.idle, o.settings h.environment, h.recorders.size⟩
      (h.withDriver o) := by
  have hc : Veil.Covers ⟨[], []⟩ h := ⟨hw, by simp, by simp, by simp⟩
  have hmade := hc.withDriver o
  refine ⟨driver_withDriver h o, hmade.wired, ?_, ?_, ?_⟩
  · simp [withDriver]
  · simp [withDriver]
  · intro i hi hout
    have hne : i ≠ h.drivers.size := by simpa using hout
    rw [driver_withDriver_eq, if_neg hne]
    have hlt := hw i (by simp [withDriver] at hi; omega)
    simpa using Nat.ne_of_lt hlt

theorem Held.withDriver {id : Nat} {d : Driver} {h : Host ν} (hh : Held id d h)
    (o : Options) :
    Held id d (h.withDriver o) := by
  refine ⟨?_, hh.covers.withDriver o⟩
  rw [(Veil.Keeps.withDriver hh.covers o).drivers id (by simp), hh.driver]

theorem Held.withNotes {id : Nat} {d : Driver} {h : Host ν} (hh : Held id d h)
    (notes : List Tile) :
    Held id d (h.withNotes notes) := ⟨hh.driver, hh.covers.withCaller _⟩

/-- Runs from the state `h` on the drivers `id` and `n` have come to the
same: they ended the same, all is the same after them but for the two drivers
and their traces, the drivers are as they were, and the same events were
added to the traces. -/
def EndAlike (id n : Nat) (h : Host ν)
    (r r' : EStateM.Result Fault (Host ν) Unit) : Prop :=
  ∃ es, Paired (fun s s' => (Veil.pair id n h).Same s s' ∧
    Extended id .idle h es s ∧ Extended n .idle h es s') r r'

theorem endAlike_runOver {id n : Nat} {d e : Driver} {h : Host ν}
    (hd : Held id d h) (he : Held n e h) (hidle : d.phase = .idle)
    (hidle' : e.phase = .idle) (hsettings : d.settings = e.settings)
    {given current : Act ν Launch} {body : Tile → Act ν Completion}
    (hlooks : Looks given) (hgiven : Overlooks (.pair id n h) given)
    (hcurrent : Overlooks (.pair id n h) current)
    (hbody : ∀ t, Overlooks (.pair id n h) (body t)) :
    EndAlike id n h (runOver id given current body h)
      (runOver n given current body h) := by
  have hcovers := hd.pair he
  obtain ⟨rfl, -⟩ := hd
  obtain ⟨rfl, -⟩ := he
  obtain ⟨es, hstep⟩ := inStep_runOver hlooks hgiven hcurrent hbody
    (fun i => bif i then id else n) (fun _ => h) (.refl hcovers)
    (by rintro (_ | _) <;> simp [Veil.pair])
    (by rintro (_ | _) <;> simp [Veil.pair])
    (by rintro (_ | _) <;> assumption) hsettings
  exact ⟨es, hstep.paired fun s hs => ⟨hs.1, hs.2 true, hs.2 false⟩⟩

/-- What a run on a driver has in common with a run on one that is made in
the state `h`, which leads to the state `g`, and with a kernel that is
launched in `h`. -/
structure LikeNew (id n : Nat) (o : Options) (h g : Host ν)
    (given current : Act ν Launch) (body : Tile → Act ν Completion) : Prop where
  run : EndAlike id n g (runOver id given current body g)
    (runOver n given current body g)
  /-- The body is called for the same tiles: they are noted beside the
  rest of the state. -/
  calls : EndAlike id n (g.withNotes [])
    (runOver id (beside given) (beside current) (noting body) (g.withNotes []))
    (runOver n (beside given) (beside current) (noting body) (g.withNotes []))
  /-- A kernel makes the driver by itself. -/
  kernel : EndAlike id n g (runOver id given current body g)
    (launchOver o given current body h)
  kernel_calls : EndAlike id n (g.withNotes [])
    (runOver id (beside given) (beside current) (noting body) (g.withNotes []))
    (launchOver o (beside given) (beside current) (noting body)
      (h.withNotes []))
  /-- The launch of a kernel may have been checked beforehand. -/
  grouped : ∀ {domain tile l}, Launch.group domain tile = .ok l →
    given = pure ⟨domain, tile⟩ →
    current = pure ⟨domain, tile⟩ →
    EndAlike id n g (runOver id given current body g) (launch o l body h) ∧
    EndAlike id n (g.withNotes [])
      (runOver id (beside given) (beside current) (noting body)
        (g.withNotes []))
      (launch o l (noting body) (h.withNotes []))

/-- **No run leaves anything behind for the next.** Whatever happened to a
driver that is at rest, a run on it comes to the same as a run on a driver that
is newly made, with options that come to the same settings, and as a kernel
with these options, if the launch and the body have no access to the two
drivers and their traces. -/
theorem run_like_new {id n : Nat} {d : Driver} {h₀ h g : Host ν}
    (hheld : Held id d h₀) (hidle : d.phase = .idle) (hhist : History id d h₀ h)
    {o : Options} (hnew : newDriver o h = .ok n g)
    (ho : o.settings h.environment = d.settings) {given current : Act ν Launch}
    {body : Tile → Act ν Completion} (hlooks : Looks given)
    (hgiven : Overlooks (.pair id n g) given)
    (hcurrent : Overlooks (.pair id n g) current)
    (hbody : ∀ t, Overlooks (.pair id n g) (body t)) :
    LikeNew id n o h g given current body := by
  cases hnew
  have hd := hhist.held hheld
  have hnew := held_withDriver hd.covers.wired o
  have hrun := endAlike_runOver (hd.withDriver o) hnew hidle rfl ho.symm hlooks
    hgiven hcurrent hbody
  have hcalls : EndAlike id h.drivers.size ((h.withDriver o).withNotes [])
      (runOver id (beside given) (beside current) (noting body)
        ((h.withDriver o).withNotes []))
      (runOver h.drivers.size (beside given) (beside current) (noting body)
        ((h.withDriver o).withNotes [])) := by
    apply endAlike_runOver ((hd.withDriver o).withNotes [])
      (hnew.withNotes []) hidle rfl ho.symm
      (looks_beside hlooks) (hgiven.edit _) (hcurrent.edit _)
    intro t
    exact (hbody t).edit (· ++ [t])
  refine ⟨hrun, hcalls, hrun, hcalls, ?_⟩
  rintro domain tile l hl rfl rfl
  obtain rfl := Launch.eq_of_group hl
  exact ⟨hrun, hcalls⟩

/-- Two columns, one to a tile. -/
def row : Launch := ⟨Shape.whole [2], Shape.whole [1]⟩

/-- A body that tries to run the driver that runs it. -/
def reenters (_ : Tile) : Act Nat Completion := do
  Host.run 0 row fun _ => return .finished
  return .finished

/-- A body that launches a kernel of its own, which counts its calls, and fails
at the second tile. -/
def launches (t : Tile) : Act Nat Completion := do
  Host.launch ⟨none, some true⟩ row fun _ h =>
    .ok .finished { h with caller := h.caller + 1 }
  if t.id = Shape.whole [1] then throw .unsupported else return .finished

theorem overlooks_launches (v : Veil) (t : Tile) :
    Overlooks v (launches t) := by
  have hkernel : Overlooks v (Host.launch ⟨none, some true⟩ row fun _ h =>
      .ok .finished { h with caller := h.caller + 1 } : Act Nat Unit) :=
    .launchOver (looks_pure row) (.pure row) (.pure row)
      (fun _ => .modifyCaller (· + 1) _) _
  refine hkernel.bind fun _ _ _ _ _ => ?_
  split
  · exact .throw _
  · exact .pure _

/-- A driver that was refused a run in its own run, which that stopped, and then
runs a body that launches a kernel and fails. -/
theorem run_like_new_failing :
    let o : Options := ⟨some true, some true⟩
    let d : Driver := ⟨.idle, ⟨true, true⟩, 0⟩
    let h₀ : Host Nat := (Host.empty .empty 0).withDriver o
    let h := (run 0 row reenters h₀).state
    Held 0 d h₀ ∧ History 0 d h₀ h ∧ (h.entries 0).size = 3 ∧
    LikeNew 0 h.drivers.size o h (h.withDriver o) (pure row)
      (pure row) launches := by
  intro o d h₀ h
  have hheld : Held 0 d h₀ :=
    held_withDriver (h := Host.empty .empty 0) (by simp [Host.empty]) o
  have hhist : History 0 d h₀ h := by
    apply History.call (looks_pure row) (looks_pure row)
    intro t s hs
    have hrefused : run 0 row (fun _ => return .finished) s = .error .busy s :=
      runOver_of_running (by rw [hs.driver])
    have hend : reenters t s = .error .busy s := by
      show EStateM.bind _ _ s = _
      unfold EStateM.bind
      rw [hrefused]
    rw [hend]
    exact hs
  have hsize : (h.entries 0).size = 3 := by decide +kernel
  have hsettings : ∀ env, o.settings env = d.settings := fun _ => rfl
  refine ⟨hheld, hhist, hsize, ?_⟩
  exact run_like_new hheld rfl hhist (newDriver_eq o h) (hsettings _)
    (looks_pure row) (.pure row)
    (.pure row) (overlooks_launches _)

end Host

end TileGrid
