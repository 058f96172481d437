import TileGrid.Proofs.Drivers
import TileGrid.Proofs.Wording

/-!
# The grammar of a trace

`Host.Life` says what can happen to a driver between two moments outside its
runs: run calls on it, accepted, refused or stopped, one after the other or
nested in the runs of other drivers, and anything that leaves the driver and
its trace alone. From the making of a driver that records its events, the
trace is one `Launch.Segment` after the other, one for each accepted run and
none for a refused one.
-/

namespace TileGrid

/-- The event that a run reports a tile by. -/
def Tile.event (t : Tile) : Event := .tile t.id t.offset t.shape

/-- What an accepted run records, by the fault it ends with: its launch, then
all tiles and their number, or the tiles up to the one that stopped it, with the
number of those before it and a text that says what the fault is. How tiles are
counted is a parameter. -/
inductive Launch.Segment (wording : Fault → String) (count : Nat → Number)
    (l : Launch) : Option Fault → List Event → Prop where
  | finished {counts : Shape} : l.counts = .ok counts →
      Segment wording count l none (.start l.domain l.tile counts ::
        (l.tiles.map Tile.event ++ [.finish (count l.tiles.length)]))
  | aborted {counts : Shape} {k : Nat} {t : Tile} {fault : Fault}
      {reason : String} : l.counts = .ok counts → l.tiles[k]? = some t →
      t.id ≠ [] → fault.Says wording reason →
      Segment wording count l (some fault) (.start l.domain l.tile counts ::
        ((l.tiles.take (k + 1)).map Tile.event ++
          [.abort t.id (count k) reason]))

/-- Counts of up to `n` tiles are all that a segment of `n` events has. -/
theorem Launch.Segment.congr {wording : Fault → String}
    {count count' : Nat → Number} {l : Launch} {ending : Option Fault}
    {es : List Event} (hs : l.Segment wording count ending es)
    (h : ∀ n ≤ es.length, count n = count' n) :
    l.Segment wording count' ending es := by
  cases hs with
  | finished hcounts =>
      rw [h _ (by simp; omega)]
      exact .finished hcounts
  | aborted hcounts ht hid hsays =>
      have hk := (List.getElem?_eq_some_iff.1 ht).1
      rw [h _ (by simp; omega)]
      exact .aborted hcounts ht hid hsays

/-- An accepted run: its launch, the fault that ended it, if one did, and how
the machine words the faults it raises by itself. -/
structure Passage where
  launch : Launch
  ending : Option Fault
  wording : Fault → String

/-- What a run records, with its tiles counted so. -/
def Passage.Segment (count : Nat → Number) (p : Passage) : List Event → Prop :=
  p.launch.Segment p.wording count p.ending

namespace Host

variable {ν : Type} {id : Nat}

/-! ## What happens to a driver -/

/-- The driver is the same and so is its trace. -/
structure Untouched (id : Nat) (h h' : Host ν) : Prop where
  driver : h'.driver id = h.driver id
  trace : h'.recorders[(h.driver id).recorder]? =
    h.recorders[(h.driver id).recorder]?

theorem Untouched.refl (h : Host ν) : Untouched id h h := ⟨rfl, rfl⟩

theorem Untouched.trans {h h₁ h₂ : Host ν} (ha : Untouched id h h₁)
    (hb : Untouched id h₁ h₂) :
    Untouched id h h₂ where
  driver := hb.driver.trans ha.driver
  trace := by rw [← ha.trace, ← ha.driver, hb.trace]

/-- The state in which the first tile of a run comes up. -/
def begun (id : Nat) (l : Launch) (h : Host ν) : Host ν :=
  (h.setPhase id .running).emit id
    (.start l.domain l.tile
      (Shape.whole (Tiling.counts l.domainNats l.tileNats)))

/-- The calls of a body over tiles: the tile, and the state in which it
is called. -/
inductive Called (id : Nat) (body : Tile → Act ν Completion) :
    Host ν → List Tile → Tile → Host ν → Prop where
  | here (h : Host ν) (t : Tile) (ts : List Tile) :
      Called id body h (t :: ts) t (h.emit id t.event)
  | later {h h₁ h₂ : Host ν} {t u : Tile} {ts : List Tile} :
      body t (h.emit id t.event) = .ok .finished h₁ →
        Called id body h₁ ts u h₂ →
      Called id body h (t :: ts) u h₂

/-- What happens to a driver from one moment to a later one, with the runs it
accepted on the way. During an accepted run the same may happen in each call of
the body, whatever that comes to. -/
inductive Life (id : Nat) : Host ν → List Passage → Host ν → Prop where
  | other {h h' : Host ν} : Untouched id h h' → Life id h [] h'
  | refused {h h' : Host ν} {l : Launch} {body : Tile → Act ν Completion}
      {fault : Fault} :
      (h.driver id).phase = .running ∨ l.check ≠ .ok () →
        run id l body h = .error fault h' →
      Life id h [] h'
  | accepted {h h' : Host ν} {l : Launch} {body : Tile → Act ν Completion}
      {ending : Option Fault} (runs : Tile → Host ν → List Passage) :
      (h.driver id).phase = .idle → l.check = .ok () →
      (∀ g ∈ l.domain, g.le (.ofNat Number.safeLimit) = true) →
      (∀ t h₁, Called id body (begun id l h) l.tiles t h₁ →
        Life id h₁ (runs t h₁) (body t h₁).state) →
      run id l body h = ended ending h' →
      Life id h [⟨l, ending, h'.environment.wording⟩] h'
  | trans {h h₁ h₂ : Host ν} {runs runs' : List Passage} :
      Life id h runs h₁ → Life id h₁ runs' h₂ → Life id h (runs ++ runs') h₂

/-! ## The driver and its trace -/

/-- A driver in a phase, that records its events and has recorded these. -/
structure Recorded (id : Nat) (phase : Phase) (h : Host ν)
    (es : List Event) : Prop where
  phase : (h.driver id).phase = phase
  on : (h.driver id).settings.trace = true
  trace : h.recorders[(h.driver id).recorder]? = some (es.map .event).toArray

namespace Recorded

variable {h h' : Host ν} {phase : Phase} {es : List Event}

theorem lt_size (hr : Recorded id phase h es) : id < h.drivers.size := by
  by_contra hge
  have hon := hr.on
  rw [driver_of_size_le (Nat.le_of_not_lt hge)] at hon
  cases hon

theorem of_untouched (hr : Recorded id phase h es) (hu : Untouched id h h') :
    Recorded id phase h' es where
  phase := by rw [hu.driver, hr.phase]
  on := by rw [hu.driver, hr.on]
  trace := by rw [hu.driver, hu.trace, hr.trace]

theorem setPhase (hr : Recorded id phase h es) (next : Phase) :
    Recorded id next (h.setPhase id next) es := by
  have hdriver := driver_setPhase hr.lt_size next
  constructor
  · rw [hdriver]
  · rw [hdriver]
    exact hr.on
  · rw [hdriver]
    exact hr.trace

theorem emit (hr : Recorded id phase h es) (e : Event) :
    Recorded id phase (h.emit id e) (es ++ [e]) := by
  have hlt := (Array.getElem?_eq_some_iff.mp hr.trace).1
  have htrace : (h.emit id e).recorders =
      (h.record (h.driver id).recorder (.event e)).recorders := by
    unfold Host.emit
    simp only [hr.on, if_true]
    split <;> rfl
  constructor
  · rw [driver_emit, hr.phase]
  · rw [driver_emit, hr.on]
  · rw [driver_emit, htrace, record, Array.getElem?_modify,
      if_pos rfl, hr.trace]
    simp

theorem warnRejected (hr : Recorded id phase h es) (tile : Index)
    (rejection : Option Fault) :
    Recorded id phase (h.warnRejected tile rejection) es := by
  cases rejection with
  | none => exact hr
  | some reason => exact ⟨hr.phase, hr.on, hr.trace⟩

end Recorded

/-- A refused run fails and changes nothing. -/
theorem run_of_refused {h : Host ν} {l : Launch}
    (hwhy : (h.driver id).phase = .running ∨ l.check ≠ .ok ())
    (body : Tile → Act ν Completion) :
    ∃ fault, run id l body h = .error fault h := by
  cases hphase : (h.driver id).phase with
  | running => exact ⟨_, runOver_of_running hphase⟩
  | idle =>
      have hl : l.check ≠ .ok () := hwhy.resolve_left (by simp [hphase])
      exact ⟨_, runOver_of_rejected hphase (pure_apply l h) hl⟩

theorem eq_of_refused {h h' : Host ν} {l : Launch}
    {body : Tile → Act ν Completion} {fault : Fault}
    (hwhy : (h.driver id).phase = .running ∨ l.check ≠ .ok ())
    (hrun : run id l body h = .error fault h') : h' = h := by
  obtain ⟨fault', hrefused⟩ := run_of_refused hwhy body
  rw [hrefused] at hrun
  cases hrun
  rfl

/-- Nothing that happens to a running driver shows in it or in its trace: all
runs are refused. -/
theorem Life.of_running {h h' : Host ν} {runs : List Passage}
    (hlife : Life id h runs h') (hrun : (h.driver id).phase = .running) :
    runs = [] ∧ Untouched id h h' := by
  induction hlife with
  | other hu => exact ⟨rfl, hu⟩
  | refused hwhy hrefused =>
      rw [eq_of_refused hwhy hrefused]
      exact ⟨rfl, .refl _⟩
  | accepted runs hidle => rw [hrun] at hidle; cases hidle
  | trans _ _ ih₁ ih₂ =>
      obtain ⟨rfl, hu₁⟩ := ih₁ hrun
      obtain ⟨rfl, hu₂⟩ := ih₂ (by rw [hu₁.driver, hrun])
      exact ⟨rfl, hu₁.trans hu₂⟩

/-- **The tiles of a run in its trace**: one event each, up to the one
that stops the run. -/
theorem recorded_foldTiles {body : Tile → Act ν Completion} {ts : List Tile}
    (finished : Nat) {h : Host ν} {es : List Event}
    (hr : Recorded id .running h es)
    (hbody : ∀ t h₁, Called id body h ts t h₁ →
      ∃ runs, Life id h₁ runs (body t h₁).state) :
    match foldTiles id body ts finished h with
    | .ok tiles h' => tiles = finished + ts.length ∧
        Recorded id .running h' (es ++ ts.map Tile.event)
    | .error a h' =>
      ∃ k t, ts[k]? = some t ∧ a.tile = t.id ∧ a.finished = finished + k ∧
        Recorded id .running h' (es ++ (ts.take (k + 1)).map Tile.event) := by
  induction ts generalizing finished h es with
  | nil => exact ⟨rfl, by simpa using hr⟩
  | cons t ts ih =>
      -- the call finds the driver running, so its trace is as it was
      -- before the call
      have htile := hr.emit t.event
      obtain ⟨runs, hlife⟩ := hbody t _ (.here h t ts)
      have hcall := htile.of_untouched (hlife.of_running htile.phase).2
      rw [foldTiles_cons, ← Tile.event]
      cases hend : body t (h.emit id t.event) with
      | error fault h' =>
          simp only [hend, EStateM.Result.state] at hcall
          exact ⟨0, t, rfl, rfl, rfl, by simpa using hcall⟩
      | ok c h' =>
          simp only [hend, EStateM.Result.state] at hcall
          cases c with
          | deferred rejection =>
              exact ⟨0, t, rfl, rfl,
                rfl, by simpa using hcall.warnRejected t.id rejection⟩
          | finished =>
              have hrest := ih (finished + 1) hcall
                (fun u h₁ hu => hbody u h₁ (.later hend hu))
              dsimp only
              cases hfold : foldTiles id body ts (finished + 1) h' with
              | ok tiles h'' =>
                  rw [hfold] at hrest
                  obtain ⟨rfl, htrace⟩ := hrest
                  refine ⟨?_, by simpa using htrace⟩
                  rw [List.length_cons]
                  omega
              | error a h'' =>
                  rw [hfold] at hrest
                  obtain ⟨k, u, hu, htile, hcount, htrace⟩ := hrest
                  exact ⟨k + 1, u, by simpa using hu,
                    htile, by omega, by simpa using htrace⟩

/-- Tiles are known by at least one coordinate. -/
theorem id_ne_nil {l : Launch} (hl : l.check = .ok ()) {k : Nat} {t : Tile}
    (ht : l.tiles[k]? = some t) : t.id ≠ [] := by
  obtain ⟨gs, ts, hs, hpos, -⟩ := Launch.check_iff.mp hl
  rw [Launch.tiles, Launch.getElem?_exactTiles, hs.domainNats,
    hs.tileNats] at ht
  obtain ⟨hk, rfl⟩ := ht
  have hlen := RowMajor.length_of_inBox (RowMajor.inBox_coordinate hk)
  rw [Tiling.length_counts hs.rank_eq] at hlen
  intro hnil
  have hzero := congrArg List.length hnil
  simp only [Launch.exactTile, Shape.length_whole, List.length_nil] at hzero
  omega

/-- **An accepted run adds one segment to the trace of its driver.** -/
theorem Recorded.run {l : Launch} (hl : l.check = .ok ())
    (hg : ∀ g ∈ l.domain, g.le (.ofNat Number.safeLimit) = true) {h h' : Host ν}
    {es : List Event} (hr : Recorded id .idle h es)
    {body : Tile → Act ν Completion}
    (hbody : ∀ t h₁, Called id body (begun id l h) l.tiles t h₁ →
      ∃ runs, Life id h₁ runs (body t h₁).state)
    {ending : Option Fault} (hrun : Host.run id l body h = ended ending h') :
    ∃ segment, l.Segment h'.environment.wording .tally ending segment ∧
      Recorded id .idle h' (es ++ segment) := by
  have hcounts := (Launch.splits_of_check hl).counts hl
    (Launch.domainNats_le hl hg)
  have hfold := recorded_foldTiles 0 ((hr.setPhase .running).emit _) hbody
  rw [run_eq hl hg hr.phase body, ← begun] at hrun
  cases hend : foldTiles id body l.tiles 0 (begun id l h) with
  | ok tiles h₁ =>
      rw [← begun, hend] at hfold
      rw [hend] at hrun
      obtain ⟨rfl, htrace⟩ := hfold
      cases ending with
      | some fault => cases hrun
      | none =>
          cases hrun
          refine ⟨_, .finished hcounts, ?_⟩
          have hclosed :=
            (htrace.emit (.finish (.tally (0 + l.tiles.length)))).setPhase .idle
          simpa using hclosed
  | error a h₁ =>
      rw [← begun, hend] at hfold
      rw [hend] at hrun
      obtain ⟨k, t, ht, htile, hcount, htrace⟩ := hfold
      cases ending with
      | none => cases hrun
      | some fault =>
          cases hrun
          rw [htile, hcount, Nat.zero_add]
          have hsays : a.fault.Says h₁.environment.wording
              (h₁.describe a.fault) :=
            a.fault.says_message _
          have hclosed := (htrace.emit
            (.abort t.id (.tally k) (h₁.describe a.fault))).setPhase .idle
          rw [(agree_emit h₁ id _).environment] at hsays
          exact ⟨_, .aborted hcounts ht (id_ne_nil hl ht) hsays,
            by simpa using hclosed⟩

/-- What happens to a driver at rest leaves it at rest, with one segment
more for each run. -/
theorem Life.recorded {h h' : Host ν} {runs : List Passage}
    (hlife : Life id h runs h') {es : List Event}
    (hr : Recorded id .idle h es) :
    ∃ segments, List.Forall₂ (Passage.Segment .tally) runs segments ∧
      Recorded id .idle h' (es ++ segments.flatten) := by
  induction hlife generalizing es with
  | other hu => exact ⟨[], .nil, by simpa using hr.of_untouched hu⟩
  | refused hwhy hrefused =>
      rw [eq_of_refused hwhy hrefused]
      exact ⟨[], .nil, by simpa using hr⟩
  | accepted runs hidle hl hg hbody hrun =>
      obtain ⟨segment, hsegment, hend⟩ :=
        hr.run hl hg (fun t h₁ ht => ⟨runs t h₁, hbody t h₁ ht⟩) hrun
      exact ⟨[segment], .cons hsegment .nil, by simpa using hend⟩
  | trans _ _ ih₁ ih₂ =>
      obtain ⟨segments, hall, hmid⟩ := ih₁ hr
      obtain ⟨segments', hall', hend⟩ := ih₂ hmid
      exact ⟨segments ++ segments',
        List.rel_append hall hall', by simpa using hend⟩

/-! ## Runs of this driver and of others -/

/-- Two drivers that record to different places. -/
def Apart (id id' : Nat) (h : Host ν) : Prop :=
  id' ≠ id ∧ (h.driver id').recorder ≠ (h.driver id).recorder

/-- Each driver records to where it did. -/
def SameRecorders (h h' : Host ν) : Prop :=
  ∀ id, (h'.driver id).recorder = (h.driver id).recorder

theorem Apart.of_same {h h' : Host ν} {id' : Nat} (ha : Apart id id' h)
    (hs : SameRecorders h h') :
    Apart id id' h' := by
  refine ⟨ha.1, ?_⟩
  rw [hs, hs]
  exact ha.2

theorem Untouched.emit {h : Host ν} {id' : Nat} (ha : Apart id id' h)
    (e : Event) :
    Untouched id h (h.emit id' e) := by
  refine ⟨driver_emit h id' id e, ?_⟩
  unfold Host.emit
  dsimp only
  split <;> split <;> simp [record, print, Array.getElem?_modify, ha.2]

/-- Two columns, one to a tile. -/
def pair : Launch := ⟨Shape.whole [2], Shape.whole [1]⟩

/-- Runs the driver `1` again, whatever it is doing, and fails where
that is refused. -/
def again (_ : Tile) : Act Unit Completion := do
  run 1 pair fun _ => return .finished
  return .finished

/-- A driver `0` that records its events too. -/
def alone : Host Unit :=
  { Host.empty .empty () with
    recorders := #[#[]], drivers := #[⟨.idle, ⟨true, false⟩, 0⟩] }

end Host

end TileGrid
