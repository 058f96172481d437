import TileGrid.Run
import TileGrid.Proofs.Notes
import TileGrid.Proofs.Tiling

/-!
# A run is a fold over the tiles

`foldTiles` calls a body for one tile after the other and stops at the first
that fails or leaves work for later. A run of a launch is that fold over
`Launch.tiles`, between two changes of phase and with the driver's own
events in between (`run_eq`). `Folds` says the same without the events: each
call starts from the state that the one before left, apart from what was
recorded and printed.
-/

namespace TileGrid.Host

open RowMajor Shape

variable {ν : Type}

theorem pure_apply {ε σ α : Type} (a : α) (s : σ) :
    (pure a : EStateM ε σ α) s = .ok a s := rfl

/-! ## The loop as a fold -/

/-- Where a fold over tiles stopped, and after how many tiles. -/
structure Halt where
  fault : Fault
  tile : Index
  finished : Nat

/-- Calls the body for each tile, `finished` tiles being done, up to the first
that stops the run. -/
def foldTiles (id : Nat) (body : Tile → Act ν Completion) :
    List Tile → Nat → EStateM Halt (Host ν) Nat
  | [], finished => pure finished
  | t :: ts, finished => fun h =>
    match body t (h.emit id (.tile t.id t.offset t.shape)) with
    | .ok .finished h => foldTiles id body ts (finished + 1) h
    | .ok (.deferred rejection) h =>
      .error ⟨.deferred t.id, t.id, finished⟩ (h.warnRejected t.id rejection)
    | .error fault h => .error ⟨fault, t.id, finished⟩ h

theorem foldTiles_cons (id : Nat) (body : Tile → Act ν Completion) (t : Tile)
    (ts : List Tile) (finished : Nat) (h : Host ν) :
    foldTiles id body (t :: ts) finished h =
      match body t (h.emit id (.tile t.id t.offset t.shape)) with
      | .ok .finished h => foldTiles id body ts (finished + 1) h
      | .ok (.deferred rejection) h =>
        .error ⟨.deferred t.id, t.id, finished⟩ (h.warnRejected t.id rejection)
      | .error fault h => .error ⟨fault, t.id, finished⟩ h := rfl

/-- One tile of the loop, over a launch that stays as it is. -/
theorem runTiles_some (id : Nat) (l : Launch) (counts : Shape)
    (body : Tile → Act ν Completion) (n : Nat) (index : Index)
    (finished : Number) (h : Host ν) :
    runTiles id (pure l) counts body (n + 1) (some index) finished h =
      match body (l.tileAt counts index)
        (h.emit id (.tile (l.tileAt counts index).id
        (l.tileAt counts index).offset (l.tileAt counts index).shape)) with
      | .ok .finished h =>
        runTiles id (pure l) counts body n (next? counts index) (finished + 1) h
      | .ok (.deferred rejection) h =>
        .error ⟨.deferred index, index, finished⟩
          (h.warnRejected index rejection)
      | .error fault h => .error ⟨fault, index, finished⟩ h := rfl

/-- The loop is the fold over the tiles from the `k`-th on. It counts with
numbers, which stop growing. -/
theorem runTiles_eq {l : Launch} {gs ts : List Nat} (hs : l.Splits gs ts)
    (hg : ∀ g ∈ gs, g ≤ Number.safeLimit)
    (hcounts : ∀ c ∈ Tiling.counts gs ts, c ≤ Number.safeLimit) (id : Nat)
    (body : Tile → Act ν Completion) (n k finished : Nat)
    (hn : (Tiling.counts gs ts).prod ≤ n + k) (h : Host ν) :
    runTiles id (pure l) (whole (Tiling.counts gs ts)) body n
      (cursor (Tiling.counts gs ts) k)
        (.tally finished) h =
      match foldTiles id body ((l.exactTiles gs ts).drop k) finished h with
      | .ok tiles h => .ok (.tally tiles) h
      | .error a h => .error ⟨a.fault, a.tile, .tally a.finished⟩ h := by
  have hwhole : (whole (Tiling.counts gs ts)).IsWhole (Tiling.counts gs ts) :=
    isWhole_whole hcounts
  have hlen : (l.exactTiles gs ts).length = (Tiling.counts gs ts).prod := by
    simp [Launch.exactTiles]
  induction n generalizing k finished h with
  | zero =>
      have hk : ¬ k < (Tiling.counts gs ts).prod := by omega
      rw [cursor, if_neg hk, List.drop_eq_nil_of_le (by omega)]
      rfl
  | succ n ih =>
      by_cases hk : k < (Tiling.counts gs ts).prod
      · have htile : (l.exactTiles gs ts).drop k =
            l.exactTile gs ts (coordinate (Tiling.counts gs ts) k) ::
              (l.exactTiles gs ts).drop (k + 1) := by
          rw [List.drop_eq_getElem_cons (by omega)]
          simp [Launch.exactTiles]
        have hat := hs.tileAt hg (inBox_coordinate hk)
        have hnext := next?_cursor hwhole hcounts hk
        rw [cursor, if_pos hk, htile, runTiles_some, hat, hnext, foldTiles_cons,
          Number.tally_add_one]
        -- both sides make the same call, and only what follows it is
        -- left to compare
        cases body
          (l.exactTile gs ts (coordinate (Tiling.counts gs ts) k)) _ with
        | error fault h' => rfl
        | ok c h' =>
            cases c with
            | finished => exact ih (k + 1) (finished + 1) (by omega) h'
            | deferred rejection => rfl
      · rw [cursor, if_neg hk, List.drop_eq_nil_of_le (by omega)]
        rfl

theorem counts_le_safeLimit {l : Launch} {gs ts : List Nat}
    (hs : l.Splits gs ts) (hg : ∀ g ∈ gs, g ≤ Number.safeLimit) :
    ∀ c ∈ Tiling.counts gs ts, c ≤ Number.safeLimit := by
  intro c hc
  rw [Tiling.counts, List.mem_iff_getElem] at hc
  obtain ⟨d, hd, rfl⟩ := hc
  rw [List.length_zipWith] at hd
  rw [List.getElem_zipWith]
  have hgd := List.getElem_mem (l := gs) (n := d) (by omega)
  have htd := List.getElem_mem (l := ts) (n := d) (by omega)
  exact (Tiling.count_le (hs.domain_pos _ hgd) (hs.tile_pos _ htd)).trans
    (hg _ hgd)

/-- **A run is a fold over the tiles of its launch.** -/
theorem run_eq {l : Launch} (hl : l.check = .ok ())
    (hg : ∀ g ∈ l.domain, g.le (.ofNat Number.safeLimit) = true) {id : Nat}
    {h : Host ν} (hidle : (h.driver id).phase = .idle)
    (body : Tile → Act ν Completion) :
    run id l body h =
      match foldTiles id body l.tiles 0 ((h.setPhase id .running).emit id
        (.start l.domain l.tile
          (whole (Tiling.counts l.domainNats l.tileNats)))) with
      | .ok tiles h =>
        .ok () ((h.emit id (.finish (.tally tiles))).setPhase id .idle)
      | .error a h =>
        .error a.fault ((h.emit id
          (.abort a.tile (.tally a.finished) (h.describe a.fault))).setPhase id
          .idle) := by
  have hs := Launch.splits_of_check hl
  have hle := Launch.domainNats_le hl hg
  have hcounts := counts_le_safeLimit hs hle
  have hwhole : (whole (Tiling.counts l.domainNats l.tileNats)).IsWhole _ :=
    isWhole_whole hcounts
  have hfold := runTiles_eq hs hle hcounts id body
    (stepBound (whole (Tiling.counts l.domainNats l.tileNats))) 0 0
    (prod_le_stepBound hwhole hcounts)
  have hcs := hs.counts hl hle
  have hzero : (0 : Number) = .tally 0 := rfl
  simp only [List.drop_zero] at hfold
  rw [run, runOver, hidle]
  simp only [pure_apply, hcs, first?_eq hwhole]
  rw [hzero, hfold, Launch.tiles]
  cases foldTiles id body (l.exactTiles l.domainNats l.tileNats) 0 _ <;> rfl

/-! ## Apart from trace and console -/

/-- The two states agree in all but what was recorded and printed. -/
structure Agree (h h' : Host ν) : Prop where
  storages : h.storages = h'.storages
  drivers : h.drivers = h'.drivers
  warnings : h.warnings = h'.warnings
  environment : h.environment = h'.environment
  caller : h.caller = h'.caller

theorem Agree.refl (h : Host ν) : Agree h h := ⟨rfl, rfl, rfl, rfl, rfl⟩

theorem Agree.trans {h h₁ h₂ : Host ν} (ha : Agree h h₁)
    (hb : Agree h₁ h₂) : Agree h h₂ :=
  ⟨ha.storages.trans hb.storages, ha.drivers.trans hb.drivers,
    ha.warnings.trans hb.warnings, ha.environment.trans hb.environment,
    ha.caller.trans hb.caller⟩

theorem Agree.setPhase {h h' : Host ν} (ha : Agree h h') (id : Nat)
    (phase : Phase) :
    Agree (h.setPhase id phase) (h'.setPhase id phase) :=
  ⟨ha.storages, by simp only [Host.setPhase, ha.drivers], ha.warnings,
    ha.environment, ha.caller⟩

/-- A driver's own events are recorded and printed, and change nothing else. -/
theorem agree_emit (h : Host ν) (id : Nat) (e : Event) :
    Agree h (h.emit id e) := by
  unfold emit
  constructor <;> dsimp only <;> split <;> split <;> rfl

/-- A fold with early exit, as a reference: from a state, over tiles, the calls
that are made, the fault that ends it (if one does) and the state it leaves. A
call starts from the state that the one before left, apart from what was
recorded and printed in between. -/
inductive Folds (body : Tile → Act ν Completion) :
    Host ν → List Tile → List Tile → Option Fault → Host ν → Prop where
  | done (h : Host ν) : Folds body h [] [] none h
  | next {h h₁ h₂ h' : Host ν} {t : Tile} {ts called : List Tile}
      {ending : Option Fault} :
      Agree h h₁ → body t h₁ = .ok .finished h₂ →
        Folds body h₂ ts called ending h' →
      Folds body h (t :: ts) (t :: called) ending h'
  | failed {h h₁ h₂ : Host ν} {t : Tile} {ts : List Tile} {fault : Fault} :
      Agree h h₁ → body t h₁ = .error fault h₂ →
        Folds body h (t :: ts) [t] (some fault) h₂
  | deferred {h h₁ h₂ : Host ν} {t : Tile} {ts : List Tile}
      {rejection : Option Fault} :
      Agree h h₁ → body t h₁ = .ok (.deferred rejection) h₂ →
      Folds body h (t :: ts) [t] (some (.deferred t.id))
        (h₂.warnRejected t.id rejection)

/-- The fold of the tiles is the reference fold. It counts the calls: all of
them where it ends by itself, and where it is stopped those before the last. -/
theorem folds_foldTiles (id : Nat) (body : Tile → Act ν Completion)
    (ts : List Tile) (finished : Nat) {h h₀ : Host ν} (ha : Agree h₀ h) :
    match foldTiles id body ts finished h with
    | .ok _ h' => ∃ h₁, Folds body h₀ ts ts none h₁ ∧ Agree h₁ h'
    | .error a h' => ∃ k, a.finished = finished + k ∧
        Folds body h₀ ts (ts.take (k + 1)) (some a.fault) h' := by
  induction ts generalizing finished h h₀ with
  | nil => exact ⟨h₀, .done h₀, ha⟩
  | cons t ts ih =>
      have hemit := ha.trans (agree_emit h id (.tile t.id t.offset t.shape))
      rw [foldTiles_cons]
      cases hbody : body t (h.emit id (.tile t.id t.offset t.shape)) with
      | error fault h' => exact ⟨0, rfl, .failed hemit hbody⟩
      | ok c h' =>
          cases c with
          | deferred rejection => exact ⟨0, rfl, .deferred hemit hbody⟩
          | finished =>
              have hrest := ih (finished + 1) (Agree.refl h')
              dsimp only at hrest ⊢
              cases hfold : foldTiles id body ts (finished + 1) h' with
              | ok tiles h'' =>
                  rw [hfold] at hrest
                  obtain ⟨h₁, hf, hag⟩ := hrest
                  exact ⟨h₁, .next hemit hbody hf, hag⟩
              | error a h'' =>
                  rw [hfold] at hrest
                  obtain ⟨k, hk, hf⟩ := hrest
                  exact ⟨k + 1, by omega, .next hemit hbody hf⟩

/-- A body that always finishes lets the fold go through all tiles. -/
theorem foldTiles_of_finished {body : Tile → Act ν Completion}
    (hbody : ∀ t h, ∃ h', body t h = .ok .finished h') (id : Nat)
    (ts : List Tile) (finished : Nat) (h : Host ν) :
    ∃ h', foldTiles id body ts finished h = .ok (finished + ts.length) h' := by
  induction ts generalizing finished h with
  | nil => exact ⟨h, rfl⟩
  | cons t ts ih =>
      obtain ⟨h₁, hcall⟩ := hbody t (h.emit id (.tile t.id t.offset t.shape))
      obtain ⟨h', hrest⟩ := ih (finished + 1) h₁
      refine ⟨h', ?_⟩
      rw [foldTiles_cons, hcall]
      dsimp only
      rw [hrest, List.length_cons]
      congr 1
      omega

section Invariants

variable {body : Tile → Act ν Completion} {Stop : Nat → Fault → Host ν → Prop}

/-- **An invariant of the storages and the caller's part along a run.** Where it
holds at the start, and the call for each tile finishes and carries it on, it
holds at the end. A call may fail instead: it is the last, and what is known of
it is known of the run. -/
theorem foldTiles_invariant {Inv : Nat → Host ν → Prop}
    (hcongr : ∀ k h h', h.storages = h'.storages → h.caller = h'.caller →
      Inv k h → Inv k h')
    (id : Nat) (ts : List Tile) (k : Nat)
    (hstep : ∀ j t, ts[j]? = some t → ∀ h, Inv (k + j) h →
      (∃ h', body t h = .ok .finished h' ∧ Inv (k + j + 1) h') ∨
        ∃ f h', body t h = .error f h' ∧ Stop (k + j) f h')
    {h : Host ν} (hinv : Inv k h) :
    (∃ tiles h', foldTiles id body ts k h = .ok tiles h' ∧
      Inv (k + ts.length) h') ∨
      ∃ j a h', j < ts.length ∧ foldTiles id body ts k h = .error a h' ∧
        Stop (k + j) a.fault h' := by
  induction ts generalizing k h with
  | nil => exact .inl ⟨k, h, rfl, hinv⟩
  | cons t ts ih =>
      have hagree := agree_emit h id (.tile t.id t.offset t.shape)
      have hemit := hcongr k _ _ hagree.storages hagree.caller hinv
      rw [foldTiles_cons]
      rcases hstep 0 t rfl _ hemit with ⟨h₁, hcall, hnext⟩ | ⟨f, h₁,
        hcall, hstop⟩
      · have hshift : ∀ j, k + (j + 1) = k + 1 + j := by omega
        have hsteps : ∀ j u, ts[j]? = some u → ∀ h, Inv (k + 1 + j) h →
            (∃ h', body u h = .ok .finished h' ∧ Inv (k + 1 + j + 1) h') ∨
              ∃ f h', body u h = .error f h' ∧ Stop (k + 1 + j) f h' := by
          intro j u hu h hj
          rw [← hshift] at hj ⊢
          exact hstep (j + 1) u (by simpa using hu) h hj
        rw [hcall, List.length_cons, hshift ts.length]
        rcases ih (k + 1) hsteps hnext with hdone | ⟨j, a, h', hj, hfold, hstop⟩
        · exact .inl hdone
        · exact .inr ⟨j + 1, a, h', by omega, hfold, hshift j ▸ hstop⟩
      · rw [hcall]
        exact .inr ⟨0, _, h₁, Nat.succ_pos _, rfl, hstop⟩

variable {l : Launch} (hl : l.check = .ok ())
  (hg : ∀ g ∈ l.domain, g.le (.ofNat Number.safeLimit) = true) {id : Nat}
  {h : Host ν} (hidle : (h.driver id).phase = .idle) (Inv : Nat → Host ν → Prop)
  (hcongr : ∀ k h h', h.storages = h'.storages → h.caller = h'.caller →
    Inv k h → Inv k h')

include hl hg hidle hcongr

theorem run_invariant_or_stop
    (hcongrStop : ∀ k f h h', h.storages = h'.storages → h.caller = h'.caller →
      Stop k f h → Stop k f h')
    (hstep : ∀ k t, l.tiles[k]? = some t → ∀ h, Inv k h →
      (∃ h', body t h = .ok .finished h' ∧ Inv (k + 1) h') ∨
        ∃ f h', body t h = .error f h' ∧ Stop k f h')
    (hinv : Inv 0 h) :
    (∃ h', run id l body h = .ok () h' ∧ Inv l.tiles.length h') ∨
      ∃ k f h', k < l.tiles.length ∧ run id l body h = .error f h' ∧
        Stop k f h' := by
  have hstart : Inv 0 ((h.setPhase id .running).emit id
      (.start l.domain l.tile
        (whole (Tiling.counts l.domainNats l.tileNats)))) := by
    have hagree := agree_emit (h.setPhase id .running) id
      (.start l.domain l.tile (whole (Tiling.counts l.domainNats l.tileNats)))
    exact hcongr 0 h _ hagree.storages hagree.caller hinv
  have hrun := run_eq hl hg hidle body
  have hends := foldTiles_invariant hcongr id l.tiles 0
    (by simpa only [Nat.zero_add] using hstep) hstart
  rcases hends with ⟨tiles, h', hfold, hlast⟩ | ⟨k, a, h', hk, hfold, hstop⟩
  · rw [hfold] at hrun
    rw [Nat.zero_add] at hlast
    have hagree := agree_emit h' id (.finish (.tally tiles))
    exact .inl ⟨_, hrun, hcongr _ h' _ hagree.storages hagree.caller hlast⟩
  · rw [hfold] at hrun
    rw [Nat.zero_add] at hstop
    have hagree := agree_emit h' id
      (.abort a.tile (.tally a.finished) (h'.describe a.fault))
    exact .inr ⟨k, _, _, hk, hrun,
      hcongrStop k _ h' _ hagree.storages hagree.caller hstop⟩

/-- Where every call finishes, the run ends by itself. -/
theorem run_invariant
    (hstep : ∀ k t, l.tiles[k]? = some t → ∀ h, Inv k h →
      ∃ h', body t h = .ok .finished h' ∧ Inv (k + 1) h')
    (hinv : Inv 0 h) :
    ∃ h', run id l body h = .ok () h' ∧ Inv l.tiles.length h' := by
  have hends := run_invariant_or_stop hl hg hidle Inv hcongr
    (fun _ _ _ _ _ _ (hstop : False) => hstop)
    (fun k t ht h hk => .inl (hstep k t ht h hk)) hinv
  rcases hends with hdone | ⟨_, _, _, _, _, hstop⟩
  · exact hdone
  · exact hstop.elim

end Invariants

/-! ## Noting the calls -/

/-- The body, with the tile of each of its calls noted. -/
def noting (body : Tile → Act ν Completion) (t : Tile) :
    Act (ν × List Tile) Completion :=
  noted t (body t)

theorem emit_withNotes (h : Host ν) (notes : List Tile) (id : Nat) (e : Event) :
    (h.withNotes notes).emit id e = (h.emit id e).withNotes notes := by
  have hdriver : (h.withNotes notes).driver id = h.driver id := rfl
  unfold emit
  rw [hdriver]
  dsimp only
  split <;> split <;> rfl

theorem setPhase_withNotes (h : Host ν) (notes : List Tile) (id : Nat)
    (phase : Phase) :
    (h.withNotes notes).setPhase id phase =
      (h.setPhase id phase).withNotes notes := rfl

theorem warnRejected_withNotes (h : Host ν) (notes : List Tile) (tile : Index)
    (rejection : Option Fault) :
    (h.withNotes notes).warnRejected tile rejection =
      (h.warnRejected tile rejection).withNotes notes := by
  cases rejection <;> rfl

/-- Noting changes nothing else, and the calls noted are those up to the one
that stops the fold. -/
theorem foldTiles_noting (id : Nat) (body : Tile → Act ν Completion)
    (ts : List Tile) (finished : Nat) (h : Host ν) (notes : List Tile) :
    foldTiles id (noting body) ts finished (h.withNotes notes) =
      match foldTiles id body ts finished h with
      | .ok tiles h' => .ok tiles (h'.withNotes (notes ++ ts))
      | .error a h' =>
        .error a (h'.withNotes
          (notes ++ ts.take (a.finished + 1 - finished))) := by
  induction ts generalizing finished h notes with
  | nil => simp [foldTiles, pure_apply]
  | cons t ts ih =>
      rw [foldTiles_cons, foldTiles_cons, emit_withNotes, noting,
        noted_withNotes]
      cases body t (h.emit id (.tile t.id t.offset t.shape)) with
      | error fault h' => simp
      | ok c h' =>
          cases c with
          | deferred rejection => simp [warnRejected_withNotes]
          | finished =>
              dsimp only
              rw [ih]
              have hcount :=
                folds_foldTiles id body ts (finished + 1) (Agree.refl h')
              cases hfold : foldTiles id body ts (finished + 1) h' with
              | ok tiles h'' => simp
              | error a h'' =>
                  rw [hfold] at hcount
                  obtain ⟨k, hk, -⟩ := hcount
                  have htake : a.finished + 1 - finished =
                      a.finished + 1 - (finished + 1) + 1 := by
                    omega
                  simp [htake]

/-! ## Whole runs -/

/-- The run with its calls noted. -/
theorem run_noting {l : Launch} (hl : l.check = .ok ())
    (hg : ∀ g ∈ l.domain, g.le (.ofNat Number.safeLimit) = true) {id : Nat}
    {h : Host ν} (hidle : (h.driver id).phase = .idle)
    (body : Tile → Act ν Completion) :
    run id l (noting body) (h.withNotes []) =
      match foldTiles id body l.tiles 0 ((h.setPhase id .running).emit id
        (.start l.domain l.tile
          (whole (Tiling.counts l.domainNats l.tileNats)))) with
      | .ok tiles h =>
        .ok ()
          (((h.emit id (.finish (.tally tiles))).setPhase id .idle).withNotes
            l.tiles)
      | .error a h =>
        .error a.fault (((h.emit id
          (.abort a.tile (.tally a.finished) (h.describe a.fault))).setPhase id
          .idle).withNotes
            (l.tiles.take (a.finished + 1))) := by
  rw [run_eq (h := h.withNotes []) hl hg hidle (noting body),
    setPhase_withNotes, emit_withNotes, foldTiles_noting]
  cases foldTiles id body l.tiles 0 ((h.setPhase id .running).emit id
      (.start l.domain l.tile
        (whole (Tiling.counts l.domainNats l.tileNats)))) with
  | ok tiles h' =>
      dsimp only
      rw [emit_withNotes]
      rfl
  | error a h' =>
      dsimp only
      rw [emit_withNotes]
      rfl

/-- How a run ends: by itself, or with a fault. -/
def ended : Option Fault → Host ν → EStateM.Result Fault (Host ν) Unit
  | none, h => .ok () h
  | some fault, h => .error fault h

end TileGrid.Host
