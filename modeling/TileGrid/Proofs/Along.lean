import TileGrid.Run

/-!
# Two actions along the same states

`Along P G x y` says that from the states in `P` the actions `x` and `y` do the
same, and that where they lead is later in the order `G`. With one action on
both sides it says what the action preserves; with two bodies of a loop, that it
matters only what a body does in the states in `P`, which are thus the only ones
that the loop calls it in.
-/

/-- The state that an action leaves, however it ends. -/
def EStateM.Result.state {ε σ α : Type} : EStateM.Result ε σ α → σ
  | .ok _ s => s
  | .error _ s => s

namespace TileGrid

/-- What an action that succeeded did first. -/
theorem ok_of_bind {ε σ α β : Type} {x : EStateM ε σ α} {k : α → EStateM ε σ β}
    {s t : σ} {b : β} (hr : (x >>= k) s = .ok b t) :
    ∃ a u, x s = .ok a u ∧ k a u = .ok b t := by
  change EStateM.bind x k s = _ at hr
  unfold EStateM.bind at hr
  cases hx : x s with
  | error e u => rw [hx] at hr; cases hr
  | ok a u =>
      rw [hx] at hr
      exact ⟨a, u, rfl, hr⟩

/-- What an action that failed did first. -/
theorem error_of_bind {ε σ α β : Type} {x : EStateM ε σ α}
    {k : α → EStateM ε σ β} {s t : σ} {e : ε} (hr : (x >>= k) s = .error e t) :
    x s = .error e t ∨ ∃ a u, x s = .ok a u ∧ k a u = .error e t := by
  change EStateM.bind x k s = _ at hr
  unfold EStateM.bind at hr
  cases hx : x s with
  | error e' u =>
      rw [hx] at hr
      cases hr
      exact .inl rfl
  | ok a u =>
      rw [hx] at hr
      exact .inr ⟨a, u, rfl, hr⟩

/-- An action after one that succeeds. -/
theorem bind_of_ok {ε σ α β : Type} {x : EStateM ε σ α} {s u : σ} {a : α}
    (hx : x s = .ok a u) (k : α → EStateM ε σ β) : (x >>= k) s = k a u := by
  show EStateM.bind x k s = _
  rw [EStateM.bind, hx]

theorem bind_of_error {ε σ α β : Type} {x : EStateM ε σ α} {s u : σ} {e : ε}
    (hx : x s = .error e u) (k : α → EStateM ε σ β) :
    (x >>= k) s = .error e u := by
  show EStateM.bind x k s = _
  rw [EStateM.bind, hx]

theorem bind_congr_at {ε σ α β : Type} {x x' : EStateM ε σ α}
    (k : α → EStateM ε σ β) {s : σ} (hx : x s = x' s) :
    (x >>= k) s = (x' >>= k) s := by
  show EStateM.bind x k s = EStateM.bind x' k s
  rw [EStateM.bind, EStateM.bind, hx]

/-- The actions do the same in the states in `P`, and lead to later ones. -/
def Along {ε σ α : Type} (P : σ → Prop) (G : σ → σ → Prop)
    (x y : EStateM ε σ α) : Prop :=
  ∀ s, P s → x s = y s ∧ G s (x s).state

/-- An order of states, and states from which all later ones are in `P` too. -/
structure Onward {σ : Type} (P : σ → Prop) (G : σ → σ → Prop) : Prop where
  refl : ∀ s, G s s
  trans : ∀ {s t u}, G s t → G t u → G s u
  closed : ∀ {s t}, P s → G s t → P t

/-- The action leaves the state as it is. -/
def Looks {ε σ α : Type} (x : EStateM ε σ α) : Prop := ∀ s, (x s).state = s

section Looks

variable {ε σ α β : Type}

@[simp] theorem looks_pure (a : α) : Looks (pure a : EStateM ε σ α) :=
  fun _ => rfl

@[simp] theorem looks_throw (e : ε) : Looks (throw e : EStateM ε σ α) :=
  fun _ => rfl

@[simp] theorem looks_settle (x : Except ε α) :
    Looks (settle x : EStateM ε σ α) := by
  cases x <;> exact fun _ => rfl

@[simp] theorem looks_ite {c : Prop} [Decidable c] {x y : EStateM ε σ α}
    (hx : Looks x) (hy : Looks y) : Looks (if c then x else y) := by
  split
  · exact hx
  · exact hy

/-- An action that returns something of the state. -/
@[simp] theorem looks_read (f : σ → α) :
    Looks (fun s => .ok (f s) s : EStateM ε σ α) := fun _ => rfl

@[simp] theorem Looks.bind {x : EStateM ε σ α} {k : α → EStateM ε σ β}
    (hx : Looks x) (hk : ∀ a, Looks (k a)) : Looks (x >>= k) := by
  intro s
  have hsame := hx s
  show (EStateM.bind x k s).state = s
  unfold EStateM.bind
  cases hr : x s with
  | error e t =>
      rw [hr] at hsame
      exact hsame
  | ok a t =>
      rw [hr] at hsame
      exact (hk a t).trans hsame

@[simp] theorem Looks.map {x : EStateM ε σ α} (hx : Looks x) (f : α → β) :
    Looks (f <$> x) := by
  intro s
  have hsame := hx s
  show (EStateM.map f x s).state = s
  unfold EStateM.map
  cases hr : x s with
  | error e t =>
      rw [hr] at hsame
      exact hsame
  | ok a t =>
      rw [hr] at hsame
      exact hsame

end Looks

namespace Along

variable {ε σ α β : Type} {P Q : σ → Prop} {G : σ → σ → Prop}

theorem mono {x y : EStateM ε σ α} (h : Along Q G x y)
    (hPQ : ∀ s, P s → Q s) : Along P G x y :=
  fun s hs => h s (hPQ s hs)

theorem of_state {x : EStateM ε σ α} (h : ∀ s, P s → G s (x s).state) :
    Along P G x x :=
  fun s hs => ⟨rfl, h s hs⟩

theorem of_looks (hG : Onward P G) {x : EStateM ε σ α} (h : Looks x) :
    Along P G x x := by
  intro s _
  rw [h]
  exact ⟨rfl, hG.refl s⟩

theorem pure (hG : Onward P G) (a : α) :
    Along P G (pure a : EStateM ε σ α) (Pure.pure a) :=
  of_looks hG (looks_pure a)

theorem throw (hG : Onward P G) (e : ε) :
    Along P G (throw e : EStateM ε σ α) (MonadExcept.throw e) :=
  of_looks hG (looks_throw e)

theorem ite {c : Prop} [Decidable c] {x y x' y' : EStateM ε σ α}
    (hx : Along P G x x') (hy : Along P G y y') :
    Along P G (if c then x else y) (if c then x' else y') := by
  split
  · exact hx
  · exact hy

theorem bind (hG : Onward P G) {x y : EStateM ε σ α} {k l : α → EStateM ε σ β}
    (hx : Along P G x y) (hk : ∀ a, Along P G (k a) (l a)) :
    Along P G (x >>= k) (y >>= l) := by
  intro s hs
  obtain ⟨heq, hlater⟩ := hx s hs
  show EStateM.bind x k s = EStateM.bind y l s ∧ G s (EStateM.bind x k s).state
  unfold EStateM.bind
  rw [← heq]
  cases hr : x s with
  | error e t =>
      rw [hr] at hlater
      exact ⟨rfl, hlater⟩
  | ok a t =>
      rw [hr] at hlater
      -- the second action starts in a state that is still in `P`
      obtain ⟨heq', hlater'⟩ := hk a t (hG.closed hs hlater)
      exact ⟨heq', hG.trans hlater hlater'⟩

end Along

namespace Host

variable {ν : Type} {P Q : Host ν → Prop} {G : Host ν → Host ν → Prop}

/-! ## Runs -/

/-- Recorders are still there, and so is what was printed. -/
def Outlasts (h h' : Host ν) : Prop :=
  h.recorders.size ≤ h'.recorders.size ∧ h.console.toList <+: h'.console.toList

theorem Outlasts.trans {h h₁ h₂ : Host ν} (ha : Outlasts h h₁)
    (hb : Outlasts h₁ h₂) :
    Outlasts h h₂ := ⟨Nat.le_trans ha.1 hb.1, ha.2.trans hb.2⟩

theorem outlasts_emit (h : Host ν) (id : Nat) (e : Event) :
    Outlasts h (h.emit id e) := by
  unfold Outlasts emit
  dsimp only
  split <;> split <;> simp [record, print]

/-- What a driver reports, and a warning, lead to a later state, as nothing that
matters to the order is changed. -/
def IgnoresReports (G : Host ν → Host ν → Prop) : Prop :=
  ∀ h h' : Host ν, h'.drivers = h.drivers → h'.caller = h.caller →
    Outlasts h h' → G h h'

section

variable (hreports : IgnoresReports G)

include hreports

theorem later_emit (h : Host ν) (id : Nat) (e : Event) : G h (h.emit id e) := by
  apply hreports
  · unfold emit
    dsimp only
    split <;> split <;> rfl
  · unfold emit
    dsimp only
    split <;> split <;> rfl
  · exact outlasts_emit h id e

theorem later_warnRejected (h : Host ν) (tile : Index)
    (rejection : Option Fault) :
    G h (h.warnRejected tile rejection) := by
  apply hreports
  · cases rejection <;> rfl
  · cases rejection <;> rfl
  · cases rejection <;> exact ⟨Nat.le_refl _, List.prefix_rfl⟩

/-- The loop over the tiles. -/
theorem along_runTiles (hG : Onward Q G) (id : Nat) {current : Act ν Launch}
    {body body' : Tile → Act ν Completion}
    (hcurrent : Along Q G current current)
    (hbody : ∀ t, Along Q G (body t) (body' t)) (counts : Shape) (n : Nat)
    (cursor : Option Index) (finished : Number) :
    Along Q G (runTiles id current counts body n cursor finished)
      (runTiles id current counts body' n cursor finished) := by
  induction n generalizing cursor finished with
  | zero =>
      cases cursor with
      | none => exact .pure hG _
      | some index => exact .throw hG _
  | succ n ih =>
      cases cursor with
      | none => exact .pure hG _
      | some index =>
          intro h hh
          obtain ⟨-, hlater⟩ := hcurrent h hh
          unfold runTiles
          dsimp only
          cases hl : current h with
          | error fault h₁ =>
              rw [hl] at hlater
              exact ⟨rfl, hlater⟩
          | ok l h₁ =>
              rw [hl] at hlater
              dsimp only
              generalize l.tileAt counts index = t
              -- the body is called after the event of its tile
              have htile :=
                later_emit hreports h₁ id (.tile t.id t.offset t.shape)
              have hstart := hG.trans hlater htile
              obtain ⟨heq, hcall⟩ := hbody t _ (hG.closed hh hstart)
              rw [← heq]
              cases hr : body t (h₁.emit id (.tile t.id t.offset t.shape)) with
              | error fault h₂ =>
                  rw [hr] at hcall
                  exact ⟨rfl, hG.trans hstart hcall⟩
              | ok c h₂ =>
                  rw [hr] at hcall
                  have hafter := hG.trans hstart hcall
                  cases c with
                  | deferred rejection =>
                      exact ⟨rfl,
                        hG.trans hafter
                          (later_warnRejected hreports h₂ index rejection)⟩
                  | finished =>
                      obtain ⟨hrest, hend⟩ := ih _ _ h₂ (hG.closed hh hafter)
                      exact ⟨hrest, hG.trans hafter hend⟩

/-- **A run, where the body is called in the states in `Q`.** The driver is
marked as running at the start and as at rest at the end, so `Q` is about the
states in between. -/
theorem along_runOver (hP : Onward P G) (hQ : Onward Q G) {id : Nat}
    {given current : Act ν Launch} {body body' : Tile → Act ν Completion}
    (henter : ∀ h, P h → (h.driver id).phase = .idle →
      Q (h.setPhase id .running))
    (hleave : ∀ h h', P h → (h.driver id).phase = .idle →
      G (h.setPhase id .running) h' →
      G h (h'.setPhase id .idle))
    (hgiven : Looks given) (hcurrent : Along Q G current current)
    (hbody : ∀ t, Along Q G (body t) (body' t)) :
    Along P G (runOver id given current body)
      (runOver id given current body') := by
  intro h hh
  unfold runOver
  cases hphase : (h.driver id).phase with
  | running => exact ⟨rfl, hP.refl h⟩
  | idle =>
      have hsame := hgiven h
      dsimp only
      cases hl : given h with
      | error fault h₁ =>
          obtain rfl : h₁ = h := by rw [← hsame, hl]; rfl
          exact ⟨rfl, hP.refl h₁⟩
      | ok l h₁ =>
          obtain rfl : h₁ = h := by rw [← hsame, hl]; rfl
          dsimp only
          cases l.counts with
          | error fault => exact ⟨rfl, hP.refl h₁⟩
          | ok counts =>
              have hstart := later_emit hreports (h₁.setPhase id .running) id
                (.start l.domain l.tile counts)
              have hloop := along_runTiles hreports hQ id hcurrent hbody counts
                counts.stepBound
                counts.first? 0 _ (hQ.closed (henter h₁ hh hphase) hstart)
              dsimp only
              rw [← hloop.1]
              cases hr : runTiles id current counts body counts.stepBound
                counts.first? 0
                  ((h₁.setPhase id .running).emit id
                    (.start l.domain l.tile counts)) with
              | ok tiles h₂ =>
                  rw [hr] at hloop
                  have hend := later_emit hreports h₂ id (.finish tiles)
                  exact ⟨rfl,
                    hleave h₁ _ hh hphase
                      (hQ.trans (hQ.trans hstart hloop.2) hend)⟩
              | error a h₂ =>
                  rw [hr] at hloop
                  have hend := later_emit hreports h₂ id
                    (.abort a.tile a.finished (h₂.describe a.fault))
                  exact ⟨rfl,
                    hleave h₁ _ hh hphase
                      (hQ.trans (hQ.trans hstart hloop.2) hend)⟩

end

end Host

end TileGrid
