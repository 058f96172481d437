import TileGrid.Script.Lookup
import TileGrid.Proofs.Layout

/-!
# What the actions of a script keep

An object fits a layout where all arrays in it do. `Follows w h` says that the
layout `w` describes the storages and that all named objects fit it.
`Keeps w act post` says that the action leads from every state that follows an
extension of `w` to one that follows a further extension, whether it succeeds or
fails, and that what it returns is as `post` says of that layout. `Safe` asks
nothing of what is returned.
-/

namespace TileGrid.Script

/-! ## Objects on a layout -/

/-- The arrays that can be reached from an object. -/
def Object.tensors : Object → List Tensor
  | tensor t => [t]
  | buffer b => [b.values]
  | masked values _ => values.tensors
  | observed _ _ inner => inner.tensors
  | slice array _ => array.tensors
  | _ => []

def Object.Fits (o : Object) (w : Layout) : Prop := ∀ t ∈ o.tensors, t.Fits w

namespace Object

variable {o : Object} {w w' : Layout}

theorem Fits.mono (ho : o.Fits w) (hw : w.Extends w') : o.Fits w' :=
  fun t ht => (ho t ht).mono hw

@[simp] theorem fits_tensor {t : Tensor} : (tensor t).Fits w ↔ t.Fits w := by
  simp [Fits, tensors]

@[simp] theorem fits_buffer {b : Buffer} :
    (buffer b).Fits w ↔ b.values.Fits w := by
  simp [Fits, tensors]

@[simp] theorem fits_masked {valid : Shape} :
    (masked o valid).Fits w ↔ o.Fits w := Iff.rfl

@[simp] theorem fits_observed {log : Nat} {shape : Item} :
    (observed log shape o).Fits w ↔ o.Fits w := Iff.rfl

@[simp] theorem fits_slice {origin : Item} :
    (slice o origin).Fits w ↔ o.Fits w := Iff.rfl

/-- An object without arrays fits everywhere. -/
theorem fits_of_tensors (h : o.tensors = []) : o.Fits w := by
  intro t ht
  rw [h] at ht
  cases ht

end Object

/-! ## States on a layout -/

structure Follows (w : Layout) (h : State) : Prop where
  storages : w.Describes h
  names : ∀ p ∈ h.caller.names, p.2.Fits w

namespace Follows

variable {w : Layout} {h h' : State}

/-- Nothing but the storages and the names matters. -/
theorem of_same (hw : Follows w h) (hs : h'.storages = h.storages)
    (hn : h'.caller.names = h.caller.names) : Follows w h' := by
  refine ⟨hw.storages.of_storages hs, ?_⟩
  rw [hn]
  exact hw.names

theorem find (hw : Follows w h) {name : String} {o : Object}
    (ho : h.caller.find name = .ok o) :
    o.Fits w := by
  unfold Scope.find at ho
  split at ho
  · rename_i hfound
    cases ho
    obtain ⟨before, after, heq, -⟩ := List.lookup_eq_some_iff.mp hfound
    exact hw.names (name, o) (by simp [heq])
  · cases ho

theorem unbind (hw : Follows w h) (name : String) :
    Follows w (State.modifyScope h (·.unbind name)) := by
  refine ⟨hw.storages.of_storages rfl, ?_⟩
  intro p hp
  exact hw.names p (List.mem_filter.mp hp).1

theorem bind (hw : Follows w h) (name : String) {o : Object} (ho : o.Fits w) :
    Follows w (State.modifyScope h (·.bind name o)) := by
  refine ⟨hw.storages.of_storages rfl, ?_⟩
  intro p hp
  rcases List.mem_cons.mp hp with rfl | hp
  · exact ho
  · exact (hw.unbind name).names p hp

end Follows

/-! ## Actions -/

section Actions

variable {ε α β : Type} {w w' : Layout} {post : Layout → α → Prop}
  {post' : Layout → β → Prop}

/-- Where an action led to, from a state that followed `w`. -/
def Lands (w : Layout) (post : Layout → α → Prop) :
    EStateM.Result ε State α → Prop
  | .ok a h => ∃ w', w.Extends w' ∧ Follows w' h ∧ post w' a
  | .error _ h => ∃ w', w.Extends w' ∧ Follows w' h

def Keeps (w : Layout) (act : EStateM ε State α)
    (post : Layout → α → Prop) : Prop :=
  ∀ w' h, w.Extends w' → Follows w' h → Lands w' post (act h)

abbrev Safe (w : Layout) (act : EStateM ε State α) : Prop :=
  Keeps w act fun _ _ => True

theorem Lands.mono {r : EStateM.Result ε State α} (hr : Lands w' post r)
    (hw : w.Extends w') :
    Lands w post r := by
  cases r with
  | ok a h =>
      obtain ⟨u, hu, hh, ha⟩ := hr
      exact ⟨u, hw.trans hu, hh, ha⟩
  | error e h =>
      obtain ⟨u, hu, hh⟩ := hr
      exact ⟨u, hw.trans hu, hh⟩

theorem Lands.imp {r : EStateM.Result ε State α} {post₂ : Layout → α → Prop}
    (hr : Lands w post r) (hpost : ∀ w a, post w a → post₂ w a) :
    Lands w post₂ r := by
  cases r with
  | ok a h =>
      obtain ⟨u, hu, hh, ha⟩ := hr
      exact ⟨u, hu, hh, hpost u a ha⟩
  | error e h => exact hr

/-- Another state with the same storages and names, and another result. -/
theorem Lands.ok_of_same {ε' : Type} {a : α} {b : β} {h h' : State}
    (hr : Lands w post (.ok a h : EStateM.Result ε State α))
    (hs : h'.storages = h.storages) (hn : h'.caller.names = h.caller.names)
    (hpost : ∀ w, post w a → post' w b) :
    Lands w post' (.ok b h' : EStateM.Result ε' State β) := by
  obtain ⟨u, hu, hh, ha⟩ := hr
  exact ⟨u, hu, hh.of_same hs hn, hpost u ha⟩

theorem Lands.error_of_same {ε' : Type} {e : ε} {e' : ε'} {h h' : State}
    (hr : Lands w post (.error e h : EStateM.Result ε State α))
    (hs : h'.storages = h.storages) (hn : h'.caller.names = h.caller.names) :
    Lands w post' (.error e' h' : EStateM.Result ε' State β) := by
  obtain ⟨u, hu, hh⟩ := hr
  exact ⟨u, hu, hh.of_same hs hn⟩

/-- What is kept from a layout on is kept from its extensions on. -/
theorem Keeps.mono {act : EStateM ε State α} (h : Keeps w act post)
    (hw : w.Extends w') :
    Keeps w' act post := fun u s hu hs => h u s (hw.trans hu) hs

theorem Keeps.imp {act : EStateM ε State α} {post₂ : Layout → α → Prop}
    (h : Keeps w act post) (hpost : ∀ w a, post w a → post₂ w a) :
    Keeps w act post₂ :=
  fun u s hu hs => (h u s hu hs).imp hpost

theorem Keeps.safe {act : EStateM ε State α}
    (h : Keeps w act post) : Safe w act :=
  h.imp fun _ _ _ => trivial

theorem keeps_pure {a : α} (h : ∀ w', w.Extends w' → post w' a) :
    Keeps w (pure a : EStateM ε State α) post :=
  fun u _ hu hs => ⟨u, .refl u, hs, h u hu⟩

@[simp] theorem safe_pure (a : α) : Safe w (pure a : EStateM ε State α) :=
  keeps_pure fun _ _ => trivial

@[simp] theorem keeps_throw (e : ε) :
    Keeps w (throw e : EStateM ε State α) post :=
  fun u _ _ hs => ⟨u, .refl u, hs⟩

theorem keeps_settle {x : Except ε α}
    (h : ∀ a, x = .ok a → ∀ w', w.Extends w' → post w' a) :
    Keeps w (settle x : EStateM ε State α) post := by
  cases x with
  | error e => exact keeps_throw e
  | ok a => exact keeps_pure (h a rfl)

@[simp] theorem safe_settle (x : Except ε α) :
    Safe w (settle x : EStateM ε State α) :=
  keeps_settle fun _ _ _ _ => trivial

@[simp] theorem keeps_ite {c : Prop} [Decidable c] {x y : EStateM ε State α}
    (hx : Keeps w x post) (hy : Keeps w y post) :
    Keeps w (if c then x else y) post := by
  split
  · exact hx
  · exact hy

/-- One action after another, which may use what the first returns. -/
theorem Keeps.bind {x : EStateM ε State α} {f : α → EStateM ε State β}
    (hx : Keeps w x post)
    (hf : ∀ w' a, w.Extends w' → post w' a → Keeps w' (f a) post') :
    Keeps w (x >>= f) post' := by
  intro u s hu hs
  have hland := hx u s hu hs
  show Lands u post' (EStateM.bind x f s)
  unfold EStateM.bind
  cases hr : x s with
  | error e s' =>
      rw [hr] at hland
      exact hland
  | ok a s' =>
      rw [hr] at hland
      -- the second action starts on the layout that the first one left
      obtain ⟨v, huv, hs', ha⟩ := hland
      exact (hf v a (hu.trans huv) ha v s' (.refl v) hs').mono huv

/-- One action after another that asks nothing of the first. -/
@[simp] theorem Safe.bind {x : EStateM ε State α} {f : α → EStateM ε State β}
    (hx : Safe w x) (hf : ∀ a, Keeps w (f a) post') : Keeps w (x >>= f) post' :=
  Keeps.bind hx fun _ a hw _ => (hf a).mono hw

theorem Keeps.map {x : EStateM ε State α} {f : α → β} (hx : Keeps w x post)
    (hf : ∀ w' a, w.Extends w' → post w' a → post' w' (f a)) :
    Keeps w (f <$> x) post' := by
  intro u s hu hs
  have hland := hx u s hu hs
  show Lands u post' (EStateM.map f x s)
  unfold EStateM.map
  cases hr : x s with
  | error e s' =>
      rw [hr] at hland
      exact hland
  | ok a s' =>
      rw [hr] at hland
      obtain ⟨v, huv, hs', ha⟩ := hland
      exact ⟨v, huv, hs', hf v a (hu.trans huv) ha⟩

@[simp] theorem Safe.map {x : EStateM ε State α} (hx : Safe w x) (f : α → β) :
    Safe w (f <$> x) :=
  Keeps.map hx fun _ _ _ _ => trivial

/-- An action that looks at the state first. -/
theorem keeps_of_state (act : State → EStateM ε State α)
    (h : ∀ s, Keeps w (act s) post) :
    Keeps w (fun s => act s s) post := fun u s hu hs => h s u s hu hs

/-- An action that returns something of the state and leaves its storages and
names as they are. -/
theorem safe_of_same {f : State → α} {g : State → State}
    (hs : ∀ h, (g h).storages = h.storages)
    (hn : ∀ h, (g h).caller.names = h.caller.names) :
    Safe w (fun h => .ok (f h) (g h) : EStateM ε State α) :=
  fun u h _ hh => ⟨u, .refl u, hh.of_same (hs h) (hn h), trivial⟩

/-! ## Walks -/

section Walks

open Shape

variable {stuck : ε} {shape : Shape}
  {visit : β → Index → Number → EStateM ε State β} {I : β → Prop}

theorem keeps_visitFrom (hvisit : ∀ acc index linear, I acc →
      Keeps w (visit acc index linear) fun _ acc => I acc)
    (n : Nat) (linear : Number) (index : Index) (acc : β) (hacc : I acc) :
    Keeps w (visitFrom stuck shape visit n linear index acc)
      fun _ acc => I acc := by
  -- by induction on the bound; nothing is asked of the coordinate
  -- or of the count
  induction n generalizing linear index acc with
  | zero =>
      unfold visitFrom
      exact keeps_ite (keeps_throw stuck) (keeps_pure fun _ _ => hacc)
  | succ n ih =>
      unfold visitFrom
      refine keeps_ite ?_ (keeps_pure fun _ _ => hacc)
      exact (hvisit acc index linear hacc).bind fun u acc hu hacc =>
        (ih _ _ acc hacc).mono hu

/-- What each visit keeps of the accumulated value the walk keeps. -/
theorem keeps_visitAll {init : β} (hvisit : ∀ acc index linear, I acc →
      Keeps w (visit acc index linear) fun _ acc => I acc) (hinit : I init) :
    Keeps w (visitAll stuck shape init visit) fun _ acc => I acc :=
  keeps_visitFrom hvisit _ _ _ init hinit

@[simp] theorem safe_visitAll {init : β}
    (hvisit : ∀ acc index linear, Safe w (visit acc index linear)) :
    Safe w (visitAll stuck shape init visit) :=
  keeps_visitAll (I := fun _ => True)
    (fun acc index linear _ => hvisit acc index linear) trivial

end Walks

end Actions

end TileGrid.Script
