import TileGrid.Script.Ask
import TileGrid.Proofs.Along
import TileGrid.Proofs.Script.Keeps

/-!
# The backdrop of a step

Most steps work on arrays, lists and names alone. Whatever the drivers, the
traces, the console and the environment are, and whatever kernels and drivers
the names stand for, such a step does the same: `Tracks b v x y` says that
before the backdrop `b` the action `y` does what `x` does without it, and
returns what `x` returns up to `v`. From this follow that `x` leaves the
backdrop alone and that it makes up no kernel or driver of its own.
-/

namespace TileGrid.Script

/-! ## Backdrops -/

/-- What can stand behind the arrays, lists and names of a state. -/
structure Backdrop where
  /-- The kernel that each kernel is played by. -/
  kernel : Kernel → Kernel
  /-- The driver that each driver is played by. -/
  driver : Nat → Nat
  recorders : Array (Array Entry)
  drivers : Array Driver
  console : Array String
  warnings : Array String
  environment : Environment
  snapshots : Array (List Entry)
  tiles : Array (List Answer)

def Object.under (b : Backdrop) : Object → Object
  | masked values valid => masked (values.under b) valid
  | observed log shape inner => observed log shape (inner.under b)
  | slice array origin => slice (array.under b) origin
  | driver id => driver (b.driver id)
  | kernel k => kernel (b.kernel k)
  | o => o

def Scope.under (b : Backdrop) (s : Scope) : Scope :=
  { s with
    names := s.names.map fun p => (p.1, p.2.under b)
    snapshots := b.snapshots
    tiles := b.tiles }

/-- The state before another backdrop. -/
def State.under (b : Backdrop) (h : State) : State :=
  { h with
    recorders := b.recorders
    drivers := b.drivers
    console := b.console
    warnings := b.warnings
    environment := b.environment
    caller := h.caller.under b }

open State

variable {b : Backdrop}

namespace Object

variable (o : Object)

@[simp] theorem shape_under : (o.under b).shape = o.shape := by
  induction o with
  | masked values valid ih => exact ih
  | _ => rfl

@[simp] theorem kind_under : (o.under b).kind = o.kind := by
  induction o with
  | masked values valid ih => exact ih
  | observed log shape inner ih => exact ih
  | _ => rfl

@[simp] theorem size_under : (o.under b).size = o.size := by
  induction o with
  | masked values valid ih => exact ih
  | _ => rfl

end Object

namespace Scope

variable {s s' : Scope}

theorem lookup_under (ns : List (String × Object)) (name : String) :
    (ns.map fun p => (p.1, p.2.under b)).lookup name =
      (ns.lookup name).map (Object.under b) := by
  induction ns with
  | nil => rfl
  | cons p ns ih =>
      rw [List.map_cons, List.lookup_cons, List.lookup_cons, ih]
      cases name == p.1 <;> rfl

theorem find_under (s : Scope) (name : String) :
    (s.under b).find name = (s.find name).map (Object.under b) := by
  unfold Scope.find
  rw [show (s.under b).names = s.names.map fun p => (p.1, p.2.under b) from rfl,
    lookup_under]
  cases s.names.lookup name <;> rfl

/-- What an item reads as depends on the lists alone. -/
theorem read?_of_lists (hs : s.lists = s'.lists) (depth : Nat)
    (outer : List Nat) (i : Item) :
    s.read? depth outer i = s'.read? depth outer i := by
  induction depth generalizing outer i with
  | zero => cases i <;> rfl
  | succ depth ih =>
      cases i with
      | value x => rfl
      | list id =>
          have hitems : s.items id = s'.items id := by
            rw [Scope.items, Scope.items, hs]
          unfold Scope.read?
          rw [hitems, funext fun i => ih (id :: outer) i]

theorem textIn_of_lists (hs : s.lists = s'.lists) (depth : Nat)
    (outer : List Nat) (i : Item) :
    s.textIn depth outer i = s'.textIn depth outer i := by
  induction depth generalizing outer i with
  | zero => cases i <;> rfl
  | succ depth ih =>
      cases i with
      | value x => rfl
      | list id =>
          have hitems : s.items id = s'.items id := by
            rw [Scope.items, Scope.items, hs]
          unfold Scope.textIn
          rw [hitems, funext fun i => ih (id :: outer) i]

theorem value_under (s : Scope) (i : Item) :
    (s.under b).value i = s.value i := by
  have hcomponent : ∀ list j, (s.under b).component list j =
      s.component list j := by
    intro list j
    have hlists : (s.under b).lists = s.lists := rfl
    unfold Scope.component
    rw [read?_of_lists hlists, textIn_of_lists hlists, textIn_of_lists hlists]
    rfl
  cases i with
  | value x => rfl
  | list id =>
      show Number.ofList (((s.under b).items id).map
          ((s.under b).component id)) = _
      rw [funext (hcomponent id)]
      rfl

end Scope

/-! ## Actions before a backdrop -/

section Actions

variable {ε α β : Type} {f : State → State} {w : ε → ε} {v : α → α} {v' : β → β}

/-- The result with its state, its fault and its value replaced. -/
def carry (f : State → State) (w : ε → ε) (v : α → α) :
    EStateM.Result ε State α → EStateM.Result ε State α
  | .ok a h => .ok (v a) (f h)
  | .error e h => .error (w e) (f h)

/-- In the state `f h` the action `y` does what `x` does in `h`. -/
def Mirrors (f : State → State) (w : ε → ε) (v : α → α)
    (x y : EStateM ε State α) : Prop :=
  ∀ h, y (f h) = carry f w v (x h)

/-- Before the backdrop the action `y` does what `x` does without it. -/
abbrev Tracks (b : Backdrop) (v : α → α) (x y : EStateM ε State α) : Prop :=
  Mirrors (under b) id v x y

/-- The action does the same before every backdrop. -/
abbrev Blind (b : Backdrop) (x : EStateM ε State α) : Prop := Tracks b id x x

/-- A value that the action may return. -/
def Returns (x : EStateM ε State α) (a : α) : Prop := ∃ h h', x h = .ok a h'

/-- What an action that ends in a value returns. -/
theorem Returns.pure_eq {a a' : α}
    (h : Returns (pure a : EStateM ε State α) a') :
    a' = a := by
  obtain ⟨s, s', h⟩ := h
  cases h
  rfl

theorem Returns.of_bind {x : EStateM ε State α}
    {k : α → EStateM ε State β} {c : β} (h : Returns (x >>= k) c) :
    ∃ a, Returns x a ∧ Returns (k a) c := by
  obtain ⟨s, s', h⟩ := h
  obtain ⟨a, t, hx, hk⟩ := ok_of_bind h
  exact ⟨a, ⟨s, t, hx⟩, t, s', hk⟩

theorem not_returns_throw {e : ε} {a : α} :
    ¬ Returns (throw e : EStateM ε State α) a := by
  rintro ⟨s, s', h⟩
  cases h

theorem mirrors_pure (a : α) :
    Mirrors f w v (pure a : EStateM ε State α) (pure (v a)) :=
  fun _ => rfl

@[simp] theorem mirrors_ite {c : Prop} [Decidable c]
    {x y x' y' : EStateM ε State α} (hx : Mirrors f w v x x')
    (hy : Mirrors f w v y y') :
    Mirrors f w v (if c then x else y) (if c then x' else y') := by
  split
  · exact hx
  · exact hy

theorem Mirrors.bind {x y : EStateM ε State α} {k l : α → EStateM ε State β}
    (hx : Mirrors f w v x y)
    (hk : ∀ a, Returns x a → Mirrors f w v' (k a) (l (v a))) :
    Mirrors f w v' (x >>= k) (y >>= l) := by
  intro h
  show EStateM.bind y l (f h) = carry f w v' (EStateM.bind x k h)
  unfold EStateM.bind
  rw [hx h]
  cases hr : x h with
  | error e h' => rfl
  | ok a h' => exact hk a ⟨h, h', hr⟩ h'

theorem Mirrors.map {x y : EStateM ε State α} {k l : α → β}
    (hx : Mirrors f w v x y) (hk : ∀ a, l (v a) = v' (k a)) :
    Mirrors f w v' (k <$> x) (l <$> y) := by
  intro h
  show EStateM.map l y (f h) = carry f w v' (EStateM.map k x h)
  unfold EStateM.map
  rw [hx h]
  cases x h with
  | error e h' => rfl
  | ok a h' => exact congrArg (EStateM.Result.ok · (f h')) (hk a)

@[simp] theorem blind_pure (a : α) : Blind b (pure a : EStateM ε State α) :=
  fun _ => rfl

@[simp] theorem tracks_throw (e : ε) :
    Tracks b v (throw e : EStateM ε State α) (throw e) :=
  fun _ => rfl

@[simp] theorem blind_settle (x : Except ε α) :
    Blind b (settle x : EStateM ε State α) := by
  cases x with
  | error e => exact tracks_throw e
  | ok a => exact blind_pure a

/-- One action after another that is the same before every backdrop. -/
@[simp] theorem Blind.bind {x : EStateM ε State α} {k l : α → EStateM ε State β}
    (hx : Blind b x) (hk : ∀ a, Tracks b v' (k a) (l a)) :
    Tracks b v' (x >>= k) (x >>= l) :=
  Mirrors.bind hx fun a _ => hk a

@[simp] theorem Blind.map {x : EStateM ε State α} (hx : Blind b x) (f : α → β) :
    Blind b (f <$> x) :=
  Mirrors.map hx fun _ => rfl

/-- An action that looks at the state first. -/
theorem blind_of_state (act : State → EStateM ε State α)
    (hact : ∀ h, act (under b h) = act h) (hx : ∀ h, Blind b (act h)) :
    Blind b (fun h => act h h) := by
  intro h
  show act (under b h) (under b h) = _
  rw [hact]
  exact hx h h

/-- An action that returns something of the state. -/
theorem blind_read {f : State → α} (hf : ∀ h, f (under b h) = f h) :
    Blind b (fun h => .ok (f h) h : EStateM ε State α) := by
  intro h
  show EStateM.Result.ok (f (under b h)) (under b h) = _
  rw [hf]
  rfl

theorem blind_settle_read {f : State → Except ε α}
    (hf : ∀ h, f (under b h) = f h) :
    Blind b (fun h => settle (f h) h : EStateM ε State α) :=
  blind_of_state (fun h => settle (f h)) (fun h => by rw [hf]) fun _ =>
    blind_settle _

theorem blind_visitFrom {stuck : ε} {shape : Shape}
    {visit : β → Index → Number → EStateM ε State β}
    (hvisit : ∀ acc index linear, Blind b (visit acc index linear)) (n : Nat)
    (linear : Number) (index : Index) (acc : β) :
    Blind b (Shape.visitFrom stuck shape visit n linear index acc) := by
  induction n generalizing linear index acc with
  | zero => exact mirrors_ite (tracks_throw stuck) (blind_pure acc)
  | succ n ih =>
      refine mirrors_ite ?_ (blind_pure acc)
      exact (hvisit acc index linear).bind fun acc => ih _ _ acc

@[simp] theorem blind_visitAll {stuck : ε} {shape : Shape} {init : β}
    {visit : β → Index → Number → EStateM ε State β}
    (hvisit : ∀ acc index linear, Blind b (visit acc index linear)) :
    Blind b (Shape.visitAll stuck shape init visit) :=
  blind_visitFrom hvisit _ _ _ _

end Actions

end TileGrid.Script
