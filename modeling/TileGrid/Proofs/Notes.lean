import TileGrid.Host

/-!
# Notes beside a state

Which calls are made, and in which order, is read off a list of notes that is
kept beside the state. A `Notebook` says how the list is kept there. With
`Notebook.noting` an action leaves a note, also where it fails, and does
otherwise what it did.
-/

namespace TileGrid

/-- A way to keep a list of notes beside a state. -/
structure Notebook (σ τ χ : Type) where
  state : τ → σ
  notes : τ → List χ
  /-- The state with the notes beside it. -/
  write : σ → List χ → τ
  state_write : ∀ s log, state (write s log) = s
  notes_write : ∀ s log, notes (write s log) = log

namespace Notebook

variable {ε σ τ χ α : Type} (b : Notebook σ τ χ)

/-- The action beside notes, which it changes as told. -/
def edit (change : List χ → List χ) (act : EStateM ε σ α) : EStateM ε τ α :=
  fun s =>
    match act (b.state s) with
    | .ok a s' => .ok a (b.write s' (change (b.notes s)))
    | .error e s' => .error e (b.write s' (change (b.notes s)))

/-- The action, with `x` noted. -/
def noting (x : χ) (act : EStateM ε σ α) : EStateM ε τ α :=
  b.edit (· ++ [x]) act

theorem noting_write (x : χ) (act : EStateM ε σ α) (s : σ) (log : List χ) :
    b.noting x act (b.write s log) =
      match act s with
      | .ok a s' => .ok a (b.write s' (log ++ [x]))
      | .error e s' => .error e (b.write s' (log ++ [x])) := by
  rw [noting, edit, b.state_write, b.notes_write]

variable {b} {act : EStateM ε σ α} {s s' : σ}

theorem noting_of_ok {a : α} (h : act s = .ok a s') (x : χ) (log : List χ) :
    b.noting x act (b.write s log) = .ok a (b.write s' (log ++ [x])) := by
  rw [noting_write, h]

theorem noting_of_error {e : ε} (h : act s = .error e s') (x : χ)
    (log : List χ) :
    b.noting x act (b.write s log) = .error e (b.write s' (log ++ [x])) := by
  rw [noting_write, h]

/-- Any state, and the notes as the other half of a pair. -/
def pair : Notebook σ (σ × List χ) χ where
  state := Prod.fst
  notes := Prod.snd
  write := Prod.mk
  state_write _ _ := rfl
  notes_write _ _ := rfl

end Notebook

namespace Host

variable {ν μ χ : Type}

/-- The state with another caller's part. -/
def withCaller (h : Host ν) (caller : μ) : Host μ where
  storages := h.storages
  recorders := h.recorders
  drivers := h.drivers
  console := h.console
  warnings := h.warnings
  environment := h.environment
  caller

/-- The state with a list of notes beside the caller's part. -/
def withNotes (h : Host ν) (notes : List χ) : Host (ν × List χ) :=
  h.withCaller (h.caller, notes)

/-- The notes are kept beside the caller's part of the state. -/
def notebook : Notebook (Host ν) (Host (ν × List χ)) χ where
  state h := h.withCaller h.caller.1
  notes h := h.caller.2
  write := withNotes
  state_write _ _ := rfl
  notes_write _ _ := rfl

/-- The action, with `x` noted. -/
def noted {α : Type} (x : χ) (act : Act ν α) : Act (ν × List χ) α :=
  notebook.noting x act

theorem noted_withNotes {α : Type} (x : χ) (act : Act ν α) (h : Host ν)
    (notes : List χ) :
    noted x act (h.withNotes notes) =
      match act h with
      | .ok r h' => .ok r (h'.withNotes (notes ++ [x]))
      | .error f h' => .error f (h'.withNotes (notes ++ [x])) := by
  cases hr : act h with
  | ok r h' => exact notebook.noting_of_ok hr x notes
  | error f h' => exact notebook.noting_of_error hr x notes

end Host

end TileGrid
