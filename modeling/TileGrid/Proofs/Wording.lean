import TileGrid.Fault
import TileGrid.Proofs.Number.Text
import TileGrid.Trace

/-!
# What reports say

A line of a report and the message of a fault are words with shapes and numbers
between them. What stands between the words is not fixed as text here: it is
text that the shape or the number is read back from. Main statements:
`Event.shows_line`, `Fault.says_message`.
-/

namespace TileGrid

/-! ## Numbers and shapes -/

/-- Text that a number is read back from. What is no number is told by its own
text. -/
def Number.Shown : Number → String → Prop
  | .stray s, t => t = s.text
  | x, t => ofText t = x.written

/-- Text of one component within a list. One that is absent leaves its place
empty. -/
def Number.ShownWithin : Number → String → Prop
  | .stray .absent, t => t = ""
  | .stray (.circular within _), t => t = within
  | x, t => x.Shown t

/-- Text in brackets, with one part for each component. -/
def Shape.Lists (shape : Shape) (text : String) : Prop :=
  ∃ parts, text = "[" ++ String.intercalate "," parts ++ "]" ∧
    List.Forall₂ Number.ShownWithin shape parts

theorem Number.shown_text (x : Number) : x.Shown x.text := by
  cases x with
  | stray s => exact rfl
  | _ => exact ofText_text rfl

theorem Components.shownWithin_texts (xs : List Number) :
    List.Forall₂ Number.ShownWithin xs (Components.ofList xs).texts := by
  induction xs with
  | nil => exact .nil
  | cons x xs ih =>
    have hshown := x.shown_text
    rcases x with _ | _ | _ | (_ | _ | _ | _ | _)
    case stray.absent => exact .cons rfl ih
    case stray.circular => exact .cons rfl ih
    all_goals exact .cons hshown ih

theorem Shape.lists_text (shape : Shape) : shape.Lists shape.text :=
  ⟨_, rfl, Components.shownWithin_texts shape⟩

/-! ## Words, shapes and numbers -/

/-- A part of a report. -/
inductive Piece where
  | words (s : String)
  | shape (s : Shape)
  | number (x : Number)
  | count (n : Nat)

def Piece.Shown : Piece → String → Prop
  | words s, t => t = s
  | shape s, t => s.Lists t
  | number x, t => x.Shown t
  | count n, t => Decimal.readNat? t.toList = some n

/-- Text made of one text for each of the pieces, in their order. -/
def Composes (pieces : List Piece) (text : String) : Prop :=
  ∃ texts, List.Forall₂ Piece.Shown pieces texts ∧ text = String.join texts

def Piece.text : Piece → String
  | words s => s
  | shape s => s.text
  | number x => x.text
  | count n => toString n

theorem Piece.shown_text (p : Piece) : p.Shown p.text := by
  cases p with
  | words s => exact rfl
  | shape s => exact s.lists_text
  | number x => exact x.shown_text
  | count n =>
    simp only [Shown, text, Nat.toString_eq_repr, Nat.toList_repr]
    exact Decimal.readNat?_toDigits n

theorem composes_join (pieces : List Piece) :
    Composes pieces (String.join (pieces.map Piece.text)) := by
  refine ⟨_, ?_, rfl⟩
  induction pieces with
  | nil => exact .nil
  | cons p ps ih => exact .cons p.shown_text ih

theorem toString_string (s : String) : toString s = s := rfl

/-! ## Events -/

/-- What the line of an event is made of. -/
def Event.pieces : Event → List Piece
  | start domain nominal counts =>
    [.words "[grid] launch global=", .shape domain, .words " local=",
      .shape nominal, .words " groups=", .shape counts]
  | tile id offset shape =>
    [.words "[grid] tile id=", .shape id, .words " offset=", .shape offset,
      .words " shape=", .shape shape]
  | finish tiles => [.words "[grid] finish tiles=", .number tiles]
  | abort id tiles reason =>
    [.words "[grid] abort at ", .shape id, .words " after ", .number tiles,
      .words " tiles: ", .words reason]

/-- A line that shows an event with all of its fields. -/
def Event.Shows (e : Event) (line : String) : Prop :=
  Composes e.pieces line

/-- **Every event is shown by its line.** -/
theorem Event.shows_line (e : Event) : e.Shows e.line := by
  have hline : e.line = String.join (e.pieces.map Piece.text) := by
    cases e <;> delta line pieces <;>
      simp [toString_string, Piece.text, String.join]
  exact hline ▸ composes_join e.pieces

/-! ## Faults -/

/-- What the message of a fault is made of: of an error that is raised on
purpose its own message, of a value that is thrown its form as text, and of what
the machine raises by itself the machine's wording. -/
def Fault.pieces (wording : Fault → String) : Fault → List Piece
  | extents shape => [.words "Invalid array shape ", .shape shape]
  | storageLength length shape =>
    [.words "Array data length ", .count length,
      .words " does not match shape ", .shape shape]
  | valueCount count shape =>
    [.words "Got ", .number count, .words " values for shape ", .shape shape]
  | rangeShape stop shape =>
    [.words "arange(", .number stop, .words ") cannot be shaped as ",
      .shape shape]
  | indexRank rank shape =>
    [.words "Index rank ", .number rank, .words " does not match array shape ",
      .shape shape]
  | indexRange index shape =>
    [.words "Index ", .shape index, .words " is out of range for shape ",
      .shape shape]
  | transferRank shape origin rank =>
    [.words "Transfer of shape ", .shape shape, .words " at ", .shape origin,
      .words " does not match array rank ", .number rank]
  | transferShape shape => [.words "Invalid transfer shape ", .shape shape]
  | transferOrigin origin =>
    [.words "Transfer origin ", .shape origin,
      .words " must be non-negative integers"]
  | validBox valid shape =>
    [.words "Valid box ", .shape valid, .words " does not fit buffer shape ",
      .shape shape]
  | scratchRank => [.words "Scratch buffers need at least one dimension"]
  | launchShape domain tile =>
    [.words "Invalid launch shape: global ", .shape domain, .words " local ",
      .shape tile]
  | busy => [.words "Grid driver is already running"]
  | deferred tile =>
    [.words "Tile ", .shape tile,
      .words " returned a promise; grid bodies must be synchronous"]
  | raised _ message => [.words message]
  | thrown .null => [.words "null"]
  | thrown (.string s) => [.words s]
  | thrown (.value v) => [.number v]
  | unbound name => [.words "no such name ", .words name]
  | f => [.words (wording f)]

/-- A text that says what the fault is. -/
def Fault.Says (wording : Fault → String) (f : Fault) (text : String) : Prop :=
  Composes (f.pieces wording) text

/-- **What is reported of a fault says what it is.** -/
theorem Fault.says_message (wording : Fault → String) (f : Fault) :
    f.Says wording (f.message wording) := by
  have hmessage : f.message wording =
      String.join ((f.pieces wording).map Piece.text) := by
    cases f with
    | thrown v =>
      cases v <;> delta message pieces <;>
        simp [Thrown.text, Piece.text, String.join]
    | _ =>
      delta message pieces
      simp [toString_string, Piece.text, String.join]
  exact hmessage ▸ composes_join (f.pieces wording)

end TileGrid
