import TileGrid.Fault

/-!
Element kinds, and what writing a value to a cell of a kind leaves there.

The two 64-bit kinds hold integers of any size reduced modulo 2^64; all
others hold numbers.
-/

namespace TileGrid

/-- What a cell holds or is offered. -/
inductive Element where
  | number (x : Number)
  | integer (n : Int)
  deriving DecidableEq

/-- What is offered where there is nothing to read. -/
def Element.absent : Element := .number .absent

def Element.toNumber : Element → Number
  | number x => x
  | integer n => .integer n

def Element.ofNumber : Number → Element
  | .stray (.integer n) => integer n
  | x => number x

/-- The kinds of elements (`DType`). -/
inductive Kind where
  | i8 | i16 | i32 | i64 | u8 | u16 | u32 | u64 | f32 | f64
  deriving DecidableEq

namespace Kind

/-- Every kind (`DTYPES`). -/
def all : List Kind := [i8, i16, i32, i64, u8, u16, u32, u64, f32, f64]

def name : Kind → String
  | i8 => "i8"
  | i16 => "i16"
  | i32 => "i32"
  | i64 => "i64"
  | u8 => "u8"
  | u16 => "u16"
  | u32 => "u32"
  | u64 => "u64"
  | f32 => "f32"
  | f64 => "f64"

/-- The kind of a name, if there is one (`isDType`). -/
def ofName? (name : String) : Option Kind := all.find? (·.name == name)

def named (name : String) : Except Fault Kind :=
  match ofName? name with
  | some kind => .ok kind
  | none => .error .unknownKind

/-- How a kind treats what is written to it. -/
inductive Rule where
  /-- Whole numbers of so many bits. -/
  | whole (bits : Nat) (isSigned : Bool)
  /-- Integers of 64 bits. -/
  | wide (isSigned : Bool)
  | rounded (format : Format)

/-- The storage of each kind (`STORAGE`). -/
def rule : Kind → Rule
  | i8 => .whole 8 true
  | i16 => .whole 16 true
  | i32 => .whole 32 true
  | i64 => .wide true
  | u8 => .whole 8 false
  | u16 => .whole 16 false
  | u32 => .whole 32 false
  | u64 => .wide false
  | f32 => .rounded .binary32
  | f64 => .rounded .binary64

/-- The integer of so many bits that is congruent to `n`. -/
def wrap (bits : Nat) (isSigned : Bool) (n : Int) : Int :=
  if isSigned then n.bmod (1 <<< bits) else n % (1 <<< bits : Nat)

/-- Whether the kind holds integers and not numbers. -/
def isWide (kind : Kind) : Bool :=
  match kind.rule with
  | .wide _ => true
  | _ => false

/-- The element that a fresh cell holds. -/
def zero (kind : Kind) : Element :=
  if kind.isWide then .integer 0 else .number 0

/-- The nearest number of a format no wider than binary64. -/
def roundTo (format : Format) : Number → Number
  | .finite negative m => .round format negative m.units 1
  | .infinite negative => .infinite negative
  | _ => .nan

/-- The integer that is offered to a cell of the 64-bit kinds in something else.
Lists and texts are read; no number is taken for an integer. -/
def readWide : Number → Except Fault Int
  | .stray s =>
    match s, s.readInt? with
    | .absent, _ => .error .mixedElements
    | _, some n => .ok n
    | _, none => .error (.notInteger s.text)
  | _ => .error .mixedElements

/-- What a cell of the kind holds after a value is written to it: whole kinds
drop the fraction and wrap, the others round. -/
def convert (kind : Kind) : Element → Except Fault Element
  | .number x =>
    match kind.rule with
    | .whole bits isSigned =>
      .ok (.number (.ofInt (wrap bits isSigned x.counted.truncate)))
    | .rounded format => .ok (.number (roundTo format x.counted))
    | .wide isSigned => do
      let n ← readWide x
      return .integer (wrap 64 isSigned n)
  | .integer n =>
    match kind.rule with
    | .wide isSigned => .ok (.integer (wrap 64 isSigned n))
    | _ => .error .mixedElements

/-- A number as an element of the kind, before any wrapping (`fromNumber`). -/
def ofNumber (kind : Kind) (x : Number) : Except Fault Element :=
  match kind.isWide, x with
  | true, .stray s => .integer <$> readWide (.stray s)
  | true, x =>
    match x.toInt? with
    | some n => .ok (.integer n)
    | none => .error .fractional
  | false, .stray (.integer n) => .ok (.number (.ofInt n))
  | false, x => .ok (.number x.counted)

end Kind

end TileGrid
