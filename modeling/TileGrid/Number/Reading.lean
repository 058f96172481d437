import TileGrid.Number.Decimal

/-!
Reading decimal text, and the number that something counts as in arithmetic.
-/

namespace TileGrid

namespace Decimal

/-- The value of digits, the first the highest. -/
def valueOf (digits : List Char) : Nat :=
  digits.foldl (fun n c => 10 * n + (c.toNat - '0'.toNat)) 0

def readNat? (cs : List Char) : Option Nat :=
  if !cs.isEmpty && cs.all Char.isDigit then some (valueOf cs) else none

def readInt? : List Char → Option Int
  | '-' :: cs => (readNat? cs).map fun n => -(n : Int)
  | '+' :: cs => (readNat? cs).map Int.ofNat
  | cs => (readNat? cs).map Int.ofNat

/-- An exponent, which may be left out. -/
def readExponent? : List Char → Option Int
  | [] => some 0
  | 'e' :: cs => readInt? cs
  | _ => none

/-- The digits after a point, if one follows, and what follows them. -/
def splitFraction : List Char → List Char × List Char
  | '.' :: cs => (cs.takeWhile Char.isDigit, cs.dropWhile Char.isDigit)
  | cs => ([], cs)

/-- A decimal without a sign. -/
def read? (cs : List Char) : Option Decimal := do
  let whole := cs.takeWhile Char.isDigit
  let (fraction, rest) := splitFraction (cs.dropWhile Char.isDigit)
  let exponent ← readExponent? rest
  if (whole ++ fraction).isEmpty then none
  else some ⟨valueOf (whole ++ fraction), exponent - fraction.length⟩

/-- Past this many digits before the point a decimal is infinite, and with as
many zeros after the point it is zero. -/
def widestPoint : Int := 400

def toNumber (negative : Bool) (d : Decimal) : Number :=
  let point : Int := (Nat.toDigits 10 d.digits).length + d.exponent
  if d.digits = 0 ∨ point < -widestPoint then .ofRatio negative 0 1
  else if widestPoint < point then .infinite negative
  else .ofRatio negative (d.digits * Nat.pow 10 d.exponent.toNat)
    (Nat.pow 10 (-d.exponent).toNat)

end Decimal

namespace Number

/-- A magnitude, with the sign it is to have. -/
def ofMagnitude (negative : Bool) (cs : List Char) : Number :=
  if cs = "Infinity".toList then .infinite negative
  else ((Decimal.read? cs).map (Decimal.toNumber negative)).getD .nan

/-- The number that a text reads as. The empty text is zero. -/
def ofText (s : String) : Number :=
  match s.toList with
  | [] => 0
  | '-' :: cs => ofMagnitude true cs
  | cs => ofMagnitude false cs

/-- The number that this counts as in arithmetic: a stray as what its text reads
as. Integers of the 64-bit kinds stay what they are. -/
def counted : Number → Number
  | stray (.integer n) => integer n
  | stray s => ofText s.text
  | x => x

@[simp] theorem counted_nan : counted nan = nan := rfl

@[simp] theorem counted_infinite (s : Bool) :
    counted (infinite s) = infinite s := rfl

@[simp] theorem counted_finite (s : Bool) (m : Magnitude) :
    counted (finite s m) = finite s m := rfl

end Number

/-- The integer that a stray reads as, for the 64-bit kinds: that of
its text. -/
def Stray.readInt? (s : Stray) : Option Int :=
  match s.text.toList with
  | [] => some 0
  | cs => Decimal.readInt? cs

end TileGrid
