import TileGrid.Number.Basic

/-!
Decimal text of a number: the fewest digits that read back as the number, and of
those the nearest to it.
-/

namespace TileGrid

/-- The value `digits` times the power of ten `exponent`. -/
structure Decimal where
  digits : Nat
  exponent : Int

namespace Decimal

/-- The magnitude, in units, that binary64 reads for a decimal. -/
def read (d : Decimal) : Nat :=
  Format.binary64.nearest (d.digits * Nat.pow 10 d.exponent.toNat * unitsPerOne)
    (Nat.pow 10 (-d.exponent).toNat)

/-- The place after the point at which the least magnitude has its
first digit. -/
def deepestPlace : Nat := 324

/-- How far the decimal point stands to the right of the first digit
of `units`. -/
def pointOf (units : Nat) : Int :=
  if unitsPerOne ≤ units then (Nat.toDigits 10 (units / unitsPerOne)).length
  else
    (Nat.toDigits 10 (units * Nat.pow 10 deepestPlace / unitsPerOne)).length -
      (deepestPlace : Int)

/-- Of the two neighbours of `units` with a last digit at the power of ten
`exponent`, the one that reads back, and where both do the nearer, a tie going
to the even digit. -/
def onGrid? (units : Nat) (exponent : Int) : Option Decimal :=
  let num := units * Nat.pow 10 (-exponent).toNat
  let den := unitsPerOne * Nat.pow 10 exponent.toNat
  let below : Decimal := ⟨num / den, exponent⟩
  let above : Decimal := ⟨num / den + 1, exponent⟩
  if below.read = units then
    some (if above.read = units then ⟨halfEven num den, exponent⟩ else below)
  else if above.read = units then some above
  else none

/-- Seventeen digits always read back. -/
def shortest (units : Nat) : Decimal :=
  let point := pointOf units
  ((List.range 17).findSome? fun (k : Nat) =>
    onGrid? units (point - (k + 1 : Nat))).getD ⟨0, 0⟩

/-- The digits without zeros at the end, and where the decimal point stands
relative to the first of them. -/
def spread (d : Decimal) : List Char × Int :=
  let all := Nat.toDigits 10 d.digits
  ((all.reverse.dropWhile (· == '0')).reverse, all.length + d.exponent)

/-- Written without an exponent while the point is at most this far right of
the first digit. -/
def farthestPoint : Int := 21

/-- Written without an exponent while fewer than this many zeros would
follow the point. -/
def mostLeadingZeros : Int := 6

/-- Text of a positive decimal. -/
def text (d : Decimal) : String :=
  let (digits, point) := d.spread
  let count : Int := digits.length
  if 0 < point ∧ point ≤ farthestPoint then
    if count ≤ point then
      String.ofList (digits ++ List.replicate (point - count).toNat '0')
    else String.ofList
      (digits.take point.toNat ++ '.' :: digits.drop point.toNat)
  else if -mostLeadingZeros < point ∧ point ≤ 0 then
    String.ofList ('0' :: '.' :: (List.replicate (-point).toNat '0' ++ digits))
  else
    let mantissa :=
      digits.take 1 ++ (if count ≤ 1 then [] else '.' :: digits.drop 1)
    let exponent := point - 1
    let sign := if exponent < 0 then '-' else '+'
    String.ofList (mantissa ++ 'e' :: sign :: Nat.toDigits 10 exponent.natAbs)

end Decimal

mutual

/-- Both zeros are written without a sign. -/
def Number.text : Number → String
  | .nan => "NaN"
  | .infinite s => if s then "-Infinity" else "Infinity"
  | .finite s m =>
    if m.units = 0 then "0"
    else (if s then "-" else "") ++ (Decimal.shortest m.units).text
  | .stray s => s.text

def Stray.text : Stray → String
  | .absent => "undefined"
  | .integer n => toString n
  | .joined t => t
  | .list cs => String.intercalate "," cs.texts
  | .circular _ alone => alone

/-- The texts of components within their list. One that is absent leaves
its place empty. -/
def Components.texts : Components → List String
  | .nil => []
  | .cons (.stray .absent) cs => "" :: cs.texts
  | .cons (.stray (.circular within _)) cs => within :: cs.texts
  | .cons x cs => x.text :: cs.texts

end

end TileGrid
