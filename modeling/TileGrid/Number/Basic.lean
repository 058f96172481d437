import TileGrid.Number.Format

/-!
The numbers of the simulator: binary64 values. Extents, indices and origins are
all of this type, so not a number, the infinities and a negative zero can turn
up anywhere, and so can what is no number at all.
-/

namespace TileGrid

/-- A magnitude that binary64 holds, in units of 2^-1074. -/
structure Magnitude where
  units : Nat
  held : Format.binary64.Holds units
  deriving DecidableEq

mutual

inductive Number where
  | nan
  | infinite (negative : Bool)
  | finite (negative : Bool) (magnitude : Magnitude)
  | stray (s : Stray)

/-- What can stand where a number belongs without being one. -/
inductive Stray where
  /-- A component sought past the end of its list. -/
  | absent
  /-- An integer of the 64-bit kinds. -/
  | integer (n : Int)
  /-- What comes of adding to a list: the two texts joined. -/
  | joined (text : String)
  | list (cs : Components)
  /-- A component that leads back to itself or to the list it stands in: how it
  reads within that list, and how on its own. -/
  | circular (within alone : String)

/-- The components of a list. -/
inductive Components where
  | nil
  | cons (head : Number) (tail : Components)

end

deriving instance DecidableEq for Number, Stray, Components

namespace Components

def ofList : List Number → Components
  | [] => nil
  | x :: xs => cons x (ofList xs)

def toList : Components → List Number
  | nil => []
  | cons x xs => x :: xs.toList

@[simp] theorem toList_ofList (xs : List Number) : (ofList xs).toList = xs := by
  induction xs with
  | nil => rfl
  | cons x xs ih => simp [ofList, toList, ih]

end Components

mutual

/-- Whether a list leads back to itself anywhere in here. -/
def Number.isCircular : Number → Bool
  | .stray s => s.isCircular
  | _ => false

def Stray.isCircular : Stray → Bool
  | .circular _ _ => true
  | .list cs => cs.anyCircular
  | _ => false

def Components.anyCircular : Components → Bool
  | .nil => false
  | .cons x cs => x.isCircular || cs.anyCircular

end

/-- A unit is this many halvings of one. -/
def unitHalvings : Nat := 1074

/-- How many units make one. -/
def unitsPerOne : Nat := 1 <<< unitHalvings

theorem unitsPerOne_pos : 0 < unitsPerOne :=
  one_shiftLeft_le (Nat.zero_le unitHalvings)

/-- Units with their sign. -/
def signed (negative : Bool) (units : Nat) : Int :=
  if negative then -(units : Int) else units

namespace Number

/-- The number of the format nearest to `num / den` units, or the infinity
past its limit. -/
def round (f : Format) (negative : Bool) (num den : Nat) : Number :=
  if h : f.nearest num den < 1 <<< f.limit then
    .finite negative ⟨f.nearest num den, (f.holds_nearest num den h).binary64⟩
  else .infinite negative

/-- The binary64 number nearest to `num / den`. -/
def ofRatio (negative : Bool) (num den : Nat) : Number :=
  round .binary64 negative (num * unitsPerOne) den

def ofNat (n : Nat) : Number := ofRatio false n 1

def ofInt (n : Int) : Number := ofRatio (decide (n < 0)) n.natAbs 1

/-- The number nearest to `mantissa`, with its last `places` digits
after the point. -/
def ofDecimal (mantissa : Int) (places : Nat) : Number :=
  ofRatio (decide (mantissa < 0)) mantissa.natAbs (Nat.pow 10 places)

instance (n : Nat) : OfNat Number n := ⟨ofNat n⟩

instance : Inhabited Number := ⟨.nan⟩

def isNegative : Number → Bool
  | infinite s => s
  | finite s _ => s
  | _ => false

/-! ## Strays -/

def absent : Number := .stray .absent

def integer (n : Int) : Number := .stray (.integer n)

/-- A list in the place of a number. -/
def ofList (xs : List Number) : Number := .stray (.list (.ofList xs))

/-- A component as it is in another list. -/
def apart : Number → Number
  | stray (.circular _ alone) => stray (.circular alone alone)
  | x => x

/-- Whether this is an integer of the 64-bit kinds, with which
numbers do not mix. -/
def isWide : Number → Bool
  | stray (.integer _) => true
  | _ => false

/-! ## Whole numbers -/

def isInteger : Number → Bool
  | finite _ m => m.units % unitsPerOne == 0
  | _ => false

/-- The whole part, toward zero; zero for `nan` and the infinities. -/
def truncate : Number → Int
  | finite s m => signed s (m.units / unitsPerOne)
  | _ => 0

def toNat (a : Number) : Nat := a.truncate.toNat

/-- The value, where it is whole. -/
def toInt? (a : Number) : Option Int :=
  if a.isInteger then some a.truncate else none

/-- Below this all whole numbers are held, and adding one is exact. -/
def safeLimit : Nat := 1 <<< 53

end Number

end TileGrid
