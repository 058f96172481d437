import TileGrid.Number.Basic

/-!
The interchange encoding of a number: a sign bit, eleven exponent bits,
fifty-two fraction bits.
-/

namespace TileGrid.Number

/-- The fields of a magnitude: below 2^52 units the exponent field is zero,
above it counts the doublings. -/
def magnitudeBits (units : Nat) : Nat :=
  if units < 1 <<< 52 then units
  else
    let e := units.log2 - 52
    (e + 1) <<< 52 + (units >>> e - 1 <<< 52)

def toBits : Number → Nat
  | infinite s => (if s then 1 <<< 63 else 0) + 0x7ff0000000000000
  | finite s m => (if s then 1 <<< 63 else 0) + magnitudeBits m.units
  | _ => 0x7ff8000000000000

def ofBits (bits : Nat) : Number :=
  let negative := bits >>> 63 % 2 == 1
  let exponent := bits >>> 52 % 1 <<< 11
  let fraction := bits % 1 <<< 52
  if exponent = 2047 then
    if fraction = 0 then infinite negative else nan
  else if exponent = 0 then round .binary64 negative fraction 1
  else round .binary64 negative ((1 <<< 52 + fraction) <<< (exponent - 1)) 1

end TileGrid.Number
