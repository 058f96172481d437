import TileGrid.Number.Reading

/-!
Order and arithmetic, with the exact result of each operation rounded
once, to nearest with ties to even. What is no number counts as the
number that it reads as.
-/

namespace TileGrid.Number

/-! ## Order

Nothing compares with `nan`, and the two zeros are equal. -/

/-- Whether this is a list or a text, which a sum is written after
and not added to. -/
def isText : Number → Bool
  | stray (.joined _) => true
  | stray (.list _) => true
  | stray (.circular _ _) => true
  | _ => false

/-- The number that this counts as in comparison with another: a text as the
integer that it reads as, if the other is one. -/
def comparedWith (a b : Number) : Number :=
  match a, b with
  | stray s, stray (.integer _) =>
    if a.isText then (s.readInt?.map integer).getD nan else a.counted
  | _, _ => a.counted

/-- Two texts compare as texts, and an integer compares exactly. -/
def lt (a b : Number) : Bool :=
  if a.isText && b.isText then decide (a.text < b.text)
  else
    match a.comparedWith b, b.comparedWith a with
    | infinite s, infinite t => s && !t
    | infinite s, finite _ _ => s
    | infinite s, stray (.integer _) => s
    | finite _ _, infinite t => !t
    | finite s m, finite t n => decide (signed s m.units < signed t n.units)
    | finite s m, stray (.integer n) =>
      decide (signed s m.units < n * unitsPerOne)
    | stray (.integer _), infinite t => !t
    | stray (.integer m), finite t n =>
      decide (m * unitsPerOne < signed t n.units)
    | stray (.integer m), stray (.integer n) => decide (m < n)
    | _, _ => false

def isNaN (a : Number) : Bool :=
  match a.counted with
  | nan => true
  | _ => false

def le (a b : Number) : Bool := !a.isNaN && !b.isNaN && !b.lt a

/-- Equality of value. -/
def eqv (a b : Number) : Bool := a.le b && b.le a

/-- The lesser number. `nan` wins, and so does the negative zero
over the other. -/
def min (a b : Number) : Number :=
  if a.isNaN || b.isNaN then nan
  else if a.counted.lt b.counted then a.counted
  else if b.counted.lt a.counted then b.counted
  else if a.counted.isNegative then a.counted
  else b.counted

/-- The greater number. `nan` wins, and so does the positive zero
over the other. -/
def max (a b : Number) : Number :=
  if a.isNaN || b.isNaN then nan
  else if a.counted.lt b.counted then b.counted
  else if b.counted.lt a.counted then a.counted
  else if a.counted.isNegative then b.counted
  else a.counted

/-! ## Arithmetic -/

def neg (a : Number) : Number :=
  match a.counted with
  | infinite s => infinite !s
  | finite s m => finite (!s) m
  | _ => nan

/-- A sum of zero is negative only where both terms are. A sum with a list or a
text is the one text after the other. -/
def add (a b : Number) : Number :=
  if a.isText || b.isText then stray (.joined (a.text ++ b.text))
  else
    match a, b with
    | infinite s, infinite t => if s = t then infinite s else nan
    | infinite s, finite _ _ => infinite s
    | finite _ _, infinite t => infinite t
    | finite s m, finite t n =>
      let total := signed s m.units + signed t n.units
      if total = 0 then round .binary64 (s && t) 0 1
      else round .binary64 (decide (total < 0)) total.natAbs 1
    | _, _ => nan

def sub (a b : Number) : Number := a.counted.add b.neg

def mul (a b : Number) : Number :=
  match a.counted, b.counted with
  | infinite s, infinite t => infinite (s != t)
  | infinite s, finite t n => if n.units = 0 then nan else infinite (s != t)
  | finite s m, infinite t => if m.units = 0 then nan else infinite (s != t)
  | finite s m, finite t n =>
    round .binary64 (s != t) (m.units * n.units) unitsPerOne
  | _, _ => nan

def div (a b : Number) : Number :=
  match a.counted, b.counted with
  | infinite _, infinite _ => nan
  | infinite s, finite t _ => infinite (s != t)
  | finite s _, infinite t => round .binary64 (s != t) 0 1
  | finite s m, finite t n =>
    if n.units = 0 then
      if m.units = 0 then nan else infinite (s != t)
    else round .binary64 (s != t) (m.units * unitsPerOne) n.units
  | _, _ => nan

instance : Neg Number := ⟨neg⟩

instance : Add Number := ⟨add⟩

instance : Sub Number := ⟨sub⟩

instance : Mul Number := ⟨mul⟩

instance : Div Number := ⟨div⟩

/-- The least whole number that is not below. Its sign is that of the
argument. -/
def ceil (a : Number) : Number :=
  match a.counted with
  | infinite s => infinite s
  | finite s m =>
    let whole := if s then m.units / unitsPerOne
      else (m.units + (unitsPerOne - 1)) / unitsPerOne
    ofRatio s whole 1
  | _ => nan

/-- A whole number of at least zero. -/
def isExtent (a : Number) : Bool := a.isInteger && le 0 a

end TileGrid.Number
