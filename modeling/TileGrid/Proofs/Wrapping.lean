import Mathlib.Data.Int.ModEq
import TileGrid.Proofs.Addressing
import TileGrid.Proofs.Number.Integer

/-!
# Integer elements

A kind of so many bits holds one integer of each residue modulo that power of
two, and a write leaves the one that is congruent to the whole part of what is
offered. So nothing is lost where an element is written back, and nothing where
it goes through a kind of the same sort that has as many bits or more, signed or
not: the residue comes back whole.
-/

namespace TileGrid

open RowMajor Shape

variable {ν : Type}

namespace Kind

/-! ## Residues -/

/-- `z` is an integer of so many bits that is congruent to `n`. -/
structure IsResidue (bits : Nat) (isSigned : Bool) (n z : Int) : Prop where
  inRange : InRange bits isSigned z
  modEq : z ≡ n [ZMOD 2 ^ bits]

variable {bits : Nat} {isSigned : Bool}

theorem wrap_modEq (bits : Nat) (isSigned : Bool) (n : Int) :
    wrap bits isSigned n ≡ n [ZMOD 2 ^ bits] := by
  cases isSigned with
  | false => simp [wrap, Int.ModEq, Nat.one_shiftLeft]
  | true =>
      have hmod := Int.bmod_emod (x := n) (m := 2 ^ bits)
      push_cast at hmod
      simpa [wrap, Int.ModEq, Nat.one_shiftLeft] using hmod

theorem isResidue_wrap (hb : 0 < bits) (isSigned : Bool) (n : Int) :
    IsResidue bits isSigned n (wrap bits isSigned n) :=
  ⟨inRange_wrap hb isSigned n, wrap_modEq bits isSigned n⟩

/-- Integers of so many bits are less than that power of two apart. -/
theorem abs_sub_lt_of_inRange (hb : 0 < bits) {y z : Int}
    (hy : InRange bits isSigned y) (hz : InRange bits isSigned z) :
    |y - z| < 2 ^ bits := by
  have hhalf : (2 : Int) ^ bits = 2 * 2 ^ (bits - 1) := by
    rw [← pow_succ']
    congr 1
    omega
  rw [abs_sub_lt_iff]
  cases isSigned with
  | false =>
      simp only [InRange, Bool.false_eq_true, if_false] at hy hz
      push_cast at hy hz
      omega
  | true =>
      simp only [InRange, if_true] at hy hz
      push_cast at hy hz
      omega

/-- An integer has one residue. -/
theorem IsResidue.unique (hb : 0 < bits) {n y z : Int}
    (hy : IsResidue bits isSigned n y)
    (hz : IsResidue bits isSigned n z) : y = z := by
  have hdvd : (2 : Int) ^ bits ∣ y - z := (hz.modEq.trans hy.modEq.symm).dvd
  exact sub_eq_zero.mp
    (Int.eq_zero_of_abs_lt_dvd hdvd
      (abs_sub_lt_of_inRange hb hy.inRange hz.inRange))

theorem wrap_of_inRange (hb : 0 < bits) {z : Int}
    (hz : InRange bits isSigned z) :
    wrap bits isSigned z = z :=
  (isResidue_wrap hb isSigned z).unique hb ⟨hz, rfl⟩

/-- A residue comes back from any that keeps as many bits. -/
theorem wrap_wrap_of_le (hb : 0 < bits) {bits' : Nat} (hle : bits ≤ bits')
    {isSigned' : Bool} {z : Int} (hz : InRange bits isSigned z) :
    wrap bits isSigned (wrap bits' isSigned' z) = z := by
  have hmod : wrap bits' isSigned' z ≡ z [ZMOD 2 ^ bits] :=
    (wrap_modEq bits' isSigned' z).of_dvd (pow_dvd_pow 2 hle)
  exact IsResidue.unique hb ⟨inRange_wrap hb _ _, (wrap_modEq _ _ _).trans hmod⟩
    ⟨hz, rfl⟩

end Kind

/-! ## Integers as elements -/

namespace Element

/-- The rational that an element stands for. -/
def value? : Element → Option ℚ
  | number x => x.value?
  | integer n => some n

/-- The value rounded toward zero. What has no value counts as zero. -/
def truncated (v : Element) : Int := (v.value?.map Number.towardZero).getD 0

/-- A number or an integer, and not some other thing in the place of
a number. -/
def IsPlain (v : Element) : Prop := ∀ s, v ≠ number (.stray s)

theorem isPlain_of_value? {v : Element} {q : ℚ} (h : v.value? = some q) :
    v.IsPlain := by
  rintro s rfl
  cases h

theorem truncated_of_value? {v : Element} {z : Int}
    (h : v.value? = some (z : ℚ)) :
    v.truncated = z := by
  simp [truncated, h]

end Element

namespace Kind

/-- How many bits a kind of integers has, and whether they are signed. -/
def integral? (kind : Kind) : Option (Nat × Bool) :=
  match kind.rule with
  | .whole bits isSigned => some (bits, isSigned)
  | .wide isSigned => some (64, isSigned)
  | .rounded _ => none

/-- The integer as an element of the kind. -/
def element (kind : Kind) (z : Int) : Element :=
  if kind.isWide then .integer z else .number (.ofInt z)

variable {kind other : Kind} {bits bits' : Nat} {isSigned isSigned' : Bool}

theorem integral?_cases (h : kind.integral? = some (bits, isSigned)) :
    (kind.rule = .whole bits isSigned ∧ kind.isWide = false) ∨
      kind.rule = .wide isSigned ∧ kind.isWide = true ∧ bits = 64 := by
  unfold integral? at h
  cases hrule : kind.rule with
  | whole b s =>
      rw [hrule] at h
      cases h
      exact .inl ⟨rfl, by simp [isWide, hrule]⟩
  | wide s =>
      rw [hrule] at h
      cases h
      exact .inr ⟨rfl, by simp [isWide, hrule], rfl⟩
  | rounded f =>
      rw [hrule] at h
      cases h

theorem bits_pos (h : kind.integral? = some (bits, isSigned)) : 0 < bits := by
  rcases integral?_cases h with ⟨hrule, -⟩ | ⟨-, -, rfl⟩
  · exact (bits_of_rule hrule).1
  · decide

theorem suits_element (kind : Kind) (z : Int) :
    kind.Suits (kind.element z) := by
  cases h : kind.isWide <;> simp [element, h, Suits]

theorem value?_element (h : kind.integral? = some (bits, isSigned)) {z : Int}
    (hz : InRange bits isSigned z) :
    (kind.element z).value? = some (z : ℚ) := by
  rcases integral?_cases h with ⟨hrule, hwide⟩ | ⟨-, hwide, rfl⟩
  · have hle := natAbs_le_of_inRange (bits_of_rule hrule).2 hz
    simpa [element, hwide, Element.value?] using (Number.isInt_ofInt hle).value?
  · simp [element, hwide, Element.value?]

theorem Holds.exists_element (h : kind.integral? = some (bits, isSigned))
    {e : Element} (he : kind.Holds e) :
    ∃ z, e = kind.element z ∧ InRange bits isSigned z := by
  have hin := he.inRange
  rcases integral?_cases h with ⟨hrule, hwide⟩ | ⟨hrule, hwide, rfl⟩
  · simpa [hrule, element, hwide] using hin
  · simpa [hrule, element, hwide] using hin

/-- **A write leaves the residue of the whole part.** -/
theorem convert_eq (h : kind.integral? = some (bits, isSigned)) {v : Element}
    (hsuits : kind.Suits v) (hplain : v.IsPlain) :
    kind.convert v = .ok (kind.element (wrap bits isSigned v.truncated)) := by
  rcases integral?_cases h with ⟨hrule, hwide⟩ | ⟨hrule, hwide, rfl⟩
  · cases v with
    | integer n => simp [Suits, hwide] at hsuits
    | number x =>
        have hcounted : x.counted = x := by
          cases x with
          | stray s => exact absurd rfl (hplain s)
          | nan => rfl
          | infinite s => rfl
          | finite s m => rfl
        simp [convert, hrule, element, hwide, hcounted, Element.truncated,
          Element.value?, Number.truncate_eq]
  · cases v with
    | integer n =>
      simp [convert, hrule, element, hwide, Element.truncated, Element.value?]
    | number x => simp [Suits, hwide] at hsuits

/-- What a cell of one kind of integers holds, written to a cell of another. -/
theorem convert_element (h : kind.integral? = some (bits, isSigned))
    (h' : other.integral? = some (bits', isSigned'))
    (hwide : other.isWide = kind.isWide) {z : Int}
    (hz : InRange bits isSigned z) :
    other.convert (kind.element z) =
      .ok (other.element (wrap bits' isSigned' z)) := by
  have hvalue := value?_element h hz
  have hsuits : other.Suits (kind.element z) := by
    have heq : kind.element z = other.element z := by
      rw [element, element, hwide]
    rw [heq]
    exact suits_element other z
  rw [convert_eq h' hsuits (Element.isPlain_of_value? hvalue),
    Element.truncated_of_value? hvalue]

/-- A kind holds the integers of its range. -/
theorem holds_element (h : kind.integral? = some (bits, isSigned)) {z : Int}
    (hz : InRange bits isSigned z) : kind.Holds (kind.element z) := by
  rw [Holds, convert_element h h rfl hz, wrap_of_inRange (bits_pos h) hz]

end Kind

/-! ## Entries of arrays -/

/-- An element of an array: a coordinate that the array accepts. -/
structure Tensor.Entry (h : Host ν) where
  array : Tensor
  extents : List Nat
  sound : array.Sound h extents
  point : Point extents
  index : Index
  whole : IsWhole index point.1

namespace Tensor.Entry

variable {h : Host ν} {c d c' : Entry h}

def kind (c : Entry h) : Kind := c.array.kind

def get (c : Entry h) : Act ν Element := c.array.get c.index

def set (c : Entry h) (v : Element) : Act ν Unit := c.array.set c.index v

/-- Reads the entry, and writes what was read to another. -/
def copyTo (c d : Entry h) : Act ν Unit := do
  let e ← c.get
  d.set e

/-- The cell of the entry. -/
def cell (c : Entry h) : Nat := rank c.extents c.point.1

/-- In a later state too, the array of the entry has a cell for each of
its coordinates. -/
def LaidIn (c : Entry h) (h' : Host ν) : Prop :=
  (c.array.block h').Laid c.extents

theorem laidIn (c : Entry h) : c.LaidIn h := c.sound.block.laid

theorem LaidIn.putCell {h' : Host ν} (hc : c.LaidIn h') (storage p : Nat)
    (e : Element) :
    c.LaidIn (h'.putCell storage p e) :=
  laid_putCell hc (prod_pos_of_inBox c.point.2) storage p e

theorem set_eq {h' : Host ν} (hc : c.LaidIn h') {v e : Element}
    (he : c.kind.convert v = .ok e) :
    c.set v h' = .ok () (h'.putCell c.array.storage c.cell e) :=
  set_of_laid hc c.whole c.point.2 he

theorem get_eq {h' : Host ν} (hc : c.LaidIn h') :
    c.get h' = .ok ((c.array.block h').elem c.extents c.point.1) h' :=
  get_of_laid hc c.whole c.point.2

/-- What is read after a write is what it left. -/
theorem get_of_set {h' : Host ν} (hc : c.LaidIn h') (e : Element) :
    c.get (h'.putCell c.array.storage c.cell e) =
      .ok e (h'.putCell c.array.storage c.cell e) := by
  refine (get_putCell hc c.whole c.point.2 _ _ e).trans ?_
  rw [if_pos ⟨rfl, rfl⟩]

/-- Writing to an entry what it holds changes nothing. -/
theorem set_held (c : Entry h) :
    ∃ e, c.kind.Holds e ∧ c.get h = .ok e h ∧ c.set e h = .ok () h := by
  have hholds := c.sound.block.holds_elem c.point.2
  refine ⟨_, hholds, get_eq c.laidIn, (set_eq c.laidIn hholds).trans ?_⟩
  rw [Host.putCell_eq, Host.updateCells_of_fixed]
  exact setIfInBounds_of_held (c.sound.block.getElem?_rank c.point.2)

/-- An element copied from an entry to another is converted on the way. -/
theorem copyTo_eq {h' : Host ν} {e e' : Element} (hget : c.get h' = .ok e h')
    (hd : d.LaidIn h') (he : d.kind.convert e = .ok e') :
    c.copyTo d h' = .ok () (h'.putCell d.array.storage d.cell e') :=
  (bind_of_ok hget _).trans (set_eq hd he)

end Tensor.Entry

/-- **Integer elements are exact residues, and lose nothing between kinds that
keep as many bits.** -/
theorem integer_elements_exact (h : Host ν) :
    (∀ (c : Tensor.Entry h) (bits : Nat) (isSigned : Bool) (v : Element),
      c.kind.integral? = some (bits, isSigned) → c.kind.Suits v → v.IsPlain →
        ∃ z h', Kind.IsResidue bits isSigned v.truncated z ∧
          (∀ y, Kind.IsResidue bits isSigned v.truncated y → y = z) ∧
          c.set v h = .ok () h' ∧ c.get h' = .ok (c.kind.element z) h' ∧
          (c.kind.element z).value? = some (z : ℚ)) ∧
    (∀ c : Tensor.Entry h, ∃ e, c.get h = .ok e h ∧ c.set e h = .ok () h) ∧
    (∀ (c d c' : Tensor.Entry h) (bits bits' : Nat) (isSigned isSigned' : Bool),
      c.kind.integral? = some (bits, isSigned) →
        d.kind.integral? = some (bits', isSigned') →
        d.kind.isWide = c.kind.isWide → bits ≤ bits' → c'.kind = c.kind →
        ∃ e h₁ h₂, c.get h = .ok e h ∧ c.copyTo d h = .ok () h₁ ∧
          d.copyTo c' h₁ = .ok () h₂ ∧ c'.get h₂ = .ok e h₂) := by
  refine ⟨?_, ?_, ?_⟩
  · intro c bits isSigned v hk hsuits hplain
    have hres := Kind.isResidue_wrap (Kind.bits_pos hk) isSigned v.truncated
    exact ⟨_, _, hres, fun y hy => hy.unique (Kind.bits_pos hk) hres,
      Tensor.Entry.set_eq c.laidIn (Kind.convert_eq hk hsuits hplain),
      Tensor.Entry.get_of_set c.laidIn _, Kind.value?_element hk hres.inRange⟩
  · intro c
    obtain ⟨e, -, hget, hset⟩ := c.set_held
    exact ⟨e, hget, hset⟩
  · intro c d c' bits bits' isSigned isSigned' hk hk' hwide hle hkind
    obtain ⟨e, hholds, hget, -⟩ := c.set_held
    obtain ⟨z, rfl, hz⟩ := hholds.exists_element hk
    have hthere := Kind.convert_element hk hk' hwide hz
    have hback := Kind.convert_element hk' hk hwide.symm
      (Kind.inRange_wrap (Kind.bits_pos hk') isSigned' z)
    rw [Kind.wrap_wrap_of_le (Kind.bits_pos hk) hle hz] at hback
    have hlaid := c'.laidIn.putCell d.array.storage d.cell
      (d.kind.element (Kind.wrap bits' isSigned' z))
    have hread := Tensor.Entry.get_of_set d.laidIn
      (d.kind.element (Kind.wrap bits' isSigned' z))
    exact ⟨_, _, _, hget, Tensor.Entry.copyTo_eq hget d.laidIn hthere,
      Tensor.Entry.copyTo_eq hread hlaid (by rw [hkind]; exact hback),
      Tensor.Entry.get_of_set hlaid _⟩

/-- A signed and an unsigned array of eight bits. A number below the range
wraps, without its fraction, and the first element of the one goes through the
other to its second. -/
theorem integer_elements_exact_signed :
    let signed : Block :=
      ⟨.i8, whole [2], #[Kind.element .i8 (-1), Kind.element .i8 5]⟩
    let unsigned : Block := ⟨.u8, whole [1], #[Kind.element .u8 7]⟩
    let h : Host Unit :=
      ((Host.empty .empty ()).pushCells signed.cells).pushCells unsigned.cells
    let x : Number := .ofInt (-519) / .ofNat 4
    ∃ c c' d : Tensor.Entry h,
      c.array = ⟨.i8, whole [2], 0⟩ ∧ c.index = whole [0] ∧
      c'.array = ⟨.i8, whole [2], 0⟩ ∧ c'.index = whole [1] ∧
      d.array = ⟨.u8, whole [1], 1⟩ ∧ d.index = whole [0] ∧
      (∃ h', c.set (.number x) h = .ok () h' ∧
        c.get h' = .ok (Kind.element .i8 127) h') ∧
      (∃ e, c.get h = .ok e h ∧ c.set e h = .ok () h) ∧
      ∃ e h₁ h₂, c.get h = .ok e h ∧ c.copyTo d h = .ok () h₁ ∧
        d.copyTo c' h₁ = .ok () h₂ ∧ c'.get h₂ = .ok e h₂ := by
  intro signed unsigned h x
  have hsigned : signed.Sound [2] := by
    refine ⟨isWhole_whole (by decide), rfl, by decide, ?_⟩
    intro e he
    simp only [signed, List.mem_toArray, List.mem_cons, List.not_mem_nil,
      or_false] at he
    rcases he with rfl | rfl
    · exact Kind.holds_element rfl (by simp [Kind.InRange])
    · exact Kind.holds_element rfl (by simp [Kind.InRange])
  have hunsigned : unsigned.Sound [1] := by
    refine ⟨isWhole_whole (by decide), rfl, by decide, ?_⟩
    intro e he
    obtain rfl := List.mem_singleton.mp (Array.mem_toList_iff.mpr he)
    exact Kind.holds_element rfl (by simp [Kind.InRange])
  have hs : Tensor.Sound ⟨.i8, whole [2], 0⟩ h [2] :=
    (Tensor.sound_allocated hsigned (Host.empty .empty ())).pushCells
      unsigned.cells
  have hu : Tensor.Sound ⟨.u8, whole [1], 1⟩ h [1] :=
    Tensor.sound_allocated hunsigned
      ((Host.empty .empty ()).pushCells signed.cells)
  let c : Tensor.Entry h :=
    ⟨_, _, hs, ⟨[0], .cons (by decide) .nil⟩, whole [0],
      isWhole_whole (by decide)⟩
  let c' : Tensor.Entry h :=
    ⟨_, _, hs, ⟨[1], .cons (by decide) .nil⟩, whole [1],
      isWhole_whole (by decide)⟩
  let d : Tensor.Entry h :=
    ⟨_, _, hu, ⟨[0], .cons (by decide) .nil⟩, whole [0],
      isWhole_whole (by decide)⟩
  obtain ⟨hwrites, hheld, hcopies⟩ := integer_elements_exact h
  have htruncate : x.truncate = -129 := by decide +kernel
  have hx : (Element.number x).truncated = -129 := by
    rw [← htruncate, Number.truncate_eq]
    rfl
  have hplain : (Element.number x).IsPlain := by
    intro s hs
    rw [Element.number.inj hs] at htruncate
    cases htruncate
  obtain ⟨z, h', -, hunique, hset, hget, -⟩ :=
    hwrites c 8 true (.number x) rfl rfl hplain
  obtain rfl : 127 = z :=
    hunique 127 (by rw [hx]; exact ⟨by simp [Kind.InRange], by decide⟩)
  exact ⟨c, c', d, rfl, rfl, rfl, rfl, rfl, rfl, ⟨h', hset, hget⟩, hheld c,
    hcopies c d c' 8 8 true false rfl rfl rfl le_rfl rfl⟩

end TileGrid
