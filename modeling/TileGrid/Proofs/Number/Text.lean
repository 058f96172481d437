import TileGrid.Number.Reading
import TileGrid.Proofs.Number.Shortest
import TileGrid.Proofs.Number.Whole

/-!
# A number is read back from its text

A positive number is written in one of four layouts of its digits. Each is read
back as a decimal of the same value (`exists_read?_text`), and the value alone
decides what number is read. So `ofText` undoes `text`, but for the sign of a
zero, which is not written (`ofText_text`).
-/

namespace TileGrid

theorem Number.round_of_nearest {units num den : Nat}
    (hheld : Format.binary64.Holds units)
    (h : Format.binary64.nearest num den = units) (negative : Bool) :
    round .binary64 negative num den = .finite negative ⟨units, hheld⟩ := by
  subst h
  exact dif_pos hheld.2

namespace Decimal

variable {d : Decimal} {cs whole fraction rest : List Char}

/-! ## Values of digits -/

theorem valueOf_eq (cs : List Char) : valueOf cs = Nat.ofDigitChars 10 cs 0 :=
  rfl

@[simp] theorem valueOf_toDigits (n : Nat) :
    valueOf (Nat.toDigits 10 n) = n := by
  rw [valueOf_eq, Nat.ofDigitChars_ten_toDigits]

theorem valueOf_append_zeros (cs : List Char) (k : Nat) :
    valueOf (cs ++ List.replicate k '0') = valueOf cs * 10 ^ k := by
  rw [valueOf_eq, Nat.ofDigitChars_append, Nat.ofDigitChars_replicate_zero,
    valueOf_eq, Nat.mul_comm]

theorem valueOf_zeros_append (k : Nat) (cs : List Char) :
    valueOf (List.replicate k '0' ++ cs) = valueOf cs := by
  rw [valueOf_eq, Nat.ofDigitChars_append, Nat.ofDigitChars_replicate_zero,
    Nat.mul_zero, valueOf_eq]

theorem isDigit_zeros {k : Nat} {c : Char} (h : c ∈ List.replicate k '0') :
    c.isDigit := by
  rw [List.eq_of_mem_replicate h]
  rfl

theorem exists_eq_append_zeros (cs : List Char) :
    ∃ k, cs = (cs.reverse.dropWhile (· == '0')).reverse ++
      List.replicate k '0' := by
  refine ⟨(cs.reverse.takeWhile (· == '0')).length, ?_⟩
  have hzeros : (cs.reverse.takeWhile (· == '0')).reverse =
      List.replicate (cs.reverse.takeWhile (· == '0')).length '0' := by
    rw [List.eq_replicate_iff, List.length_reverse]
    refine ⟨rfl, fun c hc => ?_⟩
    exact beq_iff_eq.1
      (List.all_eq_true.1 List.all_takeWhile c (List.mem_reverse.1 hc))
  rw [← hzeros, ← List.reverse_append, List.takeWhile_append_dropWhile,
    List.reverse_reverse]

/-- The digits that are written, and the place of the point among them. -/
theorem spread_spec (hpos : 0 < d.digits) {digits : List Char} {point : Int}
    (h : d.spread = (digits, point)) :
    digits ≠ [] ∧ (∀ c ∈ digits, c.isDigit) ∧
      (valueOf digits : ℚ) * 10 ^ (point - digits.length) = d.value := by
  obtain ⟨k, hk⟩ := exists_eq_append_zeros (Nat.toDigits 10 d.digits)
  simp only [spread, Prod.mk.injEq] at h
  obtain ⟨hdigits, hpoint⟩ := h
  rw [hdigits] at hk
  have hvalue : valueOf digits * 10 ^ k = d.digits := by
    rw [← valueOf_append_zeros, ← hk, valueOf_toDigits]
  refine ⟨?_, fun c hc => ?_, ?_⟩
  · rintro rfl
    rw [valueOf_eq, Nat.ofDigitChars_nil, Nat.zero_mul] at hvalue
    omega
  · have hmem : c ∈ Nat.toDigits 10 d.digits :=
      hk ▸ List.mem_append_left _ hc
    exact Nat.isDigit_of_mem_toDigits (by decide) (by decide) hmem
  · have hexp : point - digits.length = k + d.exponent := by
      have hlength := congrArg List.length hk
      rw [List.length_append, List.length_replicate] at hlength
      omega
    rw [hexp, zpow_add₀ (by norm_num), zpow_natCast, ← mul_assoc,
      value, ← hvalue]
    push_cast
    rfl

/-! ## Reading the parts -/

theorem span_digits (hwhole : ∀ c ∈ whole, c.isDigit)
    (hrest : ∀ c ∈ rest.head?, c.isDigit = false) :
    (whole ++ rest).takeWhile Char.isDigit = whole ∧
      (whole ++ rest).dropWhile Char.isDigit = rest := by
  rw [List.takeWhile_append_of_pos hwhole, List.dropWhile_append_of_pos hwhole]
  cases rest with
  | nil => simp
  | cons c rest =>
    have hc := hrest c rfl
    simp [hc]

/-- What may follow the digits: nothing, or an exponent. -/
def IsTail (rest : List Char) : Prop :=
  rest = [] ∨ ∃ more, rest = 'e' :: more

theorem IsTail.head (h : IsTail rest) :
    ∀ c ∈ rest.head?, c.isDigit = false := by
  rintro c hc
  rcases h with rfl | ⟨more, rfl⟩ <;> cases hc
  rfl

theorem read?_whole (hne : whole ≠ []) (hwhole : ∀ c ∈ whole, c.isDigit)
    (hrest : IsTail rest) :
    read? (whole ++ rest) =
      (readExponent? rest).map fun e => ⟨valueOf whole, e⟩ := by
  obtain ⟨htake, hdrop⟩ := span_digits hwhole hrest.head
  have hsplit : splitFraction rest = ([], rest) := by
    rcases hrest with rfl | ⟨more, rfl⟩ <;> rfl
  simp only [read?, htake, hdrop, hsplit, List.append_nil]
  cases readExponent? rest <;> simp [hne]

theorem read?_fraction (whole fraction : List Char) {rest : List Char}
    (hne : whole ++ fraction ≠ [])
    (hwhole : ∀ c ∈ whole, c.isDigit) (hfraction : ∀ c ∈ fraction, c.isDigit)
    (hrest : IsTail rest) :
    read? (whole ++ '.' :: (fraction ++ rest)) =
      (readExponent? rest).map fun e =>
        ⟨valueOf (whole ++ fraction), e - fraction.length⟩ := by
  have hpoint : ∀ c ∈ ('.' :: (fraction ++ rest)).head?, c.isDigit = false := by
    rintro c ⟨⟩
    rfl
  obtain ⟨htake, hdrop⟩ := span_digits hwhole hpoint
  obtain ⟨hin, hafter⟩ := span_digits hfraction hrest.head
  have hsplit : splitFraction ('.' :: (fraction ++ rest)) =
      (fraction, rest) := by
    rw [splitFraction, hin, hafter]
  simp only [read?, htake, hdrop, hsplit]
  cases readExponent? rest <;> simp_all

theorem readNat?_toDigits (n : Nat) :
    readNat? (Nat.toDigits 10 n) = some n := by
  have hall : (Nat.toDigits 10 n).all Char.isDigit = true :=
    List.all_eq_true.2 fun c hc =>
      Nat.isDigit_of_mem_toDigits (by decide) (by decide) hc
  rw [readNat?, hall, Bool.and_true, if_pos, valueOf_toDigits]
  simp [Nat.toDigits_ne_nil]

theorem readExponent?_written (e : Int) :
    readExponent? ('e' :: (if e < 0 then '-' else '+') ::
      Nat.toDigits 10 e.natAbs) = some e := by
  split
  · have habs : -(e.natAbs : Int) = e := by omega
    simp only [readExponent?, readInt?, readNat?_toDigits]
    exact congrArg some habs
  · have habs : (e.natAbs : Int) = e := by omega
    simp only [readExponent?, readInt?, readNat?_toDigits, Option.map_some,
      Int.ofNat_eq_natCast, habs]

/-! ## The four layouts -/

/-- Text that starts with a digit and is read as a decimal of value `v`. -/
def ReadsAs (cs : List Char) (v : ℚ) : Prop :=
  ∃ d, read? cs = some d ∧ d.value = v ∧ ∃ c rest, cs = c :: rest ∧ c.isDigit

theorem value_mk (n : Nat) (e : Int) : value ⟨n, e⟩ = n * 10 ^ e := rfl

section Layouts

variable {digits : List Char} (hne : digits ≠ [])
  (hdigits : ∀ c ∈ digits, c.isDigit)

include hne hdigits

theorem head_digit :
    ∃ c tail, digits = c :: tail ∧ c.isDigit := by
  obtain ⟨c, tail, rfl⟩ := List.exists_cons_of_ne_nil hne
  exact ⟨c, tail, rfl, hdigits c List.mem_cons_self⟩

theorem readsAs_whole (k : Nat) :
    ReadsAs (digits ++ List.replicate k '0')
      (valueOf digits * 10 ^ (k : Int)) := by
  obtain ⟨c, tail, hcons, hc⟩ := head_digit hne hdigits
  have hall : ∀ c ∈ digits ++ List.replicate k '0', c.isDigit := fun c hc =>
    (List.mem_append.1 hc).elim (hdigits c) isDigit_zeros
  have hread := read?_whole (by simp [hne]) hall (.inl rfl)
  rw [List.append_nil] at hread
  refine ⟨_, hread, ?_, c, tail ++ List.replicate k '0', by rw [hcons]; rfl, hc⟩
  rw [value_mk, valueOf_append_zeros, zpow_zero, mul_one, zpow_natCast]
  push_cast
  rfl

theorem readsAs_point {k : Nat} (hk : 0 < k) (hle : k ≤ digits.length) :
    ReadsAs (digits.take k ++ '.' :: digits.drop k)
      (valueOf digits * 10 ^ (k - digits.length : Int)) := by
  obtain ⟨c, tail, hcons, hc⟩ := head_digit hne hdigits
  have hread := read?_fraction (digits.take k) (digits.drop k) (by simp [hne])
    (fun c hc => hdigits c (List.mem_of_mem_take hc))
    (fun c hc => hdigits c (List.mem_of_mem_drop hc)) (.inl rfl)
  rw [List.append_nil] at hread
  obtain ⟨j, rfl⟩ : ∃ j, k = j + 1 := ⟨k - 1, by omega⟩
  refine ⟨_, hread, ?_, c, tail.take j ++ '.' :: tail.drop j,
    by rw [hcons]; rfl, hc⟩
  rw [value_mk, List.take_append_drop, List.length_drop]
  congr 2
  omega

omit hne in
theorem readsAs_zeros (k : Nat) :
    ReadsAs ('0' :: '.' :: (List.replicate k '0' ++ digits))
      (valueOf digits * 10 ^ (-(k : Int) - digits.length)) := by
  have hall : ∀ c ∈ List.replicate k '0' ++ digits, c.isDigit := fun c hc =>
    (List.mem_append.1 hc).elim isDigit_zeros (hdigits c)
  have hread := read?_fraction ['0'] _ (by simp)
    (by rintro c ⟨⟩ <;> trivial) hall (.inl rfl)
  rw [List.append_nil] at hread
  have hskip : valueOf (['0'] ++ (List.replicate k '0' ++ digits)) =
      valueOf digits := by
    rw [← List.append_assoc]
    exact valueOf_zeros_append (k + 1) digits
  refine ⟨_, hread, ?_, _, _, rfl, rfl⟩
  rw [value_mk, hskip, List.length_append, List.length_replicate]
  congr 2
  omega

theorem readsAs_exponent (e : Int) :
    ReadsAs (digits.take 1 ++
        (if (digits.length : Int) ≤ 1 then [] else '.' :: digits.drop 1) ++
        'e' :: (if e < 0 then '-' else '+') :: Nat.toDigits 10 e.natAbs)
      (valueOf digits * 10 ^ (e + 1 - digits.length)) := by
  obtain ⟨c, tail, hcons, hc⟩ := head_digit hne hdigits
  have hlength := List.length_pos_iff.2 hne
  have htake : ∀ c ∈ digits.take 1, c.isDigit := fun c hc =>
    hdigits c (List.mem_of_mem_take hc)
  have hexponent := readExponent?_written e
  generalize (if e < 0 then '-' else '+') :: Nat.toDigits 10 e.natAbs = rest
    at hexponent ⊢
  split
  · have hread := read?_whole (by simp [hne]) htake (.inr ⟨rest, rfl⟩)
    rw [hexponent, Option.map_some] at hread
    rw [List.append_nil]
    refine ⟨_, hread, ?_, c, 'e' :: rest, by rw [hcons]; rfl, hc⟩
    rw [value_mk, List.take_of_length_le (by omega)]
    congr 2
    omega
  · have hread := read?_fraction (digits.take 1) (digits.drop 1)
      (by simp [hne]) htake
      (fun c hc => hdigits c (List.mem_of_mem_drop hc)) (.inr ⟨rest, rfl⟩)
    rw [hexponent, Option.map_some] at hread
    rw [List.append_assoc, List.cons_append]
    refine ⟨_, hread, ?_, c, '.' :: (tail ++ 'e' :: rest),
      by rw [hcons]; rfl, hc⟩
    rw [value_mk, List.take_append_drop, List.length_drop]
    congr 2
    omega

end Layouts

/-- **The text of a decimal is read as a decimal of the same value.** -/
theorem readsAs_text (hpos : 0 < d.digits) : ReadsAs d.text.toList d.value := by
  obtain ⟨⟨digits, point⟩, hspread⟩ : ∃ s, d.spread = s := ⟨_, rfl⟩
  obtain ⟨hne, hdigits, hvalue⟩ := spread_spec hpos hspread
  simp only [text, hspread, ← hvalue]
  split
  · split
    · rw [String.toList_ofList]
      have h := readsAs_whole hne hdigits (point - digits.length).toNat
      rwa [Int.toNat_of_nonneg (by omega)] at h
    · rw [String.toList_ofList]
      have h := readsAs_point hne hdigits (k := point.toNat) (by omega)
        (by omega)
      rwa [Int.toNat_of_nonneg (by omega)] at h
  · split
    · rw [String.toList_ofList]
      have h := readsAs_zeros hdigits (-point).toNat
      rwa [Int.toNat_of_nonneg (by omega), Int.neg_neg] at h
    · rw [String.toList_ofList]
      have h := readsAs_exponent hne hdigits (point - 1)
      rwa [Int.sub_add_cancel] at h

/-! ## The number that is read -/

theorem pow_point (hpos : 0 < d.digits) :
    (10 : ℚ) ^ ((Nat.toDigits 10 d.digits).length + d.exponent - 1) ≤ d.value ∧
      d.value < (10 : ℚ) ^ ((Nat.toDigits 10 d.digits).length +
        d.exponent) := by
  obtain ⟨hle, hlt⟩ := pow_length_toDigits hpos
  have hlength := Nat.length_toDigits_pos (b := 10) (n := d.digits)
  generalize (Nat.toDigits 10 d.digits).length = length at hle hlt hlength ⊢
  constructor
  · have hexp : (length : Int) + d.exponent - 1 =
        (length - 1 : Nat) + d.exponent := by
      omega
    rw [hexp, zpow_add₀ (by norm_num), zpow_natCast, value]
    exact mul_le_mul_of_nonneg_right (by exact_mod_cast hle) (ten_zpow_pos _).le
  · rw [zpow_add₀ (by norm_num), zpow_natCast, value]
    exact mul_lt_mul_of_pos_right (by exact_mod_cast hlt) (ten_zpow_pos _)

/-- A decimal of a size that is read gives the number that it reads as. -/
theorem toNumber_eq {units : Nat} (hheld : Format.binary64.Holds units)
    (hread : d.read = units) (hpos : 0 < units)
    (hlow : (10 : ℚ) ^ (-340 : Int) ≤ d.value)
    (hhigh : d.value < (10 : ℚ) ^ (310 : Int)) (negative : Bool) :
    d.toNumber negative = .finite negative ⟨units, hheld⟩ := by
  have hdigits := digits_pos hread hpos
  obtain ⟨hle, hlt⟩ := pow_point hdigits
  have hleft : -340 < (Nat.toDigits 10 d.digits).length + d.exponent :=
    (zpow_lt_zpow_iff_right₀ (by norm_num)).1 (hlow.trans_lt hlt)
  have hright : (Nat.toDigits 10 d.digits).length + d.exponent - 1 < 310 :=
    (zpow_lt_zpow_iff_right₀ (by norm_num)).1 (hle.trans_lt hhigh)
  rw [toNumber, if_neg (by simp only [widestPoint]; omega),
    if_neg (by simp only [widestPoint]; omega)]
  exact Number.round_of_nearest hheld hread negative

end Decimal

namespace Number

/-- A number as it is written: the sign of a zero is left out. -/
def written : Number → Number
  | finite s m => if m.units = 0 then 0 else finite s m
  | x => x

def isStray : Number → Bool
  | stray _ => true
  | _ => false

/-- What is written of a positive number: the text starts with a digit, and it
reads as the number with either sign before it. -/
theorem ofMagnitude_text {units : Nat} (hheld : Format.binary64.Holds units)
    (hpos : 0 < units) :
    (∃ c rest, (Decimal.shortest units).text.toList = c :: rest ∧ c.isDigit) ∧
      ∀ negative, ofMagnitude negative (Decimal.shortest units).text.toList =
        .finite negative ⟨units, hheld⟩ := by
  have hread := Decimal.read_shortest hpos hheld
  obtain ⟨hlow, hhigh⟩ := Decimal.value_shortest hpos hheld
  obtain ⟨d, hd, hvalue, c, rest, htext, hc⟩ :=
    Decimal.readsAs_text (Decimal.digits_pos hread hpos)
  rw [← hvalue] at hlow hhigh
  rw [← Decimal.read_congr hvalue] at hread
  have hword : (Decimal.shortest units).text.toList ≠ "Infinity".toList := by
    intro heq
    rw [htext] at heq
    obtain ⟨rfl, -⟩ := List.cons.inj heq
    cases hc
  refine ⟨⟨c, rest, htext, hc⟩, fun negative => ?_⟩
  rw [ofMagnitude, if_neg hword, hd, Option.map_some, Option.getD_some,
    Decimal.toNumber_eq hheld hread hpos hlow hhigh]

theorem ofText_of_digit {s : String} {c : Char} {rest : List Char}
    (hs : s.toList = c :: rest) (hc : c.isDigit) :
    ofText s = ofMagnitude false s.toList := by
  rw [ofText, hs]
  split
  · contradiction
  · rename_i heq
    obtain ⟨rfl, -⟩ := List.cons.inj heq
    cases hc
  · rfl

theorem ofText_minus (s : String) :
    ofText ("-" ++ s) = ofMagnitude true s.toList := by
  rw [ofText, String.toList_append]
  rfl

/-- **A number is read back from its text**, but for the sign of a zero. -/
theorem ofText_text {x : Number} (hx : x.isStray = false) :
    ofText x.text = x.written := by
  cases x with
  | nan => decide
  | infinite s => cases s <;> decide
  | finite s m =>
    rcases Nat.eq_zero_or_pos m.units with hzero | hpos
    · simp only [text, written, if_pos hzero]
      decide
    · obtain ⟨⟨c, rest, htext, hc⟩, hread⟩ := ofMagnitude_text m.held hpos
      simp only [text, written, if_neg hpos.ne']
      cases s with
      | false =>
        rw [if_neg Bool.false_ne_true, String.empty_append,
          ofText_of_digit htext hc, hread]
      | true => rw [if_pos rfl, ofText_minus, hread]
  | stray s => cases hx

end Number

end TileGrid
