import TileGrid.Transfer
import TileGrid.Proofs.Shape.Walk

/-!
# Walks that stay inside a box

An array that a caller supplies may declare any extents, fractions and strays
included, and a transfer clips its box by them. Whatever comes out of that, each
extent is between zero and that of the box, or not a number (`Within`), so the
walk comes by coordinates of the box only. Two walks that do the same there do
the same (`visitAll_congr`).
-/

namespace TileGrid

open RowMajor

/-! ## Clipped extents -/

namespace Number

/-- Not a number, or one between zero and `n`. -/
def Within (x : Number) (n : Nat) : Prop :=
  x = nan ∨ ∃ s m, x = finite s m ∧ m.units ≤ n * unitsPerOne ∧
    (s = true → m.units = 0)

theorem within_of_isWhole {x : Number} {n : Nat} (hx : x.IsWhole n) :
    x.Within n := by
  obtain ⟨s, m, rfl, hm, hs⟩ := hx
  refine .inr ⟨s, m, rfl, hm.le, fun hneg => ?_⟩
  rw [hm, hs hneg, Nat.zero_mul]

theorem within_zero (n : Nat) : Within 0 n := by
  obtain ⟨s, m, h0, hm, hs⟩ := isWhole_zero
  rw [h0]
  refine .inr ⟨s, m, rfl, ?_, fun _ => ?_⟩ <;> simp [hm]

theorem Within.isPlain {x : Number} {n : Nat} (hx : x.Within n) :
    Shape.IsPlain x := by
  intro t
  rcases hx with rfl | ⟨s, m, rfl, -⟩ <;> simp

theorem Within.isNull {x : Number} (hx : x.Within 0) : Shape.IsNull x := by
  rcases hx with rfl | ⟨s, m, rfl, hm, -⟩
  · exact .inl rfl
  · exact .inr ⟨s, m, rfl, by simpa using hm, fun _ => rfl⟩

/-- A whole number below is below `n`. -/
theorem Within.lt {x y : Number} {m n : Nat} (hy : y.Within n)
    (hx : x.IsWhole m) (hlt : x.lt y = true) : m < n := by
  obtain ⟨s, a, rfl, -, -⟩ := id hx
  rcases hy with rfl | ⟨t, b, rfl, hb, hneg⟩
  · cases hlt
  · rw [lt_finite, hx.signed_units, decide_eq_true_eq] at hlt
    have hsigned : signed t b.units ≤ (n * unitsPerOne : Nat) := by
      cases t with
      | false =>
          simp only [signed, Bool.false_eq_true, if_false]
          exact Int.ofNat_le.mpr hb
      | true =>
          simp only [signed, if_true, hneg rfl]
          omega
    have hunits : m * unitsPerOne < n * unitsPerOne := by omega
    exact Nat.lt_of_mul_lt_mul_right hunits

theorem within_max_zero {s : Bool} {m : Magnitude} {n : Nat}
    (h : signed s m.units ≤ (n * unitsPerOne : Nat)) :
    (Number.max 0 (finite s m)).Within n := by
  by_cases hle : signed s m.units ≤ 0
  · rw [max_zero_of_signed_le hle]
    exact within_zero n
  · -- positive, so it has no sign and wins over zero
    have h0 : (0 : Number) = finite false ⟨0 * unitsPerOne, _⟩ :=
      ofNat_eq (holds_whole (Nat.zero_le _))
    have hpos : signed false (0 * unitsPerOne) < signed s m.units := by
      simp only [signed, Bool.false_eq_true, if_false, Nat.zero_mul]
      simp only [signed] at hle
      omega
    rw [h0, max_finite, if_pos hpos]
    cases s with
    | false =>
        simp only [signed, Bool.false_eq_true, if_false] at h
        exact .inr ⟨false, m, rfl, Int.ofNat_le.mp h, by simp⟩
    | true =>
        simp only [signed, if_true] at hle
        omega

/-- What is clipped to an extent is within it, whatever the room is. -/
theorem IsWhole.within_clip {z r : Number} {n : Nat} (hz : z.IsWhole n)
    (hr : Shape.IsPlain r) :
    (Number.max 0 (Number.min z r)).Within n := by
  have hzu := hz
  obtain ⟨s, a, rfl, -, -⟩ := hzu
  have hsigned := hz.signed_units
  cases r with
  | nan => exact .inl rfl
  | infinite t =>
      cases t with
      | false =>
          have hmin : Number.min (finite s a) (infinite false) =
              finite s a := rfl
          rw [hmin]
          exact within_max_zero hsigned.le
      | true =>
          have hmin : Number.min (finite s a) (infinite true) =
              infinite true := rfl
          have hmax : Number.max 0 (infinite true) = 0 := by
            obtain ⟨t, m, h0, -, -⟩ := isWhole_zero
            rw [h0]
            rfl
          rw [hmin, hmax]
          exact within_zero n
  | finite t b =>
      rw [min_finite]
      split
      · exact within_max_zero hsigned.le
      · split
        · exact within_max_zero (by omega)
        · split
          · exact within_max_zero hsigned.le
          · exact within_max_zero (by omega)
  | stray t => exact absurd rfl (hr t)

theorem isPlain_ofText (s : String) : Shape.IsPlain (ofText s) := by
  have hmag : ∀ negative cs, Shape.IsPlain (ofMagnitude negative cs) := by
    intro negative cs t
    unfold ofMagnitude
    split
    · simp
    · cases Decimal.read? cs with
      | none => simp
      | some d =>
          simp only [Option.map_some, Option.getD_some, Decimal.toNumber]
          split
          · exact Shape.isPlain_round _ _ _ _ t
          · split
            · simp
            · exact Shape.isPlain_round _ _ _ _ t
  unfold ofText
  split
  · exact Shape.isPlain_of_isWhole isWhole_zero
  · exact hmag _ _
  · exact hmag _ _

theorem isPlain_counted_or (x : Number) :
    Shape.IsPlain x.counted ∨ ∃ n, x = integer n := by
  unfold counted
  split
  · exact .inr ⟨_, rfl⟩
  · exact .inl (isPlain_ofText _)
  · rename_i hx
    exact .inl hx

/-- What is left of an extent past a whole number is a number, whatever stands
for the extent. -/
theorem IsWhole.isPlain_sub {x y : Number} {n : Nat} (hy : y.IsWhole n) :
    Shape.IsPlain (x - y) := by
  obtain ⟨t, b, rfl, -, -⟩ := hy
  show Shape.IsPlain (x.counted.add (finite (!t) b))
  intro u
  rcases isPlain_counted_or x with hx | ⟨k, rfl⟩
  · generalize x.counted = a at hx
    cases a with
    | nan => simp [Number.add, isText]
    | infinite s => simp [Number.add, isText]
    | finite s m =>
        change finite s m + finite (!t) b ≠ _
        rw [add_finite]
        split <;> exact Shape.isPlain_round _ _ _ _ u
    | stray s => exact absurd rfl (hx s)
  · have hnan : (integer k).counted.add (finite (!t) b) = nan := rfl
    rw [hnan]
    simp

end Number

/-! ## The walk -/

namespace Shape

/-- A box clipped by whatever extents, at a whole origin, is within the box. -/
theorem within_clip {extent origin shape : Shape} {os ss : List Nat}
    (ho : origin.IsWhole os) (hs : shape.IsWhole ss)
    (hextent : extent.length = ss.length) (hos : os.length = ss.length) :
    List.Forall₂ Number.Within (Transfer.clip extent origin shape) ss := by
  unfold Transfer.clip
  induction hs generalizing extent origin os with
  | nil => exact .nil
  | @cons z s shape ss hz _ ih =>
      cases extent with
      | nil => simp at hextent
      | cons x extent =>
          cases ho with
          | nil => simp at hos
          | @cons y o origin os hy ho =>
              exact .cons (hz.within_clip hy.isPlain_sub)
                (ih ho (by simpa using hextent) (by simpa using hos))

section Walks

variable {ε σ β : Type} {stuck : ε} {w : Shape} {vs : List Nat}

/-- **One step** of a walk leads from a coordinate of the box to one
of the box. -/
theorem exists_inBox_advance (hw : List.Forall₂ Number.Within w vs)
    (hpos : ∀ n ∈ vs, 0 < n) (hlim : ∀ n ∈ vs, n ≤ Number.safeLimit)
    {index : Index} {is : List Nat} (hi : IsWhole index is)
    (hin : InBox vs is) :
    ∃ js, IsWhole (advance w index).1 js ∧ InBox vs js := by
  induction hw generalizing index is with
  | nil =>
      cases hin
      cases hi
      exact ⟨[], .nil, .nil⟩
  | @cons d n w vs hd hw ih =>
      obtain ⟨hn, hpos⟩ := List.forall_mem_cons.mp hpos
      obtain ⟨hle, hlim⟩ := List.forall_mem_cons.mp hlim
      cases hin with
      | @cons m _ is _ hlt hin =>
          cases hi with
          | @cons i _ index _ hm hi =>
              obtain ⟨js, hjs, hinjs⟩ := ih hpos hlim hi hin
              cases hstep : advance w index with
              | mk rest carry =>
                  rw [hstep] at hjs
                  cases carry with
                  | false =>
                      rw [advance_cons_false hstep]
                      exact ⟨m :: js, .cons hm hjs, .cons hlt hinjs⟩
                  | true =>
                      rw [advance_cons_true hstep]
                      have hnext : (i + 1).IsWhole (m + 1) :=
                        hm.add Number.isWhole_one (by omega)
                      by_cases hroom : (i + 1).lt d = true
                      · rw [if_pos hroom]
                        exact ⟨_, .cons hnext hjs,
                          .cons (hd.lt hnext hroom) hinjs⟩
                      · rw [if_neg hroom]
                        exact ⟨_, .cons Number.isWhole_zero hjs, .cons hn hinjs⟩

theorem isWhole_corner (hw : List.Forall₂ Number.Within w vs) :
    IsWhole w.corner (coordinate vs 0) := by
  rw [coordinate_zero]
  induction hw with
  | nil => exact .nil
  | cons _ _ ih => exact .cons Number.isWhole_zero ih

theorem visitFrom_of_not_lt {visit : β → Index → Number → EStateM ε σ β}
    {linear : Number} (hlt : linear.lt w.size = false) (k : Nat)
    (index : Index) (acc : β) :
    visitFrom stuck w visit k linear index acc = pure acc := by
  cases k <;> simp [visitFrom, hlt]

variable {visit visit' : β → Index → Number → EStateM ε σ β} {P : σ → Prop}

theorem visitFrom_congr (hw : List.Forall₂ Number.Within w vs)
    (hpos : ∀ n ∈ vs, 0 < n) (hlim : ∀ n ∈ vs, n ≤ Number.safeLimit)
    (hvisit : ∀ acc index is linear s, IsWhole index is → InBox vs is → P s →
      visit acc index linear s = visit' acc index linear s ∧
      ∀ acc' s', visit acc index linear s = .ok acc' s' → P s')
    (k : Nat) (linear : Number) {index : Index} {is : List Nat}
    (hi : IsWhole index is) (hin : InBox vs is) (acc : β) {s : σ} (hs : P s) :
    visitFrom stuck w visit k linear index acc s =
      visitFrom stuck w visit' k linear index acc s := by
  induction k generalizing linear index is acc s with
  | zero => rfl
  | succ k ih =>
      by_cases hlt : linear.lt w.size = true
      · obtain ⟨hsame, hP⟩ := hvisit acc index is linear s hi hin hs
        rw [visitFrom, visitFrom, if_pos hlt, if_pos hlt]
        show EStateM.bind _ _ s = EStateM.bind _ _ s
        rw [EStateM.bind, EStateM.bind, ← hsame]
        cases hx : visit acc index linear s with
        | error e s' => rfl
        | ok acc' s' =>
            obtain ⟨js, hjs, hinjs⟩ := exists_inBox_advance hw hpos hlim hi hin
            exact ih (linear + 1) hjs hinjs acc' (hP acc' s' hx)
      · rw [Bool.not_eq_true] at hlt
        rw [visitFrom_of_not_lt hlt, visitFrom_of_not_lt hlt]

/-- **Two walks that do the same inside the box do the same**, as long as what
they do keeps to the states in `P`. -/
theorem visitAll_congr (hw : List.Forall₂ Number.Within w vs)
    (hle : vs.prod ≤ Number.safeLimit)
    (hvisit : ∀ acc index is linear s, IsWhole index is → InBox vs is → P s →
      visit acc index linear s = visit' acc index linear s ∧
      ∀ acc' s', visit acc index linear s = .ok acc' s' → P s')
    (init : β) {s : σ} (hs : P s) :
    visitAll stuck w init visit s = visitAll stuck w init visit' s := by
  unfold visitAll
  rcases Nat.eq_zero_or_pos vs.prod with h0 | hpos
  · -- nothing is visited
    have hnull : IsNull w.size := isNull_size_of_forall₂ (R := Number.Within)
      (fun _ _ => Number.Within.isPlain) (fun _ => Number.Within.isNull) hw h0
    have hlt := hnull.lt Number.isWhole_zero
    rw [visitFrom_of_not_lt hlt, visitFrom_of_not_lt hlt]
  · have hlim : ∀ n ∈ vs, n ≤ Number.safeLimit := by
      intro n hn
      exact (Nat.le_of_dvd hpos (List.dvd_prod hn)).trans hle
    exact visitFrom_congr hw (prod_pos_iff.mp hpos) hlim hvisit
      Number.safeLimit 0
      (isWhole_corner hw) (inBox_coordinate hpos) init hs

end Walks

end Shape

end TileGrid
