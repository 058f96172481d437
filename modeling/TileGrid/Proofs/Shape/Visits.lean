import TileGrid.Proofs.Notes
import TileGrid.Proofs.Shape.Enumeration

/-!
# One order for visits, enumerations and strides

A visit of a box counts its calls against the size of the box, an enumeration of
it ends where its own carry runs over, and the strides are multiplied up from
the last extent. On every box of whole extents the three agree: the `k`-th call
is at the `k`-th value of the enumeration, and the strides lay that coordinate
out at `k` (`Visits`). What a visitor does to the state does not matter for
that, and one that throws ends the visit there.
-/

namespace TileGrid.Shape

open RowMajor

/-! ## Noting calls -/

section Calls

variable {ε σ β : Type}

/-- The visitor with each of its calls noted, beside the state: the coordinate
and the number that it is given. -/
def noting (visit : β → Index → Number → EStateM ε σ β) (acc : β)
    (index : Index) (linear : Number) :
    EStateM ε (σ × List (Index × Number)) β :=
  Notebook.pair.noting (index, linear) (visit acc index linear)

variable {visit : β → Index → Number → EStateM ε σ β} {acc acc' : β}
  {s s' : σ} {e : ε}
  {c : Index × Number} {cs : List (Index × Number)}

/-- One call after the other, each with what the one before it has left, and
none of them throws. -/
inductive Passes (visit : β → Index → Number → EStateM ε σ β) :
    List (Index × Number) → β → σ → β → σ → Prop where
  | done (acc : β) (s : σ) : Passes visit [] acc s acc s
  | call {c : Index × Number} {cs : List (Index × Number)} {acc acc₁ acc' : β}
      {s s₁ s' : σ} (hcall : visit acc c.1 c.2 s = .ok acc₁ s₁)
      (hrest : Passes visit cs acc₁ s₁ acc' s') :
      Passes visit (c :: cs) acc s acc' s'

/-- The calls before the `k`-th pass, and that one throws. -/
def ThrowsAt (visit : β → Index → Number → EStateM ε σ β)
    (cs : List (Index × Number)) (k : Nat) (acc : β) (s : σ) (e : ε)
    (s' : σ) : Prop :=
  ∃ c acc₁ s₁, cs[k]? = some c ∧ Passes visit (cs.take k) acc s acc₁ s₁ ∧
    visit acc₁ c.1 c.2 s₁ = .error e s'

theorem ThrowsAt.length_take {k : Nat} (h : ThrowsAt visit cs k acc s e s') :
    (cs.take (k + 1)).length = k + 1 := by
  obtain ⟨_, _, _, hc, _, _⟩ := h
  obtain ⟨hk, _⟩ := List.getElem?_eq_some_iff.mp hc
  exact List.length_take_of_le hk

/-- Of any calls, either all pass or there is a first that throws. -/
theorem passes_or_throwsAt (visit : β → Index → Number → EStateM ε σ β)
    (cs : List (Index × Number)) (acc : β) (s : σ) :
    (∃ acc' s', Passes visit cs acc s acc' s') ∨
      ∃ k e s', ThrowsAt visit cs k acc s e s' := by
  induction cs generalizing acc s with
  | nil => exact .inl ⟨acc, s, .done acc s⟩
  | cons c cs ih =>
      cases hcall : visit acc c.1 c.2 s with
      | error e s' => exact .inr ⟨0, e, s', c, acc, s, rfl, .done acc s, hcall⟩
      | ok acc₁ s₁ =>
          rcases ih acc₁ s₁ with ⟨acc', s', hrest⟩ | ⟨k, e, s', d, acc₂, s₂, hd,
            hrest, hthrow⟩
          · exact .inl ⟨acc', s', .call hcall hrest⟩
          · exact .inr ⟨k + 1, e, s', d, acc₂, s₂, hd,
              .call hcall hrest, hthrow⟩

/-- Calls that pass are made and noted, and what follows them starts with
what they left. -/
theorem foldlM_noting_append (h : Passes visit cs acc s acc' s')
    (ds : List (Index × Number)) (log : List (Index × Number)) :
    (cs ++ ds).foldlM (fun acc c => noting visit acc c.1 c.2) acc (s, log) =
      ds.foldlM (fun acc c => noting visit acc c.1 c.2) acc'
        (s', log ++ cs) := by
  induction h generalizing log with
  | done acc s => rw [List.nil_append, List.append_nil]
  | @call c cs acc acc₁ acc' s s₁ s' hcall hrest ih =>
      have hnoted : noting visit acc c.1 c.2 (s, log) =
          .ok acc₁ (s₁, log ++ [c]) :=
        Notebook.noting_of_ok (b := .pair) hcall c log
      rw [List.cons_append, List.foldlM_cons, bind_of_ok hnoted]
      refine (ih (log ++ [c])).trans ?_
      rw [List.append_assoc, List.singleton_append]

theorem foldlM_noting_of_passes (h : Passes visit cs acc s acc' s') :
    cs.foldlM (fun acc c => noting visit acc c.1 c.2) acc (s, []) =
      .ok acc' (s', cs) := by
  have hall := foldlM_noting_append h [] []
  rwa [List.append_nil, List.nil_append] at hall

/-- A call that throws is the last. -/
theorem foldlM_noting_of_throwsAt {k : Nat}
    (h : ThrowsAt visit cs k acc s e s') :
    cs.foldlM (fun acc c => noting visit acc c.1 c.2) acc (s, []) =
      .error e (s', cs.take (k + 1)) := by
  obtain ⟨c, acc₁, s₁, hc, hbefore, hthrow⟩ := h
  obtain ⟨hk, rfl⟩ := List.getElem?_eq_some_iff.mp hc
  have hsplit : cs = cs.take k ++ cs[k] :: cs.drop (k + 1) := by simp
  have hfold := foldlM_noting_append hbefore (cs[k] :: cs.drop (k + 1)) []
  have hnoted : noting visit acc₁ cs[k].1 cs[k].2 (s₁, cs.take k) =
      .error e (s', cs.take k ++ [cs[k]]) :=
    Notebook.noting_of_error (b := .pair) hthrow cs[k] (cs.take k)
  rw [← hsplit, List.nil_append, List.foldlM_cons, bind_of_error hnoted]
    at hfold
  rw [hfold, List.take_succ_eq_append_getElem hk]

end Calls

/-! ## The calls of a visit -/

variable {shape : Shape} {ns : List Nat}

/-- The calls of a visit of the box of the extents `ns`. -/
def calls (ns : List Nat) : List (Index × Number) :=
  (List.range ns.prod).map fun k => (whole (coordinate ns k), .ofNat k)

theorem length_calls (ns : List Nat) : (calls ns).length = ns.prod := by
  simp [calls]

theorem map_fst_calls (ns : List Nat) :
    (calls ns).map Prod.fst = (box ns).map whole := by
  simp [calls, box]

theorem getElem?_calls {k : Nat} {c : Index × Number}
    (h : (calls ns)[k]? = some c) :
    k < ns.prod ∧ c = (whole (coordinate ns k), .ofNat k) := by
  obtain ⟨hk, hc⟩ := List.getElem?_eq_some_iff.mp h
  rw [length_calls] at hk
  exact ⟨hk, by simpa [calls] using hc.symm⟩

theorem visitAll_eq_calls {ε σ β : Type} {stuck : ε} (h : shape.IsWhole ns)
    (hle : ns.prod ≤ Number.safeLimit) (init : β)
    (visit : β → Index → Number → EStateM ε σ β) :
    visitAll stuck shape init visit =
      (calls ns).foldlM (fun acc c => visit acc c.1 c.2) init := by
  rw [visitAll_eq h hle, calls, List.foldlM_map]

/-- Extents of a box that can be visited are counted exactly, if it has
any coordinates. -/
theorem forall_le_of_prod_le (hle : ns.prod ≤ Number.safeLimit)
    (hpos : 0 < ns.prod) :
    ∀ n ∈ ns, n ≤ Number.safeLimit :=
  fun n hn => (le_prod_of_mem hpos n hn).trans hle

theorem take_eq_calls (h : shape.IsWhole ns) (hle : ns.prod ≤ Number.safeLimit)
    (n : Nat) :
    take shape n = (((calls ns).map Prod.fst).take n,
      decide (ns.prod ≤ n)) := by
  rw [take, first?_eq h,
    takeFrom_corner fun hpos => ⟨h, forall_le_of_prod_le hle hpos⟩,
    map_fst_calls, List.map_take]

theorem indices_eq_calls (h : shape.IsWhole ns)
    (hle : ns.prod ≤ Number.safeLimit) :
    indices shape = (calls ns).map Prod.fst := by
  have hbound : ns.prod ≤ stepBound shape := by
    rcases Nat.eq_zero_or_pos ns.prod with h0 | hpos
    · omega
    · exact prod_le_stepBound h (forall_le_of_prod_le hle hpos)
  rw [indices, take_eq_calls h hle,
    List.take_of_length_le (by rwa [List.length_map, length_calls])]

/-- A visit of the box of the extents `ns` makes the calls `cs`, in the order of
its enumeration and of its strides. -/
structure Visits (shape : Shape) (ns : List Nat)
    (cs : List (Index × Number)) : Prop where
  count : cs.length = ns.prod
  linear : ∀ (k : Nat) c, cs[k]? = some c → c.2.IsWhole k
  /-- The `k`-th call is at a coordinate of the box, which the strides
  lay out at `k`. -/
  laidOut : ∀ (k : Nat) c, cs[k]? = some c → ∃ is ss, IsWhole c.1 is ∧
    InBox ns is ∧
    IsWhole shape.strides ss ∧ ∑ d ∈ Finset.range ns.length,
      is.getD d 0 * ss.getD d 0 = k
  /-- The sum is the same where it is taken with rounding. -/
  position : ∀ (k : Nat) c, cs[k]? = some c →
    ((pairWith (· * ·) c.1 shape.strides).foldl (· + ·) 0).IsWhole k
  enumerated : indices shape = cs.map Prod.fst
  take : ∀ n, take shape n = ((cs.map Prod.fst).take n, decide (cs.length ≤ n))
  /-- If no call throws, all of them are made. -/
  passes :
    ∀ {ε σ β : Type} (stuck : ε) (visit : β → Index → Number → EStateM ε σ β)
    (init : β) (s : σ) (acc : β) (s' : σ), Passes visit cs init s acc s' →
      visitAll stuck shape init (noting visit) (s, []) = .ok acc (s', cs)
  /-- If the `k`-th throws, it is the last of `k + 1` calls. -/
  throws :
    ∀ {ε σ β : Type} (stuck : ε) (visit : β → Index → Number → EStateM ε σ β)
    (init : β) (s : σ) (k : Nat) (e : ε) (s' : σ),
      ThrowsAt visit cs k init s e s' →
      visitAll stuck shape init (noting visit) (s, []) = .error e (s',
        cs.take (k + 1)) ∧ (cs.take (k + 1)).length = k + 1
  ends : ∀ {ε σ β : Type} (visit : β → Index → Number → EStateM ε σ β)
    (init : β) (s : σ),
    (∃ acc s', Passes visit cs init s acc s') ∨
      ∃ k e s', ThrowsAt visit cs k init s e s'

/-- **The calls of a visit**, for any number of whole extents. -/
theorem visits_calls (h : shape.IsWhole ns) (hle : ns.prod ≤ Number.safeLimit) :
    Visits shape ns (calls ns) := by
  constructor
  case count =>
    exact length_calls ns
  case linear =>
    intro k c hc
    obtain ⟨hk, rfl⟩ := getElem?_calls hc
    exact Number.isWhole_ofNat (by omega)
  case laidOut =>
    intro k c hc
    obtain ⟨hk, rfl⟩ := getElem?_calls hc
    have hin := inBox_coordinate hk
    refine ⟨_, _, isWhole_whole_of_inBox hin hle, hin,
      h.strides (by omega) hle, ?_⟩
    rw [← rank_eq_sum (length_of_inBox hin), rank_coordinate hk]
  case position =>
    intro k c hc
    obtain ⟨hk, rfl⟩ := getElem?_calls hc
    have hin := inBox_coordinate hk
    have hsum : 0 + rank ns (coordinate ns k) = k := by
      rw [rank_coordinate hk, Nat.zero_add]
    have hdot := isWhole_foldl_add h hle (isWhole_whole_of_inBox hin hle) hin
      Number.isWhole_zero
      (by omega)
    rwa [hsum] at hdot
  case enumerated =>
    exact indices_eq_calls h hle
  case take =>
    intro n
    rw [take_eq_calls h hle, length_calls]
  case passes =>
    intro ε σ β stuck visit init s acc s' hpasses
    rw [visitAll_eq_calls h hle]
    exact foldlM_noting_of_passes hpasses
  case throws =>
    intro ε σ β stuck visit init s k e s' hthrows
    rw [visitAll_eq_calls h hle]
    exact ⟨foldlM_noting_of_throwsAt hthrows, hthrows.length_take⟩
  case ends =>
    intro ε σ β visit init s
    exact passes_or_throwsAt visit (calls ns) init s

end TileGrid.Shape
