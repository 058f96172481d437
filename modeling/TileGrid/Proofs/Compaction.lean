import Mathlib.Data.List.Sort
import TileGrid.Proofs.StoreOutcome

/-!
# The valid box as a mask

`Buffer.compact` walks the valid box alone, with steps of its own. A walk
over the whole buffer comes by the coordinates of that box in the same
order (`filter_box`), so compacting gives what is left of the whole buffer
when it is sifted by its mask. The product of the valid extents counts what
is left: it is a product of doubles, and exact because the size of the
whole buffer is a number.
-/

namespace TileGrid

open RowMajor Shape

variable {ν : Type}

/-! ## Coordinates in order -/

namespace RowMajor

/-- The coordinates with a property, each of them once, in row-major order. -/
structure Enumerates (p : List Nat → Prop) (cs : List (List Nat)) : Prop where
  ordered : cs.Pairwise (· < ·)
  mem_iff : ∀ c, c ∈ cs ↔ p c

/-- There is one such list only. -/
theorem Enumerates.unique {p : List Nat → Prop} {cs cs' : List (List Nat)}
    (h : Enumerates p cs) (h' : Enumerates p cs') : cs = cs' := by
  apply h.ordered.eq_of_mem_iff h'.ordered
  intro c
  rw [h.mem_iff, h'.mem_iff]

end RowMajor

/-! ## Reading a box -/

/-- The elements as one list, if a list can have so many. -/
def listOf (es : List Element) : Except Fault (List Element) :=
  if es.length < listLimit then .ok es else .error .listLength

theorem listOf_of_lt {es : List Element} (h : es.length < listLimit) :
    listOf es = .ok es := if_pos h

theorem listOf_of_le {es : List Element} (h : listLimit ≤ es.length) :
    listOf es = .error .listLength := if_neg (Nat.not_lt.mpr h)

section Reads

variable {σ : Type} {s : σ} {read : Index → EStateM Fault σ Element}
  {val : List Nat → Element}

/-- One visit of a walk that reads: what is read is put to the end. -/
def gather (read : Index → EStateM Fault σ Element) (out : Array Element)
    (index : Index) : EStateM Fault σ (Array Element) := do
  let e ← read index
  settle (pushListed out e)

theorem foldlM_gather {cs : List (List Nat)}
    (hread : ∀ c ∈ cs, read (whole c) s = .ok (val c) s) {out : Array Element}
    (hout : out.size < listLimit) :
    cs.foldlM (fun out c => gather read out (whole c)) out s =
      settle (List.toArray <$> listOf (out.toList ++ cs.map val)) s := by
  induction cs generalizing out with
  | nil =>
      rw [listOf_of_lt (by simpa using hout)]
      simp [settle]
  | cons c cs ih =>
      obtain ⟨hc, hread⟩ := List.forall_mem_cons.mp hread
      have hvisit : gather read out (whole c) s =
          settle (pushListed out (val c)) s :=
        bind_of_ok hc _
      rw [List.foldlM_cons]
      by_cases hroom : out.size + 1 < listLimit
      · rw [pushListed, if_pos hroom] at hvisit
        rw [bind_of_ok hvisit, ih hread (by simpa using hroom)]
        simp
      · -- the list is full, and what is left to read does not matter
        rw [pushListed, if_neg hroom] at hvisit
        rw [bind_of_error hvisit, listOf_of_le (by simp; omega)]
        rfl

/-- The elements of a box, where reading changes nothing. -/
theorem Shape.readAll_eq {valid : Shape} {vs : List Nat} (hv : valid.IsWhole vs)
    (hle : vs.prod ≤ Number.safeLimit)
    (hread : ∀ c, InBox vs c → read (whole c) s = .ok (val c) s) :
    valid.readAll read s = settle (listOf ((box vs).map val)) s := by
  have hempty : (#[] : Array Element).size < listLimit := by decide
  have hwalk := foldlM_gather (fun c hc => hread c (mem_box.mp hc)) hempty
  rw [← visitAll_eq_box hv hle #[] (gather read)] at hwalk
  simp only [List.nil_append] at hwalk
  cases hlist : listOf ((box vs).map val) with
  | ok es =>
      rw [hlist] at hwalk
      exact bind_of_ok hwalk _
  | error f =>
      rw [hlist] at hwalk
      exact bind_of_error hwalk _

end Reads

/-! ## Compacting -/

namespace Buffer

variable {h : Host ν} {b : Buffer} {ss vs : List Nat}

/-- **What compacting gives**: what the array holds on the valid box, if one
list can hold it. -/
theorem compact_eq (hb : b.values.Sound h ss) (hv : b.valid.IsWhole vs)
    (hle : List.Forall₂ (· ≤ ·) vs ss) :
    b.compact h =
      settle (listOf ((box vs).map ((b.values.block h).elem ss))) h := by
  apply readAll_eq hv ((prod_le_prod hle).trans (Nat.le_of_lt hb.block.bound))
  intro c hc
  have hcs := inBox_of_le hc hle
  exact Tensor.get_eq hb
    (isWhole_whole_of_inBox hcs (Nat.le_of_lt hb.block.bound)) hcs

end Buffer

end TileGrid
