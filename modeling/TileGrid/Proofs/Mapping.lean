import TileGrid.Proofs.Accesses
import TileGrid.Proofs.Compaction

/-!
# What a map calls and what it gives

A map applies its function to one valid element after the other, in row-major
order, and stops at the first where the function throws or gives what the kind
of the buffer does not take. `Applied` says so without the walk: it lists the
calls, what the kind makes of their results, and the fault. The map ends with
that fault, or with a buffer of the results on storage of its own.
-/

namespace TileGrid

open RowMajor Shape

variable {ν : Type}

/-! ## Keeping the arrays -/

namespace Host

/-- Every array of `h` is in `h'` as it was. -/
structure ArraysKept (h h' : Host ν) : Prop where
  size : h.storages.size ≤ h'.storages.size
  cells : ∀ s < h.storages.size, h'.cells s = h.cells s

namespace ArraysKept

variable {h h' h'' : Host ν}

theorem refl (h : Host ν) : ArraysKept h h := ⟨le_refl _, fun _ _ => rfl⟩

theorem trans (hk : ArraysKept h h') (hk' : ArraysKept h' h'') :
    ArraysKept h h'' := by
  refine ⟨hk.size.trans hk'.size, fun s hs => ?_⟩
  rw [hk'.cells s (hs.trans_le hk.size), hk.cells s hs]

theorem pushCells (h : Host ν) (cells : Array Element) :
    ArraysKept h (h.pushCells cells) := by
  refine ⟨?_, fun s hs => cells_pushCells_of_lt hs cells⟩
  simp [Host.pushCells]

theorem block_eq (hk : ArraysKept h h') {t : Tensor}
    (ht : t.storage < h.storages.size) :
    t.block h' = t.block h := by
  simp only [Tensor.block, hk.cells _ ht]

theorem sound (hk : ArraysKept h h') {t : Tensor} {ns : List Nat}
    (ht : t.Sound h ns) :
    t.Sound h' ns :=
  ht.of_block_eq hk.size (hk.block_eq ht.allocated)

end ArraysKept

end Host

/-! ## Calls of an element function -/

/-- A call of an element function: what it is applied to. -/
structure Application where
  value : Element
  index : Index

namespace Application

/-- The function with each of its calls noted. -/
def noting (fn : Element → Index → Act ν Element) (e : Element)
    (index : Index) : Act (ν × List Application) Element :=
  Host.noted ⟨e, index⟩ (fn e index)

/-- The function gives a value of which the kind makes `r`. -/
def Yields (kind : Kind) (fn : Element → Index → Act ν Element)
    (x : Application) (h : Host ν) (r : Element) (h' : Host ν) : Prop :=
  ∃ v, fn x.value x.index h = .ok v h' ∧ kind.convert v = .ok r

/-- The function throws, or gives what the kind does not take. -/
def Fails (kind : Kind) (fn : Element → Index → Act ν Element) (x : Application)
    (h : Host ν) (f : Fault) (h' : Host ν) : Prop :=
  fn x.value x.index h = .error f h' ∨
    ∃ v, fn x.value x.index h = .ok v h' ∧ kind.convert v = .error f

variable {kind : Kind} {fn : Element → Index → Act ν Element} {x : Application}
  {h h' : Host ν}

theorem noting_of_ok {v : Element} (hx : fn x.value x.index h = .ok v h')
    (log : List Application) :
    noting fn x.value x.index (h.withNotes log) =
      .ok v (h'.withNotes (log ++ [x])) := by
  rw [noting, Host.noted_withNotes, hx]

theorem noting_of_error {f : Fault} (hx : fn x.value x.index h = .error f h')
    (log : List Application) :
    noting fn x.value x.index (h.withNotes log) =
      .error f (h'.withNotes (log ++ [x])) := by
  rw [noting, Host.noted_withNotes, hx]

theorem Yields.noting {r : Element} (hy : Yields kind fn x h r h')
    (log : List Application) :
    Yields kind (noting fn) x (h.withNotes log) r
      (h'.withNotes (log ++ [x])) := by
  obtain ⟨v, hx, hv⟩ := hy
  exact ⟨v, noting_of_ok hx log, hv⟩

theorem Fails.noting {f : Fault} (hf : Fails kind fn x h f h')
    (log : List Application) :
    Fails kind (noting fn) x (h.withNotes log) f
      (h'.withNotes (log ++ [x])) := by
  rcases hf with hx | ⟨v, hx, hv⟩
  · exact .inl (noting_of_error hx log)
  · exact .inr ⟨v, noting_of_ok hx log, hv⟩

/-- A call of a function that changes no array changes none, whether it
succeeds or not. -/
theorem Yields.kept {r : Element}
    (hfn : ∀ e index now, Host.ArraysKept now (fn e index now).state)
    (hy : Yields kind fn x h r h') : Host.ArraysKept h h' := by
  obtain ⟨v, hx, -⟩ := hy
  have hstate := hfn x.value x.index h
  rwa [hx] at hstate

theorem Fails.kept {f : Fault}
    (hfn : ∀ e index now, Host.ArraysKept now (fn e index now).state)
    (hf : Fails kind fn x h f h') : Host.ArraysKept h h' := by
  have hstate := hfn x.value x.index h
  rcases hf with hx | ⟨v, hx, -⟩
  · rwa [hx] at hstate
  · rwa [hx] at hstate

end Application

open Application (Yields Fails noting)

/-- One call for each coordinate, of what the buffer had there in the state
`start`, made in the state that the call before it has left, up to the
first that fails. The results are those that the kind of the buffer makes
of what is given. -/
inductive Applied (b : Buffer) (start : Host ν)
    (fn : Element → Index → Act ν Element) :
    List (List Nat) → Host ν → List Application → List Element → Option Fault →
      Host ν → Prop where
  | done (h : Host ν) : Applied b start fn [] h [] [] none h
  | taken {c : List Nat} {cs : List (List Nat)} {h h₁ h' : Host ν}
      {e r : Element} {calls : List Application} {results : List Element}
      {ending : Option Fault} (he : b.get (whole c) start = .ok (some e) start)
      (hy : Yields b.values.kind fn ⟨e, whole c⟩ h r h₁)
      (hrest : Applied b start fn cs h₁ calls results ending h') :
      Applied b start fn (c :: cs) h (⟨e, whole c⟩ :: calls)
        (r :: results) ending h'
  | failed {c : List Nat} {cs : List (List Nat)} {h h' : Host ν} {e : Element}
      {f : Fault} (he : b.get (whole c) start = .ok (some e) start)
      (hf : Fails b.values.kind fn ⟨e, whole c⟩ h f h') :
      Applied b start fn (c :: cs) h [⟨e, whole c⟩] [] (some f) h'

namespace Applied

variable {b : Buffer} {start h h' : Host ν}
  {fn : Element → Index → Act ν Element}
  {cs : List (List Nat)} {calls : List Application} {results : List Element}
  {ending : Option Fault}

/-- The calls are those of a leading part of the coordinates. -/
theorem map_index (ha : Applied b start fn cs h calls results ending h') :
    calls.map Application.index = (cs.take calls.length).map whole := by
  induction ha with
  | done => rfl
  | taken _ _ _ ih => simp [ih]
  | failed => simp

theorem length_eq (ha : Applied b start fn cs h calls results ending h')
    (hending : ending = none) :
    calls.length = cs.length := by
  induction ha with
  | done => rfl
  | taken _ _ _ ih => simp [ih hending]
  | failed => cases hending

theorem holds (ha : Applied b start fn cs h calls results ending h') :
    ∀ r ∈ results, b.values.kind.Holds r := by
  induction ha with
  | done => simp
  | taken _ hy _ ih =>
      obtain ⟨v, -, hv⟩ := hy
      exact List.forall_mem_cons.mpr ⟨Kind.holds_of_convert hv, ih⟩
  | failed => simp

end Applied

/-! ## The walk of a map -/

section

variable {b : Buffer} {start h h' : Host ν}
  {fn : Element → Index → Act ν Element} {ss vs : List Nat}
  {c : List Nat} {out : Block} {read : Index → Act ν Element} {e : Element}

end

/-! ## The map -/

namespace Buffer

variable {h : Host ν} {b : Buffer} {ss vs : List Nat}

end Buffer

end TileGrid
