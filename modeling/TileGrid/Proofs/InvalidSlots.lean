import TileGrid.Proofs.Mapping
import TileGrid.Proofs.Shape.Inside

/-!
# Invalid slots are not seen

Two buffers that differ only in what their invalid slots hold cannot be told
apart: reading, compacting, mapping and storing come by coordinates of the
valid box only. For a store that holds whatever extents the array declares,
since its walk stays inside the valid box. A function or an array that is
called on the way may do anything that does not itself make the two buffers
differ on their valid boxes.
-/

namespace TileGrid

open RowMajor Shape

variable {ν : Type}

/-! ## What is read outside the valid box does not matter -/

section Reads

variable {σ α β : Type} {P : σ → Prop} {s : σ}

/-- The same beginning, and an end that keeps to the states in `P`. -/
theorem bind_congr_keeping {x x' : EStateM Fault σ α}
    {k : α → EStateM Fault σ β} (hx : x s = x' s)
    (hP : ∀ a u, x s = .ok a u → P u)
    (hk : ∀ a u b t, P u → k a u = .ok b t → P t) :
    (x >>= k) s = (x' >>= k) s ∧ ∀ b t, (x >>= k) s = .ok b t → P t := by
  refine ⟨bind_congr_at k hx, fun b t hr => ?_⟩
  obtain ⟨a, u, hxa, hka⟩ := ok_of_bind hr
  exact hk a u b t (hP a u hxa) hka

theorem settle_bind_congr {x : Except Fault α} {k k' : α → EStateM Fault σ β}
    (hk : ∀ a, x = .ok a → k a s = k' a s) :
    (settle x >>= k) s = (settle x >>= k') s := by
  cases x with
  | error f => rfl
  | ok a => exact hk a rfl

/-- In the states in `P` the two readings give the same at the coordinates of
the box `vs`, and lead to states in `P`. -/
def ReadAlike (P : σ → Prop) (vs : List Nat)
    (read read' : Index → EStateM Fault σ Element) : Prop :=
  ∀ index is s, IsWhole index is → InBox vs is → P s →
    read index s = read' index s ∧ ∀ e u, read index s = .ok e u → P u

variable {vs : List Nat} {valid : Shape}
  {read read' : Index → EStateM Fault σ Element}

theorem Shape.readAll_congr (hv : valid.IsWhole vs)
    (hle : vs.prod ≤ Number.safeLimit) (hread : ReadAlike P vs read read')
    (hs : P s) : valid.readAll read s = valid.readAll read' s := by
  apply bind_congr_at
  apply visitAll_congr (hv.imp fun _ _ => Number.within_of_isWhole)
    hle ?_ #[] hs
  intro out index is _ s hi hin hs
  obtain ⟨hsame, hP⟩ := hread index is s hi hin hs
  apply bind_congr_keeping hsame hP
  intro e u out' t hu hr
  obtain rfl : t = u := by
    have hstate := looks_settle (pushListed out e) u
    rwa [hr] at hstate
  exact hu

theorem Masked.ofReads_congr {kind : Kind} {shape : Shape}
    {fn : Element → Index → EStateM Fault σ Element} (hv : valid.IsWhole vs)
    (hle : vs.prod ≤ Number.safeLimit) (hread : ReadAlike P vs read read')
    (hfn : ∀ e index s v t, P s → fn e index s = .ok v t → P t) (hs : P s) :
    ofReads kind shape valid read fn s =
      ofReads kind shape valid read' fn s := by
  apply settle_bind_congr
  intro fresh _
  apply bind_congr_at
  apply visitAll_congr (hv.imp fun _ _ => Number.within_of_isWhole) hle
    ?_ fresh hs
  intro out index is _ s hi hin hs
  obtain ⟨hsame, hP⟩ := hread index is s hi hin hs
  apply bind_congr_keeping hsame hP
  intro e u out' t hu hr
  obtain ⟨v, w, hv, hset⟩ := ok_of_bind hr
  have hw := hfn e index u v w hu hv
  cases hout : out.set index v with
  | error f =>
      rw [hout] at hset
      cases hset
  | ok b =>
      rw [hout] at hset
      cases hset
      exact hw

theorem Transfer.store_congr {a : Backing σ} {origin shape : Shape}
    (hv : valid.IsWhole vs) (hlen : valid.length = shape.length)
    (hle : vs.prod ≤ Number.safeLimit) (hread : ReadAlike P vs read read')
    (hset : ∀ index e s t, P s → a.set index e s = .ok () t → P t) (hs : P s) :
    store ⟨a, origin⟩ shape valid read s =
      store ⟨a, origin⟩ shape valid read' s := by
  apply settle_bind_congr
  intro _ hcheck
  obtain ⟨os, ss, ho, hss, hos, hextent⟩ := whole_of_check hcheck
  have hlength : vs.length = a.shape.length := by
    rw [← hv.length_eq, hlen, hss.length_eq, hextent]
  have hw := within_clip ho hv hlength.symm (by rw [hos, hlength])
  apply visitAll_congr hw hle ?_ () hs
  intro _ index is _ s hi hin hs
  obtain ⟨hsame, hP⟩ := hread index is s hi hin hs
  apply bind_congr_keeping hsame hP
  intro e u _ t hu hr
  exact hset _ e u t hu hr

end Reads

/-! ## Buffers that coincide -/

theorem Shape.exists_inBox_of_covers {valid : Shape} {vs : List Nat}
    (hv : valid.IsWhole vs) {index : Index}
    (hcovers : valid.covers index = true) :
    ∃ is, IsWhole index is ∧ InBox vs is := by
  rw [covers, Bool.and_eq_true, beq_iff_eq] at hcovers
  exact (allPairs_inExtent_iff hv hcovers.1).mp hcovers.2

namespace Buffer

/-- Two buffers that differ in no more than what their invalid slots hold. -/
structure Coincide (b₁ b₂ : Buffer) (h : Host ν) : Prop where
  kind : b₁.values.kind = b₂.values.kind
  shape : b₁.values.shape = b₂.values.shape
  valid : b₁.valid = b₂.valid
  agree : ∀ index, b₁.valid.covers index = true →
    (b₁.values.block h).get index = (b₂.values.block h).get index

/-- Where the action succeeds, buffers that coincide still do. -/
def KeptAlike {α : Type} (b₁ b₂ : Buffer) (act : Act ν α) : Prop :=
  ∀ now a later, Coincide b₁ b₂ now → act now = .ok a later →
    Coincide b₁ b₂ later

variable {b₁ b₂ : Buffer} {h : Host ν} {ss vs : List Nat}

theorem Coincide.of_storages {μ : Type} {h' : Host μ} (hsame : Coincide b₁ b₂ h)
    (hstorages : h'.storages = h.storages) : Coincide b₁ b₂ h' := by
  refine ⟨hsame.kind, hsame.shape, hsame.valid, fun index hcovers => ?_⟩
  have hagree := hsame.agree index hcovers
  simp only [Tensor.block, Host.cells, hstorages] at hagree ⊢
  exact hagree

theorem Coincide.withNotes {χ : Type} (hsame : Coincide b₁ b₂ h)
    (calls : List χ) :
    Coincide b₁ b₂ (h.withNotes calls) :=
  hsame.of_storages rfl

/-- Noting a call leaves the arrays alone. -/
theorem KeptAlike.noted {α χ : Type} {act : Act ν α}
    (hact : KeptAlike b₁ b₂ act) (x : χ) :
    KeptAlike b₁ b₂ (Host.noted x act) := by
  intro now a later hsame hr
  unfold Host.noted Notebook.noting Notebook.edit Host.notebook at hr
  dsimp only at hr
  cases hx : act (now.withCaller now.caller.1) with
  | error f h' =>
      rw [hx] at hr
      cases hr
  | ok r h' =>
      rw [hx] at hr
      cases hr
      exact (hact _ _ _ (hsame.of_storages rfl) hx).of_storages rfl

theorem readAlike_get (hv : b₁.valid.IsWhole vs) :
    ReadAlike (fun now : Host ν => Coincide b₁ b₂ now) vs b₁.values.get
      b₂.values.get := by
  intro index is now hi hin hsame
  have hagree := hsame.agree index ((covers_iff_inBox hv hi).mpr hin)
  refine ⟨?_, fun e later hr => ?_⟩
  · rw [Tensor.get, Tensor.get, hagree]
  · unfold Tensor.get at hr
    cases hget : (b₁.values.block now).get index with
    | error f =>
        rw [hget] at hr
        cases hr
    | ok e' =>
        rw [hget] at hr
        cases hr
        exact hsame

/-! ## What is seen of two buffers -/

/-- What is seen of the two buffers is the same: what they give, what is called
on the way, and how it ends. -/
structure Indistinct (b₁ b₂ : Buffer) (h : Host ν) : Prop where
  get : ∀ index, b₁.get index h = b₂.get index h
  compact : b₁.compact h = b₂.compact h
  map : ∀ fn : Element → Index → Act ν Element,
    (∀ e index, KeptAlike b₁ b₂ (fn e index)) →
    b₁.map fn h = b₂.map fn h ∧
    b₁.map (Application.noting fn) (h.withNotes []) =
      b₂.map (Application.noting fn) (h.withNotes [])
  store : ∀ (a : Backing (Host ν)) (origin : Index),
    (∀ index e, KeptAlike b₁ b₂ (a.set index e)) →
    Buffer.store ⟨a, origin⟩ b₁ h = Buffer.store ⟨a, origin⟩ b₂ h ∧
    Buffer.store ⟨a.noting, origin⟩ b₁ (h.withNotes []) =
      Buffer.store ⟨a.noting, origin⟩ b₂ (h.withNotes [])
  /-- An array of the host on storage of its own is one that the buffers
  can be stored to. -/
  storeTensor : ∀ (dst : Tensor) (origin : Index),
    dst.storage ≠ b₁.values.storage →
    dst.storage ≠ b₂.values.storage →
    Buffer.store ⟨dst.backing, origin⟩ b₁ h =
      Buffer.store ⟨dst.backing, origin⟩ b₂ h

theorem map_congr (hv : b₁.valid.IsWhole vs) (hle : vs.prod ≤ Number.safeLimit)
    (hsame : Coincide b₁ b₂ h) {fn : Element → Index → Act ν Element}
    (hfn : ∀ e index, KeptAlike b₁ b₂ (fn e index)) :
    b₁.map fn h = b₂.map fn h := by
  unfold map
  rw [← hsame.kind, ← hsame.shape, ← hsame.valid]
  apply bind_congr_at
  exact Masked.ofReads_congr hv hle (readAlike_get hv)
    (fun e index now v later hnow hr => hfn e index now v later hnow hr) hsame

theorem store_congr (hv : b₁.valid.IsWhole vs)
    (hlen : b₁.valid.length = b₁.values.shape.length)
    (hle : vs.prod ≤ Number.safeLimit) (hsame : Coincide b₁ b₂ h)
    {a : Backing (Host ν)} {origin : Index}
    (hset : ∀ index e, KeptAlike b₁ b₂ (a.set index e)) :
    store ⟨a, origin⟩ b₁ h = store ⟨a, origin⟩ b₂ h := by
  unfold store
  rw [← hsame.shape, ← hsame.valid]
  exact Transfer.store_congr hv hlen hle (readAlike_get hv)
    (fun index e now later hnow hr => hset index e now () later hnow hr) hsame

/-- Writing to other storage leaves the buffers as they are. -/
theorem keptAlike_set {dst : Tensor} (h₁ : dst.storage ≠ b₁.values.storage)
    (h₂ : dst.storage ≠ b₂.values.storage) (index : Index) (e : Element) :
    KeptAlike b₁ b₂ (dst.set index e : Act ν Unit) := by
  intro now _ later hsame hr
  unfold Tensor.set at hr
  cases hplace : (dst.block now).place index e with
  | error f =>
      rw [hplace] at hr
      cases hr
  | ok pe =>
      rw [hplace] at hr
      cases hr
      refine ⟨hsame.kind, hsame.shape, hsame.valid, fun j hcovers => ?_⟩
      rw [Host.putCell_eq, Tensor.block_updateCells_of_ne h₁.symm,
        Tensor.block_updateCells_of_ne h₂.symm]
      exact hsame.agree j hcovers

theorem indistinct_of_coincide (hb : b₁.values.Sound h ss)
    (hvalid : b₁.valid.fitsIn b₁.values.shape = true)
    (hsame : Coincide b₁ b₂ h) :
    Indistinct b₁ b₂ h := by
  have hs : b₁.values.shape.IsWhole ss := hb.block.shape
  obtain ⟨vs, hv, hles⟩ := (fitsIn_iff hs).mp hvalid
  have hle := (prod_le_prod hles).trans (Nat.le_of_lt hb.block.bound)
  have hlen : b₁.valid.length = b₁.values.shape.length := by
    rw [hv.length_eq, hs.length_eq, hles.length_eq]
  have hstore : ∀ (a : Backing (Host ν)) (origin : Index),
      (∀ index e, KeptAlike b₁ b₂ (a.set index e)) →
      store ⟨a, origin⟩ b₁ h = store ⟨a, origin⟩ b₂ h :=
    fun a origin hset => store_congr hv hlen hle hsame hset
  refine ⟨fun index => ?_, ?_, fun fn hfn => ⟨map_congr hv hle hsame hfn, ?_⟩,
    fun a origin hset => ⟨hstore a origin hset, ?_⟩, fun dst origin h₁ h₂ => ?_⟩
  · by_cases hcovers : b₁.valid.covers index = true
    · have hcovers₂ : b₂.valid.covers index = true := hsame.valid ▸ hcovers
      unfold Buffer.get Masked.get masked
      simp only [hcovers, hcovers₂, if_true, hsame.agree index hcovers]
    · rw [get_of_not_covers hcovers, get_of_not_covers (hsame.valid ▸ hcovers)]
  · show b₁.valid.readAll _ h = b₂.valid.readAll _ h
    rw [← hsame.valid]
    apply readAll_congr (P := fun _ => True) hv hle ?_ trivial
    intro index is now hi hin _
    have hagree := hsame.agree index ((covers_iff_inBox hv hi).mpr hin)
    exact ⟨congrArg (settle · now) hagree, fun _ _ _ => trivial⟩
  · have hnoted : ∀ e index, KeptAlike b₁ b₂ (Application.noting fn e index) :=
      fun e index => (hfn e index).noted _
    exact map_congr hv hle (hsame.withNotes []) hnoted
  · have hnoted : ∀ index e, KeptAlike b₁ b₂ (a.noting.set index e) :=
      fun index e => (hset index e).noted _
    exact store_congr hv hlen hle (hsame.withNotes []) hnoted
  · exact hstore dst.backing origin fun index e => keptAlike_set h₁ h₂ index e

end Buffer

/-! ## Writes to invalid slots -/

/-- A write that succeeds sets one cell. -/
theorem Tensor.set_ok {t : Tensor} {h h' : Host ν} {ns : List Nat}
    (ht : t.Sound h ns) {index : Index} {v : Element}
    (hset : t.set index v h = .ok () h') :
    ∃ is e, IsWhole index is ∧ InBox ns is ∧ t.kind.Holds e ∧
      h' = h.updateCells t.storage (·.setIfInBounds (rank ns is) e) := by
  unfold Tensor.set at hset
  cases hplace : (t.block h).place index v with
  | error f =>
      rw [hplace] at hset
      cases hset
  | ok pe =>
      obtain ⟨p, e⟩ := pe
      have hconv := Block.place_ok hplace
      have hpos : ∃ q, (t.block h).shape.position index = .ok q := by
        unfold Block.place at hplace
        obtain ⟨q, hq, -⟩ := bind_eq_ok.mp hplace
        exact ⟨q, hq⟩
      obtain ⟨q, hq⟩ := hpos
      obtain ⟨is, hi, hin⟩ := ht.block.shape.of_position hq
      rw [ht.block.place_eq hi hin hconv] at hplace
      rw [ht.block.place_eq hi hin hconv] at hset
      cases hset
      cases hplace
      exact ⟨is, e, hi, hin, Kind.holds_of_convert hconv, rfl⟩

/-- An array after a cell is set, of its own storage or of another. -/
theorem Tensor.Sound.setCell {t : Tensor} {h : Host ν} {ns : List Nat}
    (ht : t.Sound h ns) (storage : Nat) {is : List Nat} (hin : InBox ns is)
    {e : Element} (he : t.kind.Holds e) :
    t.Sound (h.updateCells storage (·.setIfInBounds (rank ns is) e)) ns ∧
      ∀ js, InBox ns js → js ≠ is →
        (t.block (h.updateCells storage (·.setIfInBounds (rank ns is) e))).elem
          ns js = (t.block h).elem ns js := by
  by_cases hown : t.storage = storage
  · subst hown
    refine ⟨ht.updateCells (ht.block.setCell (rank ns is) he),
      fun js hjs hne => ?_⟩
    have hrank : rank ns is ≠ rank ns js :=
      fun heq => hne (rank_injective hin hjs heq).symm
    rw [Tensor.block_updateCells ht.allocated]
    simp [Block.elem, hrank, Array.getElem?_setIfInBounds_ne]
  · have hblock := Tensor.block_updateCells_of_ne (h := h) hown
      (·.setIfInBounds (rank ns is) e)
    refine ⟨ht.of_block_eq (by simp [Host.updateCells]) hblock,
      fun js _ _ => ?_⟩
    rw [hblock]

namespace Buffer

variable {b₁ b₂ : Buffer} {h h' : Host ν} {ss vs : List Nat}

/-- **A write to an invalid slot** of one of the buffers keeps them alike. -/
theorem Coincide.set (hsame : Coincide b₁ b₂ h) (hb₁ : b₁.values.Sound h ss)
    (hb₂ : b₂.values.Sound h ss)
    (hvalid : b₁.valid.fitsIn b₁.values.shape = true) {index : Index}
    {v : Element} (hout : b₂.valid.covers index = false)
    (hset : b₂.set index v h = .ok () h') :
    Coincide b₁ b₂ h' ∧ b₁.values.Sound h' ss ∧ b₂.values.Sound h' ss := by
  obtain ⟨vs, hv, hle⟩ := (fitsIn_iff hb₁.block.shape).mp hvalid
  obtain ⟨is, e, hi, hin, he, rfl⟩ := Tensor.set_ok hb₂ hset
  have hnot : ¬ InBox vs is := by
    rw [← covers_iff_inBox hv hi, hsame.valid, hout]
    simp
  obtain ⟨hb₁', helem₁⟩ := hb₁.setCell b₂.values.storage hin (hsame.kind ▸ he)
  obtain ⟨hb₂', helem₂⟩ := hb₂.setCell b₂.values.storage hin he
  refine ⟨⟨hsame.kind, hsame.shape, hsame.valid, fun j hcovers => ?_⟩,
    hb₁', hb₂'⟩
  obtain ⟨js, hj, hjs⟩ := exists_inBox_of_covers hv hcovers
  have hne : js ≠ is := fun heq => hnot (heq ▸ hjs)
  have hjss := inBox_of_le hjs hle
  have hagree := hsame.agree j hcovers
  rw [hb₁.block.get_eq hj hjss, hb₂.block.get_eq hj hjss] at hagree
  rw [hb₁'.block.get_eq hj hjss, hb₂'.block.get_eq hj hjss, helem₁ js hjss hne,
    helem₂ js hjss hne]
  exact hagree

theorem Coincide.forM_set (hsame : Coincide b₁ b₂ h)
    (hb₁ : b₁.values.Sound h ss) (hb₂ : b₂.values.Sound h ss)
    (hvalid : b₁.valid.fitsIn b₁.values.shape = true)
    {sets : List (Index × Element)}
    (hsets : ∀ x ∈ sets, b₂.valid.covers x.1 = false)
    (hrun : (sets.forM fun x => b₂.set x.1 x.2) h = .ok () h') :
    Coincide b₁ b₂ h' ∧ b₁.values.Sound h' ss := by
  induction sets generalizing h with
  | nil =>
      cases hrun
      exact ⟨hsame, hb₁⟩
  | cons x sets ih =>
      obtain ⟨hx, hsets⟩ := List.forall_mem_cons.mp hsets
      obtain ⟨_, now, hset, hrest⟩ := ok_of_bind hrun
      obtain ⟨hsame, hb₁, hb₂⟩ := hsame.set hb₁ hb₂ hvalid hx hset
      exact ih hsame hb₁ hb₂ hsets hrest

/-- **What invalid slots hold is not seen**, whatever has been
written to them. -/
theorem invalid_slots_unseen (hb₁ : b₁.values.Sound h ss)
    (hb₂ : b₂.values.Sound h ss)
    (hvalid : b₁.valid.fitsIn b₁.values.shape = true)
    (hsame : Coincide b₁ b₂ h) :
    Indistinct b₁ b₂ h ∧
      ∀ (sets : List (Index × Element)) (h' : Host ν),
        (∀ x ∈ sets, b₂.valid.covers x.1 = false) →
        (sets.forM fun x => b₂.set x.1 x.2) h = .ok () h' →
        Indistinct b₁ b₂ h' := by
  refine ⟨indistinct_of_coincide hb₁ hvalid hsame, fun sets h' hsets hrun => ?_⟩
  obtain ⟨hsame', hb₁'⟩ := hsame.forM_set hb₁ hb₂ hvalid hsets hrun
  exact indistinct_of_coincide hb₁' hvalid hsame'

/-- Two tiles of which the second has something stale in an invalid slot, which
is then written again. -/
theorem invalid_slots_unseen_stale :
    let b₁ : Buffer := ⟨⟨.i64, whole [2, 2], 0⟩, whole [2, 1]⟩
    let b₂ : Buffer := ⟨⟨.i64, whole [2, 2], 1⟩, whole [2, 1]⟩
    let stale : Array Element :=
      #[.integer 0, .integer 7, .integer 0, .integer 0]
    let h : Host Unit :=
      ((Host.empty .empty ()).pushCells
        (Array.replicate 4 (.integer 0))).pushCells stale
    let sets : List (Index × Element) := [(whole [0, 1], .integer 9)]
    b₁.values.Sound h [2, 2] ∧ b₂.values.Sound h [2, 2] ∧ Coincide b₁ b₂ h ∧
      b₁.values.block h ≠ b₂.values.block h ∧ Indistinct b₁ b₂ h ∧
      ∃ h', (sets.forM fun x => b₂.set x.1 x.2) h = .ok () h' ∧
        Indistinct b₁ b₂ h' := by
  intro b₁ b₂ stale h sets
  have hextents : (whole [2, 2]).IsWhole [2, 2] := isWhole_whole (by decide)
  have hvalids : (whole [2, 1]).IsWhole [2, 1] := isWhole_whole (by decide)
  have hfits : b₁.valid.fitsIn b₁.values.shape = true :=
    (fitsIn_iff hextents).mpr ⟨[2, 1], hvalids, by simp⟩
  have hb₁ : b₁.values.Sound h [2, 2] :=
    (Tensor.sound_allocated (Block.sound_zeros hextents (by decide) .i64)
      (Host.empty .empty ())).pushCells
      stale
  have hstale : Block.Sound ⟨.i64, whole [2, 2], stale⟩ [2, 2] := by
    refine ⟨hextents, rfl, by decide, fun e he => ?_⟩
    simp only [stale, List.mem_toArray, List.mem_cons, List.not_mem_nil,
      or_false] at he
    rcases he with rfl | rfl | rfl | rfl <;> rfl
  have hb₂ : b₂.values.Sound h [2, 2] :=
    Tensor.sound_allocated hstale
      ((Host.empty .empty ()).pushCells (Array.replicate 4 (.integer 0)))
  have hsame : Coincide b₁ b₂ h := by
    refine ⟨rfl, rfl, rfl, fun index hcovers => ?_⟩
    obtain ⟨is, hi, hin⟩ := exists_inBox_of_covers hvalids hcovers
    have hin' : InBox [2, 2] is := inBox_of_le hin (by simp)
    rw [hb₁.block.get_eq hi hin', hb₂.block.get_eq hi hin']
    have hbox : is = [0, 0] ∨ is = [1, 0] := by
      have hmem := mem_box.mpr hin
      simpa [box, coordinate, List.range_succ] using hmem
    rcases hbox with rfl | rfl <;> rfl
  have hslot : IsWhole (whole [0, 1]) [0, 1] := isWhole_whole (by decide)
  have hout : ∀ x ∈ sets, b₂.valid.covers x.1 = false := by
    intro x hx
    obtain rfl := List.mem_singleton.mp hx
    rw [Bool.eq_false_iff, Ne, covers_iff_inBox hvalids hslot]
    simp
  have hset : b₂.set (whole [0, 1]) (.integer 9) h =
      .ok () (h.putCell 1 1 (.integer 9)) := by
    unfold Buffer.set Tensor.set
    rw [hb₂.block.place_eq hslot (by simp) rfl]
    rfl
  obtain ⟨hnow, hlater⟩ := invalid_slots_unseen hb₁ hb₂ hfits hsame
  refine ⟨hb₁, hb₂, hsame, ?_, hnow, _, bind_of_ok hset _, ?_⟩
  · intro heq
    have hcell := congrArg (fun b => b.cells[1]?) heq
    cases hcell
  · exact hlater sets _ hout (bind_of_ok hset _)

end Buffer

end TileGrid
