import TileGrid.Proofs.RunFold
import TileGrid.Proofs.StoreOutcome

/-!
# The calls that a transfer makes

An array that is loaded from or stored to may do anything to the state when it
is called, and may fail. So what matters of a transfer is the sequence of its
calls: one for each coordinate that it transfers, in row-major order, each made
in the state that the ones before it have left, up to the first that fails
(`Calls`). The calls are read off an array that notes them beside the caller's
part of the state (`Backing.noting`).
-/

namespace TileGrid

open RowMajor Shape

variable {ν : Type}

/-- A call of an array. -/
inductive Access where
  | get (index : Index)
  | set (index : Index) (value : Element)

def Access.index : Access → Index
  | get index => index
  | set index _ => index

/-! ## Noting calls -/

namespace Backing

/-- The array with each of its calls noted. -/
def noting (a : Backing (Host ν)) : Backing (Host (ν × List Access)) where
  kind := a.kind
  shape := a.shape
  get index := Host.noted (.get index) (a.get index)
  set index value := Host.noted (.set index value) (a.set index value)

/-- A call by itself. -/
def perform {σ : Type} (a : Backing σ) : Access → EStateM Fault σ Unit
  | .get index => do
    let _ ← a.get index
    return ()
  | .set index value => a.set index value

end Backing

theorem Tensor.Sound.withNotes {χ : Type} {t : Tensor} {h : Host ν}
    {ns : List Nat} (ht : t.Sound h ns) (calls : List χ) :
    t.Sound (h.withNotes calls) ns := ⟨ht.allocated, ht.block⟩

/-! ## Sequences of calls -/

/-- One call for each coordinate, made in the state that the one before it
has left, up to the first that fails. What is called at a coordinate may
depend on that state. -/
inductive Calls (a : Backing (Host ν))
    (call : List Nat → Host ν → Access → Prop) :
    List (List Nat) → Host ν → List Access → Option Fault → Host ν → Prop where
  | done (h : Host ν) : Calls a call [] h [] none h
  | answered {c : List Nat} {cs : List (List Nat)} {h h₁ h' : Host ν}
      {x : Access} {log : List Access} {ending : Option Fault}
      (hcall : call c h x) (hx : a.perform x h = .ok () h₁)
      (hrest : Calls a call cs h₁ log ending h') :
      Calls a call (c :: cs) h (x :: log) ending h'
  | failed {c : List Nat} {cs : List (List Nat)} {h h' : Host ν} {x : Access}
      {f : Fault} (hcall : call c h x) (hx : a.perform x h = .error f h') :
      Calls a call (c :: cs) h [x] (some f) h'

namespace Calls

variable {a : Backing (Host ν)} {call : List Nat → Host ν → Access → Prop}
  {cs : List (List Nat)}
  {h h' : Host ν} {log : List Access} {ending : Option Fault}

theorem exists_of_mem (hc : Calls a call cs h log ending h') {x : Access}
    (hx : x ∈ log) :
    ∃ c ∈ cs, ∃ now, call c now x := by
  induction hc with
  | done => cases hx
  | answered hcall _ _ ih =>
      rcases List.mem_cons.mp hx with rfl | hx
      · exact ⟨_, List.mem_cons_self, _, hcall⟩
      · obtain ⟨c, hc, hnow⟩ := ih hx
        exact ⟨c, List.mem_cons_of_mem _ hc, hnow⟩
  | failed hcall _ =>
      obtain rfl := List.mem_singleton.mp hx
      exact ⟨_, List.mem_cons_self, _, hcall⟩

/-- The calls are those of a leading part of the coordinates. -/
theorem map_index (hc : Calls a call cs h log ending h')
    {place : List Nat → Index}
    (hplace : ∀ c now x, call c now x → x.index = place c) :
    log.map Access.index = (cs.take log.length).map place := by
  induction hc with
  | done => rfl
  | answered hcall _ _ ih => simp [ih, hplace _ _ _ hcall]
  | failed hcall _ => simp [hplace _ _ _ hcall]

theorem length_eq (hc : Calls a call cs h log ending h')
    (hending : ending = none) :
    log.length = cs.length := by
  induction hc with
  | done => rfl
  | answered _ _ _ ih => simp [ih hending]
  | failed => cases hending

/-- The states that the calls go through satisfy what each call preserves. -/
theorem imp_of_invariant {call' : List Nat → Host ν → Access → Prop}
    {P : Host ν → Prop} (hc : Calls a call cs h log ending h') (hP : P h)
    (hstep : ∀ c now x later, call c now x → a.perform x now = .ok () later →
      P now → P later)
    (himp : ∀ c now x, P now → call c now x → call' c now x) :
    Calls a call' cs h log ending h' := by
  induction hc with
  | done h => exact .done h
  | answered hcall hx _ ih =>
      exact .answered (himp _ _ _ hP hcall) hx (ih (hstep _ _ _ _ hcall hx hP))
  | failed hcall hx => exact .failed (himp _ _ _ hP hcall) hx

end Calls

/-! ## Walks that call -/

/-- The end of an action that came to its result, or to a fault. -/
def closing {α : Type} (ending : Option Fault) (r : α) (h : Host ν) :
    EStateM.Result Fault (Host ν) α :=
  match ending with
  | none => .ok r h
  | some f => .error f h

/-- The action makes one call and ends as that does, and so it is where the call
is noted. Its result satisfies `P`. -/
def Calling {α : Type} (a : Backing (Host ν)) (x : Access)
    (P : α → Host ν → Prop) (act : Act ν α) (actNoted : Act (ν × List Access) α)
    (h : Host ν) : Prop :=
  ∃ ending r h₁, a.perform x h = closing ending () h₁ ∧
    (ending = none → P r h₁) ∧ act h = closing ending r h₁ ∧
    ∀ calls, actNoted (h.withNotes calls) =
      closing ending r (h₁.withNotes (calls ++ [x]))

/-- **A walk that makes one call at each of its visits** makes the calls of its
coordinates in their order, and ends as they do. -/
theorem foldlM_calls {α : Type} {a : Backing (Host ν)}
    {call : List Nat → Host ν → Access → Prop} {P : α → Host ν → Prop}
    {visit : α → List Nat → Act ν α}
    {visitNoted : α → List Nat → Act (ν × List Access) α} {cs : List (List Nat)}
    (hvisit : ∀ c ∈ cs, ∀ r h, P r h → ∃ x, call c h x ∧
      Calling a x P (visit r c) (visitNoted r c) h) {r : α} {h : Host ν}
        (hP : P r h) :
    ∃ log ending r' h₁, Calls a call cs h log ending h₁ ∧
      (ending = none → P r' h₁) ∧
      cs.foldlM visit r h = closing ending r' h₁ ∧
      ∀ calls, cs.foldlM visitNoted r (h.withNotes calls) =
        closing ending r' (h₁.withNotes (calls ++ log)) := by
  induction cs generalizing r h with
  | nil =>
      refine ⟨[], none, r, h, .done h, fun _ => hP, rfl, fun calls => ?_⟩
      rw [List.append_nil]
      rfl
  | cons c cs ih =>
      obtain ⟨hfirst, hvisit⟩ := List.forall_mem_cons.mp hvisit
      obtain ⟨x, hcall, ending, s, h₁, hx, hPs, hact, hnoted⟩ := hfirst r h hP
      cases ending with
      | some f =>
          -- the walk stops here, so nothing after this call is noted
          refine ⟨[x], some f, s, h₁, .failed hcall hx, by simp, ?_,
            fun calls => ?_⟩
          · rw [List.foldlM_cons]
            exact bind_of_error hact _
          · rw [List.foldlM_cons]
            exact bind_of_error (hnoted calls) _
      | none =>
          obtain ⟨log, ending, r', h', hcalls, hPr, hfold, hfoldNoted⟩ :=
            ih hvisit (hPs rfl)
          refine ⟨x :: log, ending, r', h', .answered hcall hx hcalls, hPr, ?_,
            fun calls => ?_⟩
          · rw [List.foldlM_cons, bind_of_ok hact, hfold]
          · rw [List.foldlM_cons, bind_of_ok (hnoted calls), hfoldNoted,
              List.append_assoc]
            rfl

section

variable {a : Backing (Host ν)} {origin : Index} {os ss vs : List Nat}
  {c : List Nat} {h : Host ν}

/-- What a load calls at a coordinate. -/
def Asks (os : List Nat) (c : List Nat) (_ : Host ν) (x : Access) : Prop :=
  x = .get (whole (shift os c))

/-- What a store calls at a coordinate: the write of what the buffer
has there. -/
def Puts (os : List Nat) (b : Buffer) (c : List Nat) (now : Host ν)
    (x : Access) : Prop :=
  ∃ e, b.get (whole c) now = .ok (some e) now ∧ x = .set (whole (shift os c)) e

/-- One visit of a load, where the array gives elements that its kind takes. -/
theorem calling_fetch
    (hget : ∀ index h e h', a.get index h = .ok e h' →
      ∃ r, a.kind.convert e = .ok r)
    (hplace : offset origin (whole c) = whole (shift os c)) (hc : InBox ss c)
    {out : Block} (hout : out.Sound ss ∧ out.kind = a.kind) :
    Calling a (.get (whole (shift os c)))
      (fun out _ => out.Sound ss ∧ out.kind = a.kind)
      (Transfer.fetch a origin out (whole c))
      (Transfer.fetch a.noting origin out (whole c)) h := by
  obtain ⟨hout, hkind⟩ := hout
  let x : Access := .get (whole (shift os c))
  have hnoted :
      ∀ calls, a.noting.get (whole (shift os c)) (h.withNotes calls) = _ :=
    Host.noted_withNotes x (a.get (whole (shift os c))) h
  unfold Transfer.fetch
  rw [hplace]
  cases hx : a.get (whole (shift os c)) h with
  | error f h₁ =>
      refine ⟨some f, out, h₁, bind_of_error hx _, by simp,
        bind_of_error hx _, ?_⟩
      intro calls
      have hgets := hnoted calls
      rw [hx] at hgets
      exact bind_of_error hgets _
  | ok e h₁ =>
      obtain ⟨r, hr⟩ := hget _ _ _ _ hx
      rw [← hkind] at hr
      have hset :=
        hout.set_eq (isWhole_whole_of_inBox hc (Nat.le_of_lt hout.bound)) hc hr
      have hnext := hout.setCell (rank ss c) (Kind.holds_of_convert hr)
      refine ⟨none, _, h₁, bind_of_ok hx _, fun _ => ⟨hnext, hkind⟩, ?_, ?_⟩
      · rw [bind_of_ok hx, hset]
        rfl
      · intro calls
        have hgets := hnoted calls
        rw [hx] at hgets
        rw [bind_of_ok hgets, hset]
        rfl

/-- One visit of a store, where no write unmakes the array of the buffer. -/
theorem calling_send {b : Buffer}
    (hkeeps : ∀ index e h h', a.set index e h = .ok () h' →
      b.values.Sound h ss → b.values.Sound h' ss)
    (hplace : offset origin (whole c) = whole (shift os c)) (hc : InBox ss c)
    (hb : b.values.Sound h ss) :
    Calling a (.set (whole (shift os c)) ((b.values.block h).elem ss c))
      (fun _ now => b.values.Sound now ss)
      (Transfer.send a origin b.values.get (whole c))
      (Transfer.send a.noting origin b.values.get (whole c)) h := by
  let e := (b.values.block h).elem ss c
  let x : Access := .set (whole (shift os c)) e
  have hi := isWhole_whole_of_inBox hc (Nat.le_of_lt hb.block.bound)
  have hread : b.values.get (whole c) h = .ok e h := Tensor.get_eq hb hi hc
  have hreadNoted : ∀ calls : List Access,
      b.values.get (whole c) (h.withNotes calls) = .ok e (h.withNotes calls) :=
    fun calls => Tensor.get_eq (hb.withNotes calls) hi hc
  have hnoted :
      ∀ calls, a.noting.set (whole (shift os c)) e (h.withNotes calls) = _ :=
    Host.noted_withNotes x (a.set (whole (shift os c)) e) h
  unfold Transfer.send
  rw [hplace]
  cases hx : a.set (whole (shift os c)) e h with
  | error f h₁ =>
      refine ⟨some f, (), h₁, hx, by simp, (bind_of_ok hread _).trans hx,
        fun calls => ?_⟩
      have hsets := hnoted calls
      rw [hx] at hsets
      exact (bind_of_ok (hreadNoted calls) _).trans hsets
  | ok u h₁ =>
      refine ⟨none, (), h₁, hx, fun _ => hkeeps _ _ _ _ hx hb,
        (bind_of_ok hread _).trans hx, fun calls => ?_⟩
      have hsets := hnoted calls
      rw [hx] at hsets
      exact (bind_of_ok (hreadNoted calls) _).trans hsets

end

/-! ## The calls of a transfer -/

/-- The calls of a transfer at the origin `os` in an array of extents `ns`, of
the coordinates in `P`. -/
structure Accessed (a : Backing (Host ν)) (ns os : List Nat)
    (P : List Nat → Prop) (call : List Nat → Host ν → Access → Prop)
    (cs : List (List Nat)) (h : Host ν) (log : List Access)
    (ending : Option Fault) (h' : Host ν) : Prop where
  /-- The coordinates come in row-major order, each of them once. -/
  increasing : cs.Pairwise (· < ·)
  mem_iff : ∀ c, c ∈ cs ↔ P c
  calls : Calls a call cs h log ending h'
  /-- What is called are the places of a leading part of the coordinates, and of
  all if none fails. -/
  indices : log.map Access.index = (cs.take log.length).map fun c =>
    whole (shift os c)
  complete : ending = none → log.length = cs.length
  /-- Every call is inside the array. -/
  inside : ∀ x ∈ log, ∃ is, IsWhole x.index is ∧ InBox ns is

/-- How a load ends after its calls: with their fault, or with a buffer
on fresh storage. -/
structure LoadEnds (a : Backing (Host ν)) (origin : Index) (shape : Shape)
    (h : Host ν) (log : List Access) (ending : Option Fault)
    (h₁ : Host ν) : Prop where
  failed : ∀ f, ending = some f →
    Buffer.load ⟨a, origin⟩ shape h = .error f h₁ ∧
    Buffer.load ⟨a.noting, origin⟩ shape (h.withNotes []) =
      .error f (h₁.withNotes log)
  finished : ending = none → ∃ b cells,
    Buffer.load ⟨a, origin⟩ shape h = .ok b (h₁.pushCells cells) ∧
    Buffer.load ⟨a.noting, origin⟩ shape (h.withNotes []) =
      .ok b ((h₁.pushCells cells).withNotes log)

/-- What is said of the calls of a load. -/
structure LoadCalls (a : Backing (Host ν)) (ns : List Nat) (origin : Index)
    (shape : Shape) (h : Host ν) : Prop where
  rejected : ∀ f, Transfer.check a.shape origin shape = .error f →
    Buffer.load ⟨a.noting, origin⟩ shape (h.withNotes []) =
      .error f (h.withNotes [])
  accepted : Transfer.check a.shape origin shape = .ok () →
    ∀ fresh, Block.zeros a.kind shape = .ok fresh →
    ∃ os ss cs log ending h₁, IsWhole origin os ∧ shape.IsWhole ss ∧
      Accessed a ns os (fun c => InBox ss c ∧ InBox ns (shift os c))
        (Asks os) cs h log ending h₁ ∧
      LoadEnds a origin shape h log ending h₁

/-- What is said of the calls of a store. -/
structure StoreCalls (a : Backing (Host ν)) (ns : List Nat) (origin : Index)
    (b : Buffer) (h : Host ν) : Prop where
  rejected : ∀ f, Transfer.check a.shape origin b.values.shape = .error f →
    Buffer.store ⟨a.noting, origin⟩ b (h.withNotes []) =
      .error f (h.withNotes [])
  accepted : Transfer.check a.shape origin b.values.shape = .ok () →
    ∃ os cs log ending h₁, IsWhole origin os ∧
      Accessed a ns os (Buffer.Lands ns os b) (Puts os b) cs h log ending h₁ ∧
      Buffer.store ⟨a, origin⟩ b h = closing ending () h₁ ∧
      Buffer.store ⟨a.noting, origin⟩ b (h.withNotes []) =
        closing ending () (h₁.withNotes log) ∧
      -- where the array leaves the buffer alone, what is written is what the
      -- buffer had at first
      ((∀ index e now later, a.set index e now = .ok () later →
        b.masked later = b.masked now) →
        Calls a (fun c _ => Puts os b c h) cs h log ending h₁)

/-- A transfer that is not refused is one of a box of whole extents at
a whole origin. -/
theorem Transfer.whole_of_check {extent origin shape : Shape}
    (hcheck : check extent origin shape = .ok ()) :
    ∃ os ss, IsWhole origin os ∧ shape.IsWhole ss ∧ os.length = extent.length ∧
      ss.length = extent.length := by
  have hshape : ¬ Misshapen extent origin shape := by
    intro h
    obtain ⟨f, hf, -⟩ := check_of_misshapen h
    cases hf.symm.trans hcheck
  refine whole_of_not hshape fun horigin => ?_
  cases (check_of_misplaced hshape horigin).symm.trans hcheck

section

variable {a : Backing (Host ν)} {ns os vs : List Nat} {origin : Index}
  {h : Host ν}

/-- The places of a transfer are exact, however many cells the array
would have. -/
theorem offset_of_mem_clip (hlim : ∀ n ∈ ns, n < Number.safeLimit)
    (ho : IsWhole origin os) (hos : os.length = ns.length)
    (hvs : vs.length = ns.length) :
    ∀ c ∈ box (clip ns os vs), offset origin (whole c) = whole (shift os c) ∧
      IsWhole (whole (shift os c)) (shift os c) := by
  intro c hc
  obtain ⟨hcv, hin⟩ := (inBox_clip_iff hos hvs).mp (mem_box.mp hc)
  have hle : ∀ n ∈ shift os c, n ≤ Number.safeLimit :=
    forall_le_of_le (hin.imp fun _ _ => Nat.le_of_lt) fun n hn =>
      Nat.le_of_lt (hlim n hn)
  exact ⟨offset_whole ho (by rw [length_of_inBox hcv, hvs, hos]) hle,
    isWhole_whole hle⟩

/-- What a load makes of its walk. -/
theorem Buffer.load_of_walk {shape : Shape} {ss : List Nat} {h₁ : Host ν}
    {out : Block} (hn : a.shape.IsWhole ns) (ho : IsWhole origin os)
    (hos : os.length = ns.length) (hs : shape.IsWhole ss)
    (hss : ss.length = ns.length) (hlt : ss.prod < Number.safeLimit)
    (hwalk : (box (clip ns os ss)).foldlM
      (fun out c => Transfer.fetch a origin out (whole c))
      ⟨a.kind, shape, Array.replicate ss.prod a.kind.zero⟩ h = .ok out h₁)
      (hout : out.Sound ss) :
    load ⟨a, origin⟩ shape h =
      .ok ⟨⟨out.kind, out.shape, h₁.storages.size⟩,
        Transfer.clip a.shape origin shape⟩
        (h₁.pushCells out.cells) := by
  obtain ⟨vs, hv, hle⟩ := exists_isWhole_clip hn ho hs hos hss
  have hload : Transfer.load ⟨a, origin⟩ shape h =
      .ok ⟨out, Transfer.clip a.shape origin shape⟩ h₁ := by
    rw [Transfer.load_eq_foldlM hn ho hos hs hss hlt, bind_of_ok hwalk,
      Masked.make_eq hout.shape hv hle]
    rfl
  exact bind_of_ok hload _

theorem Buffer.load_of_walk_error {shape : Shape} {ss : List Nat} {h₁ : Host ν}
    {f : Fault} (hn : a.shape.IsWhole ns) (ho : IsWhole origin os)
    (hos : os.length = ns.length) (hs : shape.IsWhole ss)
    (hss : ss.length = ns.length) (hlt : ss.prod < Number.safeLimit)
    (hwalk : (box (clip ns os ss)).foldlM
      (fun out c => Transfer.fetch a origin out (whole c))
      ⟨a.kind, shape, Array.replicate ss.prod a.kind.zero⟩ h = .error f h₁) :
    load ⟨a, origin⟩ shape h = .error f h₁ := by
  have hload : Transfer.load ⟨a, origin⟩ shape h = .error f h₁ := by
    rw [Transfer.load_eq_foldlM hn ho hos hs hss hlt]
    exact bind_of_error hwalk _
  exact bind_of_error hload _

/-- What a buffer has at a coordinate depends on the buffer only. -/
theorem Buffer.get_congr {b : Buffer} {now : Host ν}
    (hsame : b.masked now = b.masked h) {index : Index} {r : Option Element}
    (hget : b.get index now = .ok r now) :
    b.get index h = .ok r h := by
  unfold Buffer.get at hget ⊢
  rw [hsame] at hget
  cases hm : (b.masked h).get index with
  | ok s =>
      rw [hm] at hget
      cases hget
      rfl
  | error f =>
      rw [hm] at hget
      cases hget

theorem Calls.accessed {call : List Nat → Host ν → Access → Prop}
    {P : List Nat → Prop} {log : List Access} {ending : Option Fault}
    {h' : Host ν} (hc : Calls a call (box (clip ns os vs)) h log ending h')
    (hlim : ∀ n ∈ ns, n < Number.safeLimit) (ho : IsWhole origin os)
    (hos : os.length = ns.length) (hvs : vs.length = ns.length)
    (hP : ∀ c, InBox (clip ns os vs) c ↔ P c)
    (hcall : ∀ c now x, call c now x → x.index = whole (shift os c)) :
    Accessed a ns os P call (box (clip ns os vs)) h log ending h' where
  increasing := pairwise_box _
  mem_iff c := mem_box.trans (hP c)
  calls := hc
  indices := hc.map_index hcall
  complete := hc.length_eq
  inside x hx := by
    obtain ⟨c, hmem, now, hx⟩ := hc.exists_of_mem hx
    refine ⟨shift os c, ?_, ((inBox_clip_iff hos hvs).mp (mem_box.mp hmem)).2⟩
    rw [hcall c now x hx]
    exact (offset_of_mem_clip hlim ho hos hvs c hmem).2

/-- **The calls of a load.** -/
theorem loadCalls (hn : a.shape.IsWhole ns)
    (hlim : ∀ n ∈ ns, n < Number.safeLimit)
    (hget : ∀ index now e later, a.get index now = .ok e later →
      ∃ r, a.kind.convert e = .ok r)
    (origin : Index) (shape : Shape) (h : Host ν) :
    LoadCalls a ns origin shape h := by
  refine ⟨fun f hcheck => Buffer.load_of_check (a := a.noting) hcheck, ?_⟩
  intro hcheck fresh hfresh
  obtain ⟨os, ss, ho, hs, hos, hss⟩ := Transfer.whole_of_check hcheck
  rw [hn.length_eq] at hos hss
  have hlt : ss.prod < Number.safeLimit := by
    by_contra hge
    cases (Block.zeros_of_large hs (Nat.le_of_not_lt hge) a.kind).symm.trans
      hfresh
  obtain ⟨vs, hv, hle⟩ := exists_isWhole_clip hn ho hs hos hss
  have hplace := offset_of_mem_clip hlim ho hos hss
  have hvisit : ∀ c ∈ box (clip ns os ss), ∀ out now, out.Sound ss ∧
      out.kind = a.kind →
      ∃ x, Asks os c now x ∧
        Calling a x (fun out _ => out.Sound ss ∧ out.kind = a.kind)
          (Transfer.fetch a origin out (whole c))
          (Transfer.fetch a.noting origin out (whole c)) now :=
    fun c hc out now hout => ⟨_, rfl, calling_fetch hget (hplace c hc).1
      ((inBox_clip_iff hos hss).mp (mem_box.mp hc)).1 hout⟩
  obtain ⟨log, ending, out, h₁, hcalls, hout, hwalk, hwalkNoted⟩ :=
    foldlM_calls (h := h) hvisit ⟨Block.sound_zeros hs hlt a.kind, rfl⟩
  have hnoted := hwalkNoted []
  rw [List.nil_append] at hnoted
  refine ⟨os, ss, _, log, ending, h₁, ho, hs,
    hcalls.accessed hlim ho hos hss (fun c => inBox_clip_iff hos hss) ?_,
    ?_, ?_⟩
  · rintro c now x rfl
    rfl
  · rintro f rfl
    exact ⟨Buffer.load_of_walk_error hn ho hos hs hss hlt hwalk,
      Buffer.load_of_walk_error (a := a.noting) hn ho hos hs hss hlt hnoted⟩
  · rintro rfl
    exact ⟨_, _, Buffer.load_of_walk hn ho hos hs hss hlt hwalk (hout rfl).1,
      Buffer.load_of_walk (a := a.noting) hn ho hos hs hss hlt hnoted
        (hout rfl).1⟩

/-- **The calls of a store.** -/
theorem storeCalls {b : Buffer} {ss : List Nat} (hn : a.shape.IsWhole ns)
    (hlim : ∀ n ∈ ns, n < Number.safeLimit)
    (hkeeps : ∀ index e now later, a.set index e now = .ok () later →
      b.values.Sound now ss → b.values.Sound later ss)
    (hb : b.values.Sound h ss) (hvalid : b.valid.fitsIn b.values.shape = true)
    (origin : Index) :
    StoreCalls a ns origin b h := by
  refine ⟨fun f hcheck => Buffer.store_of_check (a := a.noting) hcheck,
    fun hcheck => ?_⟩
  have hs : b.values.shape.IsWhole ss := hb.block.shape
  obtain ⟨os, ss', ho, hs', hos, hss⟩ := Transfer.whole_of_check hcheck
  obtain rfl := hs.unique hs'
  rw [hn.length_eq] at hos hss
  obtain ⟨vs, hv, hle⟩ := (fitsIn_iff hs).mp hvalid
  have hvs : vs.length = ns.length := by rw [hle.length_eq, hss]
  have hbound := Nat.le_of_lt hb.block.bound
  have hplace := offset_of_mem_clip hlim ho hos hvs
  have hvisit : ∀ c ∈ box (clip ns os vs), ∀ (_ : Unit) now,
      b.values.Sound now ss →
      ∃ x, Puts os b c now x ∧ Calling a x (fun _ now => b.values.Sound now ss)
        (Transfer.send a origin b.values.get (whole c))
        (Transfer.send a.noting origin b.values.get (whole c)) now := by
    intro c hc _ now hnow
    have hcv := ((inBox_clip_iff hos hvs).mp (mem_box.mp hc)).1
    exact ⟨_, ⟨_, Buffer.get_of_inBox hnow hv hle hcv, rfl⟩,
      calling_send hkeeps (hplace c hc).1 (inBox_of_le hcv hle) hnow⟩
  obtain ⟨log, ending, _, h₁, hcalls, -, hwalk, hwalkNoted⟩ :=
    foldlM_calls hvisit hb
  have hnoted := hwalkNoted []
  rw [List.nil_append] at hnoted
  refine ⟨os, _, log, ending, h₁, ho,
    hcalls.accessed hlim ho hos hvs
      (fun c => (Buffer.lands_iff hb hv hle hos hvs).symm) ?_, ?_, ?_, ?_⟩
  · rintro c now x ⟨e, -, rfl⟩
    rfl
  · rw [Buffer.store_eq_foldlM hn ho hos hs hss hbound hv hle]
    exact hwalk
  · rw [Buffer.store_eq_foldlM (a := a.noting) hn ho hos hs hss hbound hv hle]
    exact hnoted
  · intro hspares
    refine hcalls.imp_of_invariant (P := fun now => b.masked now = b.masked h)
      rfl ?_ ?_
    · rintro c now x later ⟨e, -, rfl⟩ hx hsame
      rw [hspares _ _ _ _ hx, hsame]
    · rintro c now x hsame ⟨e, he, rfl⟩
      exact ⟨e, Buffer.get_congr hsame he, rfl⟩

end

/-- **The calls that transfers make of an array**, whatever the array does when
it is called. A call is made of every coordinate that is transferred, in
row-major order, until one fails, and none where the transfer is refused. -/
theorem transfer_calls {a : Backing (Host ν)} {ns : List Nat}
    (hn : a.shape.IsWhole ns) (hlim : ∀ n ∈ ns, n < Number.safeLimit)
    (hget : ∀ index now e later, a.get index now = .ok e later →
      ∃ r, a.kind.convert e = .ok r)
    (origin : Index) (h : Host ν) :
    (∀ shape, LoadCalls a ns origin shape h) ∧
      ∀ (b : Buffer) (ss : List Nat), b.values.Sound h ss →
        b.valid.fitsIn b.values.shape = true →
        (∀ index e now later, a.set index e now = .ok () later →
          b.values.Sound now ss → b.values.Sound later ss) →
        StoreCalls a ns origin b h :=
  ⟨fun shape => loadCalls hn hlim hget origin shape h,
    fun _ _ hb hvalid hkeeps => storeCalls hn hlim hkeeps hb hvalid origin⟩

/-- An array of no cells, which counts its calls and fails at the
coordinate 1. -/
def flaky : Backing (Host Nat) where
  kind := .i64
  shape := whole [3]
  get index := fun h =>
    if index = whole [1] then .error .tooLarge (h.withCaller (h.caller + 1))
    else .ok (.integer 7) (h.withCaller (h.caller + 1))
  set index _ := fun h =>
    if index = whole [1] then .error .tooLarge (h.withCaller (h.caller + 1))
    else .ok () (h.withCaller (h.caller + 1))

theorem transfer_calls_flaky :
    let b : Buffer := ⟨⟨.i64, whole [2], 0⟩, whole [2]⟩
    let h : Host Nat :=
      (Host.empty .empty 0).pushCells (Array.replicate 2 (.integer 0))
    flaky.shape.IsWhole [3] ∧
      Transfer.check flaky.shape (whole [0]) (whole [2]) = .ok () ∧
      b.values.Sound h [2] ∧ LoadCalls flaky [3] (whole [0]) (whole [2]) h ∧
      StoreCalls flaky [3] (whole [0]) b h := by
  intro b h
  have hextent : ∀ n ≤ 3, (whole [n]).IsWhole [n] := fun n hn =>
    isWhole_whole (by simpa using hn.trans (by decide))
  have hn : flaky.shape.IsWhole [3] := hextent 3 (by decide)
  have hget : ∀ index now e later, flaky.get index now = .ok e later →
      ∃ r, flaky.kind.convert e = .ok r := by
    intro index now e later hr
    simp only [flaky] at hr
    split at hr
    · cases hr
    · cases hr
      exact ⟨_, rfl⟩
  have hkeeps : ∀ index e now later, flaky.set index e now = .ok () later →
      b.values.Sound now [2] → b.values.Sound later [2] := by
    intro index e now later hr hnow
    simp only [flaky] at hr
    split at hr
    · cases hr
    · cases hr
      exact ⟨hnow.allocated, hnow.block⟩
  have hzeros := Block.sound_zeros (hextent 2 (by decide)) (by decide) .i64
  have hb : b.values.Sound h [2] :=
    Tensor.sound_allocated hzeros (Host.empty .empty 0)
  have hvalid : b.valid.fitsIn b.values.shape = true :=
    (fitsIn_iff (hextent 2 (by decide))).mpr
      ⟨[2], hextent 2 (by decide), by simp⟩
  have hcheck := Transfer.check_eq hn (hextent 0 (by decide))
    (hextent 2 (by decide)) rfl rfl
  obtain ⟨hload, hstore⟩ := transfer_calls hn (by decide) hget (whole [0]) h
  exact ⟨hn, hcheck, hb, hload (whole [2]), hstore b [2] hb hvalid hkeeps⟩

end TileGrid
