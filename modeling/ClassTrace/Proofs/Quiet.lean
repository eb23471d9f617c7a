import ClassTrace.Machine.Step
import ClassTrace.Proofs.Decode
import ClassTrace.Proofs.Heap

/-!
What an action of the machine may change without an event. Only the current frame moves, and its
locals stay; frames below, the document and all objects and arrays are left alone; entries may be
added to the heap. No reference comes from nowhere: one that the machine holds afterwards it held
before, or it designates an entry that was added.
-/
namespace ClassTrace

def Library.Mentions (l : Library) (id : Int) : Prop :=
  (∃ key, (key, .constant (.ref id)) ∈ l.routines) ∨
  (∃ owner element elements,
    (owner, .build (.array element elements)) ∈ l.makers ∧ .ref id ∈ elements) ∨
  (∃ key, (key, .constant (.ref id)) ∈ l.statics)

namespace Machine

inductive Fresh (program : Class) (library : Library) : Entry → Prop
  | object : Fresh program library program.newObject
  | array (element : FieldType) (n : Nat) :
      Fresh program library (.array element (Array.replicate n .null))
  | integer (v : Int32) : Fresh program library (.integer v)
  | map (m : KeyedMap Value) : Fresh program library (.map m)
  | stream (s : PrintStream) : Fresh program library (.stream s)
  | built {owner : Bytes} {b : Blueprint} :
      (owner, .build b) ∈ library.makers → Fresh program library (b.build program)

inductive Mentions (m : Machine) (id : Int) : Prop
  | host (h : .ref id ∈ m.host)
  | frame {f : Frame} (hf : f ∈ m.frames) (h : f.Mentions id)
  | heap (h : m.heap.Mentions id)
  | static {key : Bytes} (h : (key, .ref id) ∈ m.statics)
  | library (h : m.library.Mentions id)

/-- What a reference can be that is in use with heap `h` while an instruction runs that began in
`m`: one that the machine held, or one to an entry that was added since. -/
def Sources (m : Machine) (h : Heap) (id : Int) : Prop :=
  m.Mentions id ∨ m.heap.size ≤ id ∧ id < h.size

theorem Sources.mono {m : Machine} {h h' : Heap} (hsize : h.size ≤ h'.size) {id : Int}
    (hs : m.Sources h id) : m.Sources h' id := by
  rcases hs with hold | ⟨hge, hlt⟩
  · exact Or.inl hold
  · exact Or.inr ⟨hge, by omega⟩

inductive TopContinues : List Frame → List Frame → Prop
  | none : TopContinues [] []
  | some {f f' : Frame} (rest : List Frame) (h : f.Continues f') :
      TopContinues (f :: rest) (f' :: rest)

theorem TopContinues.refl (fs : List Frame) : TopContinues fs fs := by
  cases fs with
  | nil => exact .none
  | cons f rest => exact .some rest (.refl f)

theorem TopContinues.trans {fs gs hs : List Frame} (h : TopContinues fs gs)
    (h' : TopContinues gs hs) : TopContinues fs hs := by
  cases h with
  | none => exact h'
  | some rest hf =>
    cases h' with
    | some _ hg => exact .some rest (hf.trans hg)

theorem TopContinues.length {fs gs : List Frame} (h : TopContinues fs gs) :
    gs.length = fs.length := by
  cases h <;> rfl

/-- `m'` comes from `m` by actions without an event. -/
structure Quiet (m m' : Machine) : Prop where
  program : m'.program = m.program
  library : m'.library = m.library
  settings : m'.settings = m.settings
  document : m'.document = m.document
  host : m'.host <:+ m.host
  hostKept : m.frames ≠ [] → m'.host = m.host
  frames : TopContinues m.frames m'.frames
  heap : m.heap.Extends (Fresh m.program m.library) m'.heap
  mentions : ∀ id, m'.Mentions id → m.Sources m'.heap id

theorem Quiet.refl (m : Machine) : m.Quiet m :=
  ⟨rfl, rfl, rfl, rfl, List.suffix_refl _, fun _ => rfl, .refl _, .refl _ _, fun _ h => Or.inl h⟩

/-- A value that the machine holds has a source. -/
theorem Quiet.within {m₀ m : Machine} (h : m₀.Quiet m) {v : Value}
    (hv : v.Within m.Mentions) : v.Within (m₀.Sources m.heap) :=
  hv.mono h.mentions

section Updates

variable {m₀ m : Machine}

theorem Quiet.console (h : m₀.Quiet m) (console : Console) : m₀.Quiet { m with console } where
  program := h.program
  library := h.library
  settings := h.settings
  document := h.document
  host := h.host
  hostKept := h.hostKept
  frames := h.frames
  heap := h.heap
  mentions := by
    intro id hid
    refine h.mentions id ?_
    cases hid with
    | host h => exact .host h
    | frame hf h => exact .frame hf h
    | heap h => exact .heap h
    | static h => exact .static h
    | library h => exact .library h

theorem Quiet.top {f f' : Frame} {rest : List Frame} (h : m₀.Quiet m)
    (hm : m.frames = f :: rest) (hf : f.Continues f')
    (hsrc : ∀ id, f'.Mentions id → m₀.Sources m.heap id) :
    m₀.Quiet { m with frames := f' :: rest } where
  program := h.program
  library := h.library
  settings := h.settings
  document := h.document
  host := h.host
  hostKept := h.hostKept
  frames := h.frames.trans (hm ▸ .some rest hf)
  heap := h.heap
  mentions := by
    intro id hid
    cases hid with
    | host hh => exact h.mentions id (.host hh)
    | frame hg hh =>
      rcases List.mem_cons.mp hg with rfl | hrest
      · exact hsrc id hh
      · exact h.mentions id (.frame (hm ▸ List.mem_cons_of_mem f hrest) hh)
    | heap hh => exact h.mentions id (.heap hh)
    | static hh => exact h.mentions id (.static hh)
    | library hh => exact h.mentions id (.library hh)

theorem Quiet.rearrange {f f' : Frame} {rest : List Frame} (h : m₀.Quiet m)
    (hm : m.frames = f :: rest) (hf : f.Rearranges f') :
    m₀.Quiet { m with frames := f' :: rest } :=
  h.top hm hf.toContinues fun id hid =>
    h.mentions id (.frame (hm ▸ List.mem_cons_self ..) (hf.mentions id hid))

theorem Quiet.popHost {host : Stack} (h : m₀.Quiet m) (hm : m.frames = [])
    (hs : host <:+ m.host) : m₀.Quiet { m with host } where
  program := h.program
  library := h.library
  settings := h.settings
  document := h.document
  host := hs.trans h.host
  hostKept := by
    intro hne
    have hlen := h.frames.length
    rw [hm] at hlen
    exact absurd (List.length_eq_zero_iff.mp hlen.symm) hne
  frames := h.frames
  heap := h.heap
  mentions := by
    intro id hid
    cases hid with
    | host hh => exact h.mentions id (.host (hs.subset hh))
    | frame hf hh => exact h.mentions id (.frame hf hh)
    | heap hh => exact h.mentions id (.heap hh)
    | static hh => exact h.mentions id (.static hh)
    | library hh => exact h.mentions id (.library hh)

/-- The heap may be extended by entries that hold nothing but known references. -/
theorem Quiet.setHeap {heap : Heap} (h : m₀.Quiet m)
    (hx : m.heap.Extends (Fresh m.program m.library) heap)
    (hsrc : ∀ id, heap.Mentions id → m₀.Sources heap id) : m₀.Quiet { m with heap } where
  program := h.program
  library := h.library
  settings := h.settings
  document := h.document
  host := h.host
  hostKept := h.hostKept
  frames := h.frames
  heap := by
    rw [h.program, h.library] at hx
    exact h.heap.trans .map hx
  mentions := by
    intro id hid
    cases hid with
    | host hh => exact (h.mentions id (.host hh)).mono hx.size
    | frame hf hh => exact (h.mentions id (.frame hf hh)).mono hx.size
    | heap hh => exact hsrc id hh
    | static hh => exact (h.mentions id (.static hh)).mono hx.size
    | library hh => exact (h.mentions id (.library hh)).mono hx.size

theorem Quiet.remember {key : Bytes} {v : Value} (h : m₀.Quiet m)
    (hv : v.Within (m₀.Sources m.heap)) :
    m₀.Quiet { m with statics := (key, v) :: m.statics } where
  program := h.program
  library := h.library
  settings := h.settings
  document := h.document
  host := h.host
  hostKept := h.hostKept
  frames := h.frames
  heap := h.heap
  mentions := by
    intro id hid
    cases hid with
    | host hh => exact h.mentions id (.host hh)
    | frame hf hh => exact h.mentions id (.frame hf hh)
    | heap hh => exact h.mentions id (.heap hh)
    | static hh =>
      rcases List.mem_cons.mp hh with heq | hold
      · exact hv id (congrArg Prod.snd heq).symm
      · exact h.mentions id (.static hold)
    | library hh => exact h.mentions id (.library hh)

end Updates

section Actions

variable {m₀ m : Machine}

theorem ends_get {I : Machine → Prop} :
    Ends I (get : Exec Machine) m fun a m' => a = m ∧ m' = m :=
  ⟨rfl, rfl⟩

theorem ends_fault {α : Type} {f : Fault} {Q : α → Machine → Prop} (h : m₀.Quiet m) :
    Ends m₀.Quiet (fault f : Exec α) m Q := h

/-- What follows a fault is not run. -/
theorem ends_fault_bind {α β : Type} {f : Fault} {g : α → Exec β} {Q : β → Machine → Prop}
    (h : m₀.Quiet m) : Ends m₀.Quiet ((fault f : Exec α) >>= g) m Q :=
  Ends.of_throw_bind h

theorem ends_check {α : Type} {x : Except Fault α} (h : m₀.Quiet m) :
    Ends m₀.Quiet (check x) m fun a m' => m' = m ∧ x = .ok a := by
  cases x with
  | error f => exact h
  | ok a => exact ⟨rfl, rfl⟩

/-- What rearranges the current frame has no event. -/
theorem ends_onFrame {α : Type} {x : FrameM α} {Q : Frame → α → Frame → Prop} (h : m₀.Quiet m)
    (hx : ∀ f, f ∈ m.frames →
      Ends f.Rearranges x f fun a f' => f.Rearranges f' ∧ Q f a f') :
    Ends m₀.Quiet (onFrame x) m fun a m' =>
      m₀.Quiet m' ∧ ∃ f f' rest, m.frames = f :: rest ∧ m' = { m with frames := f' :: rest } ∧
        Q f a f' := by
  unfold Ends onFrame
  cases hm : m.frames with
  | nil => exact h
  | cons f rest =>
    have hf := hx f (hm ▸ List.mem_cons_self ..)
    unfold Ends at hf
    cases hxf : x f with
    | ok a f' =>
      rw [hxf] at hf
      simp only [hxf]
      exact ⟨h.rearrange hm hf.1, f, f', rest, rfl, rfl, hf.2⟩
    | error e f' =>
      rw [hxf] at hf
      simp only [hxf]
      exact h.rearrange hm hf

/-- An operation moves the current frame only. -/
theorem ends_operate {op : Operation} {legacy : Bool} (hop : op.Literal) (h : m₀.Quiet m) :
    Ends m₀.Quiet (onFrame (op.run legacy)) m fun _ m' => m₀.Quiet m' := by
  refine (ends_onFrame (Q := fun _ _ _ => True) h fun f _ => ?_).mono (fun _ h => h)
    fun _ _ h => h.1
  exact (Operation.ends_run hop (.refl f)).mono (fun _ h => h) fun _ _ h => ⟨h, trivial⟩

theorem ends_onStack {α : Type} {values : α → Stack} {x : StackM α} (hx : Stack.Pops values x)
    (h : m₀.Quiet m) :
    Ends m₀.Quiet (onStack x) m fun a m' =>
      m₀.Quiet m' ∧ m'.heap = m.heap ∧ ∀ v ∈ values a, v.Within (m₀.Sources m.heap) := by
  unfold Ends onStack
  cases hm : m.frames with
  | nil =>
    have hs := hx m.host
    unfold Ends at hs
    cases hxs : x m.host with
    | ok a host =>
      rw [hxs] at hs
      refine ⟨hm ▸ h.popHost hm ⟨values a, hs.symm⟩, rfl, fun v hv => h.within fun id hid => ?_⟩
      exact .host (hs ▸ List.mem_append_left host (hid ▸ hv))
    | error e host =>
      rw [hxs] at hs
      have hq := h.popHost hm hs
      rw [hm] at hq
      exact hq
  | cons f rest =>
    have hf := Frame.ends_onStack hx (.refl f)
    unfold Ends at hf
    cases hxf : Frame.onStack x f with
    | ok a f' =>
      rw [hxf] at hf
      simp only [hxf]
      refine ⟨h.rearrange hm hf.1, trivial, fun v hv => h.within fun id hid => ?_⟩
      exact .frame (hm ▸ List.mem_cons_self ..) (hf.2 v hv id hid)
    | error e f' =>
      rw [hxf] at hf
      simp only [hxf]
      exact h.rearrange hm hf

/-- A value taken off the stack as it is has a source. -/
theorem ends_pop {x : StackM Value} (hx : Stack.Pops (fun v => [v]) x) (h : m₀.Quiet m) :
    Ends m₀.Quiet (onStack x) m fun v m' =>
      m₀.Quiet m' ∧ m'.heap = m.heap ∧ v.Within (m₀.Sources m.heap) :=
  (ends_onStack hx h).mono (fun _ h => h) fun v _ hv =>
    ⟨hv.1, hv.2.1, hv.2.2 v (List.mem_singleton_self v)⟩

theorem ends_push {v : Value} (h : m₀.Quiet m) (hv : v.Within (m₀.Sources m.heap)) :
    Ends m₀.Quiet (push v) m fun _ m' => m₀.Quiet m' := by
  unfold Ends push onFrame
  cases hm : m.frames with
  | nil => exact h
  | cons f rest =>
    simp only [Frame.push]
    by_cases hroom : f.stack.length < f.method.maxStack
    · simp only [if_pos hroom]
      have hf : f ∈ m.frames := hm ▸ List.mem_cons_self ..
      refine h.top hm ⟨rfl, rfl, rfl, fun _ => hroom, fun hf => hf⟩ fun id hid => ?_
      rcases hid with hstack | hlocals
      · rcases List.mem_cons.mp hstack with rfl | hold
        · exact hv id rfl
        · exact h.mentions id (.frame hf (Or.inl hold))
      · exact h.mentions id (.frame hf (Or.inr hlocals))
    · simp only [if_neg hroom]
      exact h.rearrange hm (.refl f)

theorem ends_alloc {e : Entry} (h : m₀.Quiet m) (he : Fresh m.program m.library e)
    (hsrc : ∀ id, e.Mentions id → m₀.Sources m.heap id) :
    Ends m₀.Quiet (alloc e) m fun v m' => m₀.Quiet m' ∧ v.Within (m₀.Sources m'.heap) := by
  have hsize : (m.heap.alloc e).size = m.heap.size + 1 := by simp [Heap.size, Heap.alloc]
  refine ⟨h.setHeap (Heap.extends_alloc m.heap he) fun id hid => ?_, fun id hid => ?_⟩
  · rcases Heap.mentions_alloc hid with hold | hnew
    · exact (h.mentions id (.heap hold)).mono (by omega)
    · exact (hsrc id hnew).mono (by omega)
  · cases hid
    have := h.heap.size
    refine Or.inr ⟨?_, ?_⟩
    · unfold Heap.next
      omega
    · show m.heap.next < (m.heap.alloc e).size
      unfold Heap.next
      omega

theorem ends_onConsole {x : ConsoleM Unit} (h : m₀.Quiet m) :
    Ends m₀.Quiet (onConsole x) m fun _ m' => m₀.Quiet m' := by
  unfold Ends onConsole
  cases x m.console with
  | ok _ console => exact h.console console
  | error e console => exact h.console console

end Actions

end Machine

end ClassTrace
