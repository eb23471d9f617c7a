import ClassTrace.Proofs.ArrayKinds

/-!
Static fields of the library. The first instruction that asks for one makes its value and has it
remembered, even if there is no room to push it; nothing ever forgets or replaces it. The default
library has the two streams of the console, so at most two streams are made however long the host
goes on calling, and what is pushed for each is always the one reference.
-/
namespace ClassTrace

def Channel.staticKey : Channel → Bytes
  | .out => ClassTrace.staticKey "java/lang/System" "out"
  | .err => ClassTrace.staticKey "java/lang/System" "err"

/-- Each channel has a static field of its own. -/
theorem Channel.staticKey_injective {c c' : Channel} (h : c.staticKey = c'.staticKey) :
    c = c' := by
  revert h
  cases c <;> cases c' <;> decide

/-- The static fields of the default library are the two streams. -/
theorem Library.default_static {owner name : Bytes} {source : StaticSource}
    (h : Library.default.static? owner name = some source) :
    ∃ channel, source = .stream channel ∧ ClassTrace.staticKey owner name =
      channel.staticKey := by
  have hall : ∀ p ∈ Library.default.statics, ∃ channel : Channel, p =
      (channel.staticKey, .stream channel) :=
    List.forall_mem_cons.mpr ⟨⟨.out, rfl⟩, List.forall_mem_singleton.mpr ⟨.err, rfl⟩⟩
  obtain ⟨channel, heq⟩ := hall _ (mem_of_lookup h)
  exact ⟨channel, congrArg Prod.snd heq, congrArg Prod.fst heq⟩

namespace Heap

variable {h : Heap} {id : Int} {s : PrintStream}

theorem stream_alloc {e : Entry} (he : e.sort ≠ .stream) :
    (h.alloc e).get? id = some (.stream s) ↔ h.get? id = some (.stream s) := by
  constructor
  · intro hget
    rcases get?_of_alloc hget with hthere | ⟨-, rfl⟩
    · exact hthere
    · exact absurd rfl he
  · intro hget
    rw [get?_alloc, if_neg (ne_next_of_get? hget)]
    exact hget

theorem stream_modify {target : Int} {f : Entry → Entry} {e : Entry}
    (hget : h.get? target = some e) (he : e.sort ≠ .stream) (hf : (f e).sort ≠ .stream) :
    (h.modify target f).get? id = some (.stream s) ↔ h.get? id = some (.stream s) := by
  by_cases hid : id = target
  · subst hid
    rw [get?_modify_self hget, hget]
    refine iff_of_false ?_ ?_
    · intro heq
      exact hf (congrArg Entry.sort (Option.some.inj heq))
    · intro heq
      exact he (congrArg Entry.sort (Option.some.inj heq))
  · rw [get?_modify_of_ne hget hid]

end Heap

namespace Machine

section Steps

variable {Pushable : Machine → Value → Prop} {m m' : Machine} {owner name key : Bytes} {v : Value}

/-- What is given for a static field is what is remembered for it. -/
theorem libraryStatic_ok (h : libraryStatic owner name m = .ok v m') :
    m'.statics.lookup (staticKey owner name) = some v ∧ m'.operands = m.operands := by
  have h := of_get_bind h
  cases hlookup : m.statics.lookup (staticKey owner name) with
  | some w =>
    simp only [hlookup] at h
    cases h
    exact ⟨hlookup, rfl⟩
  | none =>
    simp only [hlookup] at h
    cases hsource : m.library.static? owner name with
    | none =>
      rw [hsource] at h
      cases h
    | some source =>
      rw [hsource] at h
      cases source with
      | stream channel | constant w =>
        cases h
        exact ⟨List.lookup_cons_self, rfl⟩
      | failing message => cases h

/-- A successful instruction that asks for a static field pushes what is remembered from then
on. -/
theorem StepsTo.asksStatic (h : StepsTo m m') (hasks : m.AsksStatic owner name) :
    ∃ v, m'.operands = v :: m.operands ∧ m'.statics.lookup (staticKey owner name) = some v := by
  obtain @⟨f, rest, index, r, hm, hi, hr, hforeign, rfl, rfl⟩ := hasks
  obtain ⟨opcode, next, console, hop, hdec, hrun⟩ := step_runs hm hi h.2
  obtain ⟨r', m₁, hcheck, hrun⟩ := bind_ok_iff.mp hrun
  obtain ⟨hr', rfl⟩ := check_ok (of_get_bind hcheck)
  cases hr.symm.trans hr'
  have hrun := of_get_bind hrun
  simp only [if_neg hforeign] at hrun
  obtain ⟨v, m₂, hmade, hpush⟩ := bind_ok_iff.mp hrun
  obtain ⟨hlookup, hoperands⟩ := libraryStatic_ok hmade
  have hstatics := ((Steady.push v m₂).of_ok hpush).statics
  refine ⟨v, ?_, ?_⟩
  · rw [(push_stack hpush).1, hoperands, operands_cons hm]
    rfl
  · rw [hstatics]
    exact hlookup

/-- What is remembered stays so. -/
theorem Transition.statics (ht : Transition Pushable m m') (h : m.statics.lookup key = some v) :
    m'.statics.lookup key = some v := by
  rcases ht.changes with halike | ⟨hm, args, rfl⟩
  · rw [halike.statics]
    have hnew : ∀ {key' w}, m.statics.lookup key' = none →
        ((key', w) :: m.statics).lookup key = some v := by
      intro key' w hnone
      have hne : key ≠ key' := by
        rintro rfl
        cases h.symm.trans hnone
      rw [List.lookup_cons, beq_false_of_ne hne]
      exact h
    have hoccasion := m.change_occasion
    generalize m.change = c at hoccasion
    cases hoccasion with
    | nothing | newArray | built | stored | put | printed => exact h
    | opened _ hnone | remembered _ hnone => exact hnew hnone
  · exact h

/-- A static that was made once stays what it is. -/
theorem Reaches.statics (hr : Reaches Pushable m m') (h : m.statics.lookup key = some v) :
    m'.statics.lookup key = some v := by
  induction hr with
  | refl => exact h
  | tail _ ht ih => exact ht.statics ih

/-- What is remembered at some time is pushed at every later one. -/
theorem Reaches.pushesStatic {m₂ : Machine} (hr : Reaches Pushable m m')
    (h : m.statics.lookup (staticKey owner name) = some v) (hasks : m'.AsksStatic owner name)
    (hstep : StepsTo m' m₂) : m₂.operands = v :: m'.operands := by
  obtain ⟨w, hoperands, hw⟩ := hstep.asksStatic hasks
  have hlater := Reaches.statics (hr.tail (.step hstep)) h
  cases hlater.symm.trans hw
  exact hoperands

end Steps

/-- The streams on the heap are those that are remembered, one for each channel. -/
structure StreamsKnown (m : Machine) : Prop where
  remembered : ∀ key v, m.statics.lookup key = some v → ∃ id s, v = .ref id ∧
    m.heap.get? id = some (.stream s) ∧ key = s.channel.staticKey
  known : ∀ id s, m.heap.get? id = some (.stream s) →
    m.statics.lookup s.channel.staticKey = some (.ref id)

section Streams

variable {Pushable : Machine → Value → Prop} {m m' : Machine}

theorem StreamsKnown.of_same (h : m.StreamsKnown)
    (hheap : ∀ id s, m'.heap.get? id = some (.stream s) ↔ m.heap.get? id = some (.stream s))
    (hstatics : m'.statics = m.statics) : m'.StreamsKnown := by
  refine ⟨fun key v hv => ?_, fun id s hs => ?_⟩
  · rw [hstatics] at hv
    obtain ⟨id, s, rfl, hs, rfl⟩ := h.remembered key v hv
    exact ⟨id, s, rfl, (hheap id s).mpr hs, rfl⟩
  · rw [hstatics]
    exact h.known id s ((hheap id s).mp hs)

/-- A stream is made if none is remembered for its channel. -/
theorem StreamsKnown.opened (h : m.StreamsKnown) {s : PrintStream}
    (hnew : m.statics.lookup s.channel.staticKey = none) :
    ((Change.openStream s.channel.staticKey s).apply m).StreamsKnown := by
  refine ⟨fun key v hv => ?_, fun id s' hs' => ?_⟩
  · change ((s.channel.staticKey, Value.ref m.heap.next) :: m.statics).lookup key = some v at hv
    rw [List.lookup_cons] at hv
    by_cases hkey : key = s.channel.staticKey
    · rw [beq_iff_eq.mpr hkey] at hv
      cases hv
      exact ⟨m.heap.next, s, rfl, (Heap.get?_alloc ..).trans (if_pos rfl), hkey⟩
    · rw [beq_false_of_ne hkey] at hv
      obtain ⟨id, s', rfl, hs', hkey'⟩ := h.remembered key v hv
      exact ⟨id, s', rfl, (Heap.get?_alloc ..).trans
        ((if_neg (Heap.ne_next_of_get? hs')).trans hs'), hkey'⟩
  · change ((s.channel.staticKey, Value.ref m.heap.next) :: m.statics).lookup
      s'.channel.staticKey = _
    rw [List.lookup_cons]
    rcases Heap.get?_of_alloc hs' with hold | ⟨rfl, heq⟩
    · have hknown := h.known id s' hold
      by_cases hkey : s'.channel.staticKey = s.channel.staticKey
      · rw [hkey, hnew] at hknown
        cases hknown
      · rw [beq_false_of_ne hkey]
        exact hknown
    · cases heq
      rw [beq_self_eq_true]

/-- A transition makes a stream only along with the static that remembers it. -/
theorem StreamsKnown.transition (h : m.StreamsKnown) (hlibrary : m.library = .default)
    (ht : Transition Pushable m m') : m'.StreamsKnown := by
  rcases ht.changes with halike | ⟨hm, args, rfl⟩
  · refine StreamsKnown.of_same ?_ (fun id s => halike.heap id _ rfl) halike.statics
    have hoccasion := m.change_occasion
    generalize m.change = c at hoccasion
    cases hoccasion with
    | nothing | printed => exact h.of_same (fun _ _ => Iff.rfl) rfl
    | newArray => exact h.of_same (fun _ _ => Heap.stream_alloc nofun) rfl
    | @built name blueprint =>
      refine h.of_same (fun _ _ => Heap.stream_alloc ?_) rfl
      cases blueprint <;> nofun
    | stored _ hget => exact h.of_same (fun _ _ => Heap.stream_modify hget nofun nofun) rfl
    | put _ hget => exact h.of_same (fun _ _ => Heap.stream_modify hget nofun nofun) rfl
    | opened _ hnew hsource =>
      rw [hlibrary] at hsource
      obtain ⟨_, hchannel, hkey⟩ := Library.default_static hsource
      cases hchannel
      rw [hkey] at hnew ⊢
      exact h.opened (s := ⟨_, _⟩) hnew
    | remembered _ _ hsource =>
      rw [hlibrary] at hsource
      obtain ⟨channel, hchannel, -⟩ := Library.default_static hsource
      cases hchannel
  · exact h.of_same (fun _ _ => Heap.stream_alloc nofun) rfl

/-- In every state that the host can reach there is one stream for each channel at most. -/
theorem Reaches.streamsKnown {program : Class} {settings : Settings} {runId : Bytes}
    {console : Console}
    (h : Reaches Pushable (Machine.start program .default settings runId console) m) :
    m.StreamsKnown := by
  induction h with
  | refl =>
    refine ⟨fun key v hv => ?_, fun id s hs => ?_⟩
    · obtain ⟨document, console', -, hstart⟩ := start_eq program .default settings runId console
      rw [hstart] at hv
      cases hv
    · cases eq_newObject_of_start hs
  | tail hr ht ih => exact ih.transition ((Reaches.library hr).trans (start_library ..)) ht

end Streams

/-- Every instruction that asks for a static field of the library and succeeds pushes the same
reference as any later one. Once there is a stream for a channel, even of an instruction that
failed to push it, it is what is pushed for that channel, and no other one is ever made for it.
Stores into static fields change nothing of this. -/
theorem library_statics_made_once (program : Class) (settings : Settings) (runId : Bytes)
    (console : Console) (Pushable : Machine → Value → Prop) (m : Machine)
    (hreach : Reaches Pushable (start program .default settings runId console) m) :
    (∀ owner name m₁, m.AsksStatic owner name → StepsTo m m₁ →
      ∃ id, m₁.operands = .ref id :: m.operands ∧
      (∃ s, m₁.heap.get? id = some (.stream s) ∧ staticKey owner name = s.channel.staticKey) ∧
      ∀ m₂ m₃, Reaches Pushable m₁ m₂ → m₂.AsksStatic owner name → StepsTo m₂ m₃ →
        m₃.operands = .ref id :: m₂.operands) ∧
    (∀ id s, m.heap.get? id = some (.stream s) →
      (∀ m₂ id' s', Reaches Pushable m m₂ → m₂.heap.get? id' = some (.stream s') →
        s'.channel = s.channel → id' = id) ∧
      ∀ owner name m₂ m₃, staticKey owner name = s.channel.staticKey → Reaches Pushable m m₂ →
        m₂.AsksStatic owner name → StepsTo m₂ m₃ → m₃.operands = .ref id :: m₂.operands) ∧
    ∀ f rest index m', m.frames = f :: rest → f.Fetches (.putStatic index) →
      Transition Pushable m m' →
      m'.statics = m.statics ∧
        ∀ id s, m'.heap.get? id = some (.stream s) ↔ m.heap.get? id = some (.stream s) := by
  refine ⟨fun owner name m₁ hasks hstep => ?_, fun id s hs => ⟨?_, ?_⟩, ?_⟩
  · obtain ⟨v, hoperands, hv⟩ := hstep.asksStatic hasks
    have hknown := Reaches.streamsKnown (hreach.tail (.step hstep))
    obtain ⟨id, s, rfl, hs, hkey⟩ := hknown.remembered _ _ hv
    exact ⟨id, hoperands, ⟨s, hs, hkey⟩, fun m₂ m₃ hr => hr.pushesStatic hv⟩
  · intro m₂ id' s' hr hs' hchannel
    have hid' := (Reaches.streamsKnown (hreach.trans hr)).known id' s' hs'
    rw [hchannel, hr.statics (hreach.streamsKnown.known id s hs)] at hid'
    exact (Value.ref.inj (Option.some.inj hid')).symm
  · intro owner name m₂ m₃ hkey hr
    refine hr.pushesStatic ?_
    rw [hkey]
    exact hreach.streamsKnown.known id s hs
  · intro f rest index m' hm hi ht
    have hnothing : m.change = .nothing := change_of_fetches hm hi
    rcases ht.changes with halike | ⟨hidle, -⟩
    · rw [hnothing] at halike
      exact ⟨halike.statics, fun id s => halike.heap id _ rfl⟩
    · rw [hm] at hidle
      cases hidle

def outField : FieldRef where
  owner := ⟨"java/lang/System", 0⟩
  nameType := ⟨"out", "Ljava/io/PrintStream;", .plain (.value (.object PrintStream.className))⟩
  type := .value (.object PrintStream.className)

def cramped : Class where
  name := "T"
  super := []
  pool := #[none, some (.fieldRef outField)]
  fields := []
  methods := [
    { owner := "T", name := "cramped", descriptor := "()V", signature := ⟨[], .void⟩,
      isStatic := true, code := #[0xB2, 0, 1, 0xB1] },
    { owner := "T", name := "main", descriptor := "()V", signature := ⟨[], .void⟩,
      isStatic := true, maxStack := 1, code := #[0xB2, 0, 1, 0xB1] }]

def crampedFailed : Machine := cramped.after (.byName "cramped") 5

def crampedAgain : Machine := ((HostCall.byName "main").perform 0 crampedFailed).machine

/-- `cramped` asks for the standard output without room for it, and the call fails. The second
call, of `main`, pushes the stream that the first one has made. -/
theorem library_statics_made_once_cramped :
    Reaches (fun _ _ => True) (start cramped .default {} [] {}) crampedFailed ∧
    (∃ s, crampedFailed.heap.get? 1 = some (.stream s) ∧ s.channel = .out) ∧
    Reaches (fun _ _ => True) crampedFailed crampedAgain ∧
    crampedAgain.AsksStatic "java/lang/System" "out" ∧
    ∃ m', StepsTo crampedAgain m' ∧ m'.heap.size = 2 ∧ m'.operands = [.ref 1] := by
  have hreach : Reaches (fun _ _ => True) (start cramped .default {} [] {}) crampedFailed :=
    cramped.reaches_after _ _
  have hagain : Reaches (fun _ _ => True) crampedFailed crampedAgain :=
    HostCall.reaches_perform (.byName "main") 0 (by decide +kernel)
  have hstatics : crampedFailed.statics = [(Channel.out.staticKey, .ref 1)] := by decide +kernel
  have htop : crampedAgain.frames.map (fun f => (f.method.code, f.pc, f.stack)) =
      [(#[0xB2, 0, 1, 0xB1], 0, [])] := by
    decide +kernel
  have hsize : crampedAgain.stepped?.map (·.heap.size) = some 2 := by decide +kernel
  obtain ⟨f, rest, hm, hf, -⟩ := List.map_eq_cons_iff.mp htop
  simp only [Prod.mk.injEq] at hf
  obtain ⟨hcode, hpc, hstack⟩ := hf
  obtain ⟨m', hstepped, hsize⟩ := Option.map_eq_some_iff.mp hsize
  have hsteps : StepsTo crampedAgain m' :=
    stepsTo_of_stepped? (by rw [hm]; exact List.cons_ne_nil _ _) hstepped
  have hi : f.Fetches (.getStatic 1) := by
    refine ⟨0xB2, 3, ?_, ?_⟩
    · rw [hcode, hpc]
      rfl
    · rw [hcode, hpc]
      rfl
  have hprogram : crampedAgain.program = cramped :=
    (Reaches.program (hreach.trans hagain)).trans (start_program ..)
  have hasks : crampedAgain.AsksStatic "java/lang/System" "out" := by
    refine .intro (r := outField) hm hi ?_ ?_ rfl rfl
    · rw [hprogram]
      rfl
    · rw [hprogram]
      decide
  obtain ⟨id, s, hid, hs, hkey⟩ :=
    hreach.streamsKnown.remembered Channel.out.staticKey (.ref 1) (by rw [hstatics]; rfl)
  cases hid
  obtain ⟨-, hstreams, -⟩ :=
    library_statics_made_once cramped {} [] {} (fun _ _ => True) crampedFailed hreach
  have hpushed :=
    (hstreams 1 s hs).2 "java/lang/System" "out" crampedAgain m' hkey hagain hasks hsteps
  rw [operands_cons hm, hstack] at hpushed
  exact ⟨hreach, ⟨s, hs, (Channel.staticKey_injective hkey).symm⟩, hagain, hasks, m', hsteps,
    hsize, hpushed⟩

end Machine

end ClassTrace
