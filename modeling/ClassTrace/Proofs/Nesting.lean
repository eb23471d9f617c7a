import ClassTrace.Proofs.Run

/-!
Calls and returns of a trace. The number of calls less that of returns is the number of frames, at
every moment of a call of the host: frames are made and left only with their events. So the events
of a call that succeeds are nested like brackets inside one pair, and those of a call that fails
say how many frames there were when it failed.
-/
namespace ClassTrace

namespace Event

def change : Event → Int
  | .call .. => 1
  | .ret .. => -1
  | _ => 0

def nesting (es : List Event) : Int := es.foldr (fun e n => e.change + n) 0

@[simp] theorem nesting_nil : nesting [] = 0 := rfl

theorem nesting_append (es fs : List Event) : nesting (es ++ fs) = nesting es + nesting fs := by
  induction es with
  | nil => simp
  | cons e es ih =>
    simp only [nesting, List.cons_append, List.foldr_cons] at ih ⊢
    omega

theorem nesting_concat (es : List Event) (e : Event) :
    nesting (es ++ [e]) = nesting es + e.change := by
  rw [nesting_append]
  simp [nesting]

end Event

namespace Machine

open Event

structure Advances (m m' : Machine) (es : List Event) : Prop where
  settings : m'.settings = m.settings
  events : m'.events = m.events ++ es
  single : es = [] ∨ ∃ e, es = [e]
  nesting : nesting es = m'.frames.length - m.frames.length
  depth : m'.frames.length ≤ max (m.frames.length : Int) m.settings.maxDepth
  last : m'.frames = [] → ∃ line value, es = [.ret line value]

/-- A store and its event leave the number of frames as it is. -/
theorem Announces.advances {start m m₁ m' : Machine} {e : Event} (h : Announces e m₁ m')
    (hq : start.Quiet m) (hr : start.settings.recording = true) (hne : start.frames ≠ [])
    (hset : m₁.settings = m.settings) (hdoc : m₁.document = m.document)
    (hlen : m₁.frames.length = m.frames.length) (he : e.change = 0) : Advances start m' [e] := by
  obtain ⟨hs, hev, hf⟩ := h.appends hq hr hset hdoc
  have hlen' : m'.frames.length = start.frames.length := by
    rw [hf, hlen, hq.frames.length]
  refine ⟨hs, hev, Or.inr ⟨e, rfl⟩, ?_, by omega, fun hnil => ?_⟩
  · simp [Event.nesting, he, hlen']
  · rw [hnil] at hlen'
    exact absurd (List.length_eq_zero_iff.mp hlen'.symm) hne

/-- Without an event the number of frames stays the same. -/
theorem Quiet.advances {m m' : Machine} (h : m.Quiet m') (hne : m.frames ≠ []) :
    Advances m m' [] := by
  have hlen := h.frames.length
  refine ⟨h.settings, by rw [h.events, List.append_nil], Or.inl rfl, by simp [hlen], by omega, ?_⟩
  intro hnil
  rw [hnil] at hlen
  exact absurd (List.length_eq_zero_iff.mp hlen.symm) hne

/-- Entering a method is one call and one frame more, within the limit. -/
theorem Enters.advances {start m m' : Machine} {method : Method} (hq : start.Quiet m)
    (hr : start.settings.recording = true) (h : Enters start m method m') :
    ∃ e, e.change = 1 ∧ m'.settings = start.settings ∧ m'.events = start.events ++ [e] ∧
      m'.frames.length = start.frames.length + 1 ∧
      start.frames.length < start.settings.maxDepth := by
  cases h with
  | intro hcode hdepth hbegins hstack hreturn hsrc h =>
    obtain ⟨hs, hev, hf⟩ := h.appends hq hr rfl rfl
    refine ⟨_, rfl, hs, hev, ?_, ?_⟩
    · rw [hf, List.length_cons, hq.frames.length]
    · rwa [hq.frames.length, hq.settings] at hdepth

/-- Leaving a method is one return and one frame less. -/
theorem Leaves.advances {start m m' : Machine} {v : Option Value} (hq : start.Quiet m)
    (hr : start.settings.recording = true) (h : Leaves v m m') :
    ∃ line value, m'.settings = start.settings ∧ m'.events = start.events ++ [.ret line value] ∧
      m'.frames.length + 1 = start.frames.length := by
  rw [← hq.frames.length]
  cases h with
  | toHost hm h =>
    obtain ⟨hs, hev, hf⟩ := h.appends hq hr rfl rfl
    exact ⟨_, _, hs, hev, by rw [hf, hm]; rfl⟩
  | toCaller hm h =>
    obtain ⟨hs, hev, hf⟩ := h.appends hq hr rfl rfl
    exact ⟨_, _, hs, hev, by rw [hf, hm]; rfl⟩

/-- An instruction adds a frame with a call and takes one with a return. -/
theorem Finishes.advances {start m' : Machine} {i : Instruction}
    (hr : start.settings.recording = true) (hne : start.frames ≠ []) (h : Finishes start i m') :
    ∃ es, Advances start m' es := by
  obtain ⟨m, hq, hend⟩ := h
  cases hend with
  | silent | library => exact ⟨[], hq.advances hne⟩
  | assign hheap hi hm hold hset hv h =>
    exact ⟨_, h.advances hq hr hne rfl rfl (by rw [hm]; rfl) rfl⟩
  | setField hheap hi hget hold hv h => exact ⟨_, h.advances hq hr hne rfl rfl rfl rfl⟩
  | setElement hheap hget hold hstorable hv h => exact ⟨_, h.advances hq hr hne rfl rfl rfl rfl⟩
  | call hheap href howner h =>
    obtain ⟨e, he, hs, hev, hlen, hdepth⟩ := h.advances hq hr
    refine ⟨[e], hs, hev, Or.inr ⟨e, rfl⟩, ?_, by omega, fun hnil => ?_⟩
    · simp only [Event.nesting, he, hlen, List.foldr_cons, List.foldr_nil]
      omega
    · rw [hnil] at hlen
      cases hlen
  | ret hheap hsome hv h =>
    obtain ⟨line, value, hs, hev, hlen⟩ := h.advances hq hr
    refine ⟨_, hs, hev, Or.inr ⟨_, rfl⟩, ?_, by omega, fun _ => ⟨line, value, rfl⟩⟩
    simp only [Event.nesting, Event.change, List.foldr_cons, List.foldr_nil]
    omega

/-- The events of a step tell how many frames it adds. -/
theorem StepsTo.advances {m m' : Machine} (hr : m.settings.recording = true) (h : StepsTo m m') :
    ∃ es, Advances m m' es := by
  obtain ⟨hne, hstep⟩ := h
  obtain ⟨f, rest, hm⟩ := List.exists_cons_of_ne_nil hne
  obtain ⟨i, -, hi⟩ := step_ok hm hstep
  exact hi.advances hr hne

/-- The events since `m₀`, where no frame was, up to a moment of a call of the host. -/
structure Nested (m₀ m : Machine) (es : List Event) : Prop where
  settings : m.settings = m₀.settings
  events : m.events = m₀.events ++ es
  total : nesting es = m.frames.length
  bounded : ∀ pre, pre <+: es → 0 ≤ nesting pre ∧ nesting pre ≤ max m₀.settings.maxDepth 0
  inside : ∀ pre, pre <+: es → pre ≠ [] → pre ≠ es → 1 ≤ nesting pre
  last : m.frames = [] → ∃ line value, es.getLast? = some (.ret line value)

/-- One step keeps the events nested. -/
theorem Nested.step {m₀ m m' : Machine} {es : List Event} (hr : m₀.settings.recording = true)
    (h : Nested m₀ m es) (hs : StepsTo m m') : ∃ fs, Nested m₀ m' fs := by
  obtain ⟨es', ha⟩ := hs.advances (h.settings ▸ hr)
  have hset := ha.settings.trans h.settings
  have htotal := h.total
  have hpos : 1 ≤ m.frames.length := List.length_pos_iff.mpr hs.1
  rcases ha.single with rfl | ⟨e, rfl⟩
  · have hlen : m'.frames.length = m.frames.length := by
      have := ha.nesting
      simp only [nesting_nil] at this
      omega
    refine ⟨es, hset, by rw [ha.events, List.append_nil, h.events], by omega, h.bounded,
      h.inside, ?_⟩
    intro hnil
    rw [hnil] at hlen
    simp only [List.length_nil] at hlen
    omega
  · have hdepth := ha.depth
    rw [h.settings] at hdepth
    have hchange : e.change = m'.frames.length - m.frames.length := by
      have := ha.nesting
      simpa [Event.nesting] using this
    have hself := h.bounded es (List.prefix_refl es)
    refine ⟨es ++ [e], hset, by rw [ha.events, h.events, List.append_assoc], ?_, ?_, ?_, ?_⟩
    · rw [nesting_concat]
      omega
    · intro pre hpre
      rcases List.prefix_concat_iff.mp hpre with rfl | hold
      · rw [nesting_concat]
        omega
      · exact h.bounded pre hold
    · intro pre hpre hne hproper
      rcases List.prefix_concat_iff.mp hpre with rfl | hold
      · exact absurd rfl hproper
      · by_cases heq : pre = es
        · subst heq
          omega
        · exact h.inside pre hold hne heq
    · intro hnil
      obtain ⟨line, value, heq⟩ := ha.last hnil
      cases heq
      exact ⟨line, value, List.getLast?_concat⟩

/-- The nesting of events is kept along a run. -/
theorem Nested.run {m₀ m m' : Machine} {es : List Event} (hr : m₀.settings.recording = true)
    (h : Nested m₀ m es) (hrun : Runs m m') : ∃ fs, Nested m₀ m' fs := by
  induction hrun with
  | refl => exact ⟨es, h⟩
  | tail _ hs ih =>
    obtain ⟨fs, hfs⟩ := ih
    exact hfs.step hr hs

end Machine

namespace HostCall

open Event Machine

/-- A call starts with one event, that of the call itself. -/
theorem nested_entered {c : HostCall} {m m₀ m₁ : Machine} {method : Method} (hm : m.frames = [])
    (hr : m.settings.recording = true) (hsetup : c.setup m = some (method, m₀))
    (hs : enter method .static m₀ = .ok () m₁) : ∃ e, Nested m m₁ [e] := by
  obtain ⟨hev₀, hset₀, hm₀⟩ := setup_keeps hsetup
  obtain ⟨m', hq, -, he⟩ := (ends_enter (Quiet.refl m₀)).of_ok hs
  obtain ⟨e, hchange, hset, hev, hlen, hdepth⟩ := he.advances hq (hset₀ ▸ hr)
  rw [hm₀, hm] at hlen hdepth
  rw [hset₀] at hset hdepth
  simp only [List.length_nil, Int.ofNat_zero] at hdepth
  have htotal : nesting [e] = 1 := by simp [nesting, hchange]
  refine ⟨e, hset, by rw [hev, hev₀], by rw [htotal, hlen]; rfl, ?_, ?_, ?_⟩
  · intro pre hpre
    rcases List.prefix_cons_iff.mp hpre with rfl | ⟨rest, rfl, hrest⟩
    · simp only [nesting_nil]
      omega
    · rw [List.prefix_nil.mp hrest, htotal]
      omega
  · intro pre hpre hne hproper
    rcases List.prefix_cons_iff.mp hpre with rfl | ⟨rest, rfl, hrest⟩
    · exact absurd rfl hne
    · exact absurd (by rw [List.prefix_nil.mp hrest]) hproper
  · intro hnil
    rw [hnil] at hlen
    cases hlen

/-- What the events `es` of a call that comes to `o` look like, read as calls less returns. Every
part of them is within the limit. A call that succeeds is one bracketed piece; one that fails
after its method was entered leaves as many calls open as there were frames when the last step
began. -/
structure WellNested (c : HostCall) (m : Machine) (o : Outcome) (es : List Event) : Prop where
  events : o.machine.events = m.events ++ es
  bounded : ∀ pre, pre <+: es → 0 ≤ nesting pre ∧ nesting pre ≤ max m.settings.maxDepth 0
  finished : ∀ m', o = .finished m' → nesting es = 0 ∧
    (∀ pre, pre <+: es → pre ≠ [] → pre ≠ es → 1 ≤ nesting pre) ∧
    ∃ line value, es.getLast? = some (.ret line value)
  failed : ∀ e m', o = .failed e m' → ∀ m₁, c.Entered m m₁ → ∃ m₂ m₃, Runs m₁ m₂ ∧
    step m₂ = .error e m₃ ∧ nesting es = m₂.frames.length ∧ 1 ≤ m₂.frames.length
  refused : (∀ m₁, ¬ c.Entered m m₁) → es = []

/-- A call that never enters its method has no events. -/
theorem wellNested_refused {c : HostCall} {m : Machine} {e : RunError} {m' : Machine}
    (hev : m'.events = m.events) (hnot : ∀ m₁, ¬ c.Entered m m₁) :
    c.WellNested m (.failed e m') [] := by
  refine ⟨by
    rw [List.append_nil]; exact hev, fun pre hpre => ?_, fun m' h => ?_, ?_, fun _ => rfl⟩
  · rw [List.prefix_nil.mp hpre]
    simp only [nesting_nil]
    omega
  · cases h
  · exact fun _ _ _ m₁ hm₁ => absurd hm₁ (hnot m₁)

/-- The run of an entered method decides how its call is nested. -/
theorem wellNested_entered {c : HostCall} {m m₀ m₁ : Machine} {method : Method} {o : Outcome}
    (hm : m.frames = []) (hr : m.settings.recording = true)
    (hsetup : c.setup m = some (method, m₀)) (hs : enter method .static m₀ = .ok () m₁)
    (h : m₁.Concludes o) : ∃ es, c.WellNested m o es := by
  obtain ⟨e₀, hstart⟩ := nested_entered hm hr hsetup hs
  have hentered : c.Entered m m₁ := ⟨method, m₀, hsetup, hs⟩
  cases h with
  | finished hrun hnil =>
    obtain ⟨es, hes⟩ := hstart.run hr hrun
    refine ⟨es, hes.events, hes.bounded, ?_, fun _ _ h => Outcome.noConfusion h,
      fun hnot => absurd hentered (hnot m₁)⟩
    intro m' _
    have htotal := hes.total
    rw [hnil] at htotal
    exact ⟨htotal, hes.inside, hes.last hnil⟩
  | unfinished hrun =>
    obtain ⟨es, hes⟩ := hstart.run hr hrun
    exact ⟨es, hes.events, hes.bounded, fun _ h => Outcome.noConfusion h,
      fun _ _ h => Outcome.noConfusion h, fun hnot => absurd hentered (hnot m₁)⟩
  | failed hrun hne hstep =>
    rename_i m₂ m₃ e
    obtain ⟨es, hes⟩ := hstart.run hr hrun
    have hev : m₃.events = m₂.events := (step_error hstep).events
    refine ⟨es, hev.trans hes.events, hes.bounded, fun _ h => Outcome.noConfusion h, ?_,
      fun hnot => absurd hentered (hnot m₁)⟩
    rintro _ _ heq m₁' ⟨method', m₀', hsetup', hs'⟩
    -- Setting up and entering are functions, so the call was entered in one way only.
    cases heq
    cases hsetup.symm.trans hsetup'
    cases hs.symm.trans hs'
    exact ⟨m₂, m₃, hrun, hstep, hes.total, List.length_pos_iff.mpr hne⟩

/-- The calls and returns of every call of the host are nested, and when the call has returned no
frame is left. -/
theorem call_events_nested (c : HostCall) (fuel : Nat) (m : Machine) (hm : m.frames = []) :
    ((∀ m', c.perform fuel m ≠ .unfinished m') → (c.perform fuel m).machine.frames = []) ∧
      (m.settings.recording = true → ∃ es, c.WellNested m (c.perform fuel m) es) := by
  have h := c.perform_results fuel m
  generalize c.perform fuel m = o at h ⊢
  refine ⟨fun hterm => ?_, fun hr => ?_⟩
  · cases h with
    | missing => exact hm
    | refused => rfl
    | entered _ _ h =>
      cases h with
      | finished _ hnil => exact hnil
      | unfinished => exact absurd rfl (hterm _)
      | failed => rfl
  · cases h with
    | missing hsetup =>
      refine ⟨[], wellNested_refused rfl ?_⟩
      rintro m₁ ⟨_, _, hsome, -⟩
      cases hsetup.symm.trans hsome
    | refused hsetup hs =>
      have hq := (ends_enter (Quiet.refl _)).of_error hs
      refine ⟨[], wellNested_refused (hq.events.trans (setup_keeps hsetup).1) ?_⟩
      rintro m₁ ⟨_, _, hsome, hok⟩
      cases hsetup.symm.trans hsome
      cases hs.symm.trans hok
    | entered hsetup hs h => exact wellNested_entered hm hr hsetup hs h

def nestedCalls : Class where
  name := "T"
  super := []
  pool :=
    #[none,
      some (.methodRef ⟨⟨"T", 0⟩, ⟨"inner", "()V", .method ⟨[], .void⟩⟩, ⟨[], .void⟩, false⟩)]
  fields := []
  methods := [
    { owner := "T", name := "outer", descriptor := "()V", signature := ⟨[], .void⟩,
      isStatic := true, code := #[0xB8, 0, 1, 0xB1] },
    { owner := "T", name := "inner", descriptor := "()V", signature := ⟨[], .void⟩,
      isStatic := true, code := #[0xB1] }]

/-- `outer` calls `inner`: two calls are reported, and then two returns. -/
theorem call_events_nested_outer :
    (start nestedCalls .default {} [] {}).frames = [] ∧
      (start nestedCalls .default {} [] {}).settings.recording = true ∧
      (match (byName "outer").perform 10 (start nestedCalls .default {} [] {}) with
        | .finished m => m.events
        | _ => []) = [.call (-1) "outer" "static" [], .call (-1) "inner" "static" [],
          .ret (-1) "void", .ret (-1) "void"] ∧
      ∃ es, (byName "outer").WellNested (start nestedCalls .default {} [] {})
        ((byName "outer").perform 10 (start nestedCalls .default {} [] {})) es := by
  have hframes : (start nestedCalls .default {} [] {}).frames = [] := by decide +kernel
  have hr : (start nestedCalls .default {} [] {}).settings.recording = true := by decide +kernel
  exact ⟨hframes, hr, by decide +kernel, (call_events_nested (byName "outer") 10 _ hframes).2 hr⟩

end HostCall

end ClassTrace
