import ClassTrace.Proofs.Changes

/-!
What a program prints. A call of a print method on a stream consists of a few writes on its
channel, and nothing else that a machine does writes texts. So as long as no write on a channel is
refused, the texts that a console shows there are those of the calls, in their order, whatever
happens on the other channel.
-/
namespace ClassTrace

/-- The writes of a print: a colored text stands between the sequence for its color and a
reset. -/
def PrintStream.writes (s : PrintStream) (colorEnabled : Bool) (text : Bytes) : List Bytes :=
  match s.color with
  | some codes => if colorEnabled then [attributes codes, text, attributes [0]] else [text]
  | none => [text]

theorem PrintStream.writes_plain {s : PrintStream} {colorEnabled : Bool} {text : Bytes}
    (hplain : s.color = none ∨ colorEnabled = false) : s.writes colorEnabled text = [text] := by
  unfold writes
  rcases hplain with hcolor | rfl
  · rw [hcolor]
  · cases s.color with
    | none => rfl
    | some codes => rfl

def Routine.writes? (s : PrintStream) (colorEnabled : Bool) (text : Bytes) :
    Routine → Option (List Bytes)
  | .print => some (s.writes colorEnabled text)
  | .println => some (s.writes colorEnabled text ++ [("\n" : Bytes)])
  | _ => none

def textOn (channel : Channel) (texts : List (Channel × Bytes)) : Bytes :=
  texts.flatMap fun p => if p.1 = channel then p.2 else []

theorem textOn_append (channel : Channel) (xs ys : List (Channel × Bytes)) :
    textOn channel (xs ++ ys) = textOn channel xs ++ textOn channel ys :=
  List.flatMap_append

theorem textOn_other {channel other : Channel} (h : channel ≠ other) (texts : List Bytes) :
    textOn other (texts.map (channel, ·)) = [] := by
  unfold textOn
  rw [List.flatMap_map]
  simp [h]

structure Writer.Accepting (w : Writer) : Prop where
  answers : ∀ answer ∈ w.answers, answer = none
  room : w.room = none

/-- The writer accepts the next write, and all that follow. -/
theorem Writer.Accepting.next {w : Writer} (h : w.Accepting) :
    w.next.1 = none ∧ w.next.2.Accepting := by
  unfold Writer.next
  cases hanswers : w.answers with
  | nil =>
    rw [h.room]
    exact ⟨rfl, h⟩
  | cons answer answers =>
    have hall := h.answers
    rw [hanswers, List.forall_mem_cons] at hall
    exact ⟨hall.1, hall.2, h.room⟩

structure Writer.Unlocated (w : Writer) : Prop where
  answers : ∀ error, some error ∈ w.answers → error.location = none
  refusal : w.refusal.location = none

theorem Writer.Unlocated.next {w : Writer} (h : w.Unlocated) :
    (∀ error, w.next.1 = some error → error.location = none) ∧ w.next.2.Unlocated := by
  unfold Writer.next
  cases hanswers : w.answers with
  | nil =>
    dsimp only
    split
    · exact ⟨nofun, h⟩
    · refine ⟨?_, h⟩
      rintro _ ⟨⟩
      exact h.refusal
    · exact ⟨nofun, nofun, h.refusal⟩
  | cons answer answers =>
    have hall := h.answers
    rw [hanswers] at hall
    refine ⟨?_, ?_, h.refusal⟩
    · rintro error rfl
      exact hall error List.mem_cons_self
    · intro error hmem
      exact hall error (List.mem_cons_of_mem _ hmem)

namespace Console

variable {P : Console → Prop} {c d : Console} {channel other : Channel} {bytes : Bytes}

theorem writer_setWriter (c : Console) (w : Writer) (channel other : Channel) :
    (c.setWriter w channel).writer other = if channel = other then w else c.writer other := by
  cases channel <;> cases other <;> rfl

theorem writer_add (c : Console) (o : Output) (channel : Channel) :
    (c.add o).writer channel = c.writer channel := by
  cases channel <;> rfl

/-- A write takes the next answer of its channel, and leaves the other channel as it is. -/
theorem writer_tryWrite (c : Console) (channel other : Channel) (bytes : Bytes) :
    (tryWrite channel bytes c).writer other =
      if channel = other then (c.writer channel).next.2 else c.writer other := by
  unfold tryWrite write
  obtain ⟨answer, w⟩ := (c.writer channel).next
  cases answer with
  | none => exact (writer_add _ _ other).trans (writer_setWriter c w channel other)
  | some e => exact writer_setWriter c w channel other

theorem textOn_tryWrite (h : channel ≠ other) :
    textOn other (tryWrite channel bytes c).written = textOn other c.written := by
  have hwritten := written_write channel bytes c
  unfold tryWrite
  cases hwrite : write channel bytes c with
  | ok _ d =>
    rw [hwrite] at hwritten
    dsimp only
    rw [hwritten, textOn_append]
    refine (congrArg _ (textOn_other h [bytes])).trans (List.append_nil _)
  | error e d =>
    rw [hwrite] at hwritten
    exact congrArg _ hwritten

/-- What every write on the channel keeps is kept by a print. -/
theorem after_print (hwrite : ∀ c bytes, P c → P (tryWrite channel bytes c)) {routine : Routine}
    {s : PrintStream} {colorEnabled : Bool} {text : Bytes} {action : ConsoleM Unit}
    (haction : routine.print? s colorEnabled text = some action) (hs : s.channel = channel)
    (hc : P c) : P (ConsoleM.after action c) := by
  subst hs
  have hprint : P (ConsoleM.after (s.print colorEnabled text) c) := by
    unfold ConsoleM.after
    rcases plain_or_colored s colorEnabled with hplain | ⟨codes, hcolor, rfl⟩
    · rw [print_plain text hplain]
      exact hwrite _ _ hc
    · rw [print_colored hcolor]
      have htext := hwrite _ text (hwrite _ (PrintStream.attributes codes) hc)
      generalize tryWrite s.channel (PrintStream.attributes codes) c = before at htext ⊢
      unfold tryWrite at htext
      cases hresult : write s.channel text before with
      | ok _ d =>
        rw [hresult] at htext
        exact hwrite _ _ htext
      | error e d =>
        rw [hresult] at htext
        exact hwrite _ _ htext
  cases routine with
  | print =>
    cases haction
    exact hprint
  | println =>
    cases haction
    unfold ConsoleM.after at hprint ⊢
    unfold PrintStream.println
    cases hresult : s.print colorEnabled text c with
    | ok _ d =>
      rw [hresult] at hprint
      rw [bind_of_ok hresult]
      exact hwrite _ _ hprint
    | error e d =>
      rw [hresult] at hprint
      rw [bind_of_error hresult]
      exact hprint
  | _ => cases haction

def Accepts (c : Console) (channel : Channel) : Prop := (c.writer channel).Accepting

theorem Accepts.tryWrite (h : c.Accepts channel) (other : Channel) (bytes : Bytes) :
    (tryWrite other bytes c).Accepts channel := by
  unfold Accepts
  rw [writer_tryWrite]
  split
  · rename_i heq
    subst heq
    exact h.next.2
  · exact h

theorem Accepts.write (h : c.Accepts channel) (bytes : Bytes) :
    Console.write channel bytes c = .ok () (Console.tryWrite channel bytes c) := by
  have hnext := Writer.Accepting.next h
  unfold Console.tryWrite Console.write
  generalize (c.writer channel).next = answer at hnext
  obtain ⟨answer, w⟩ := answer
  obtain ⟨rfl, -⟩ := hnext
  rfl

theorem Accepts.written_tryWrite (h : c.Accepts channel) (bytes : Bytes) :
    (Console.tryWrite channel bytes c).written = c.written ++ [(channel, bytes)] := by
  have hwritten := written_write channel bytes c
  rw [h.write] at hwritten
  exact hwritten

/-- A print that is accepted makes its writes. -/
theorem Accepts.print {s : PrintStream} (h : c.Accepts s.channel) (colorEnabled : Bool)
    (text : Bytes) : ∃ d, s.print colorEnabled text c = .ok () d ∧ d.Accepts s.channel ∧
      d.written = c.written ++ (s.writes colorEnabled text).map (s.channel, ·) := by
  rcases plain_or_colored s colorEnabled with hplain | ⟨codes, hcolor, rfl⟩
  · rw [print_plain text hplain, PrintStream.writes_plain hplain]
    exact ⟨_, h.write text, h.tryWrite _ _, h.written_tryWrite text⟩
  · have hbefore := h.tryWrite s.channel (PrintStream.attributes codes)
    have htext := hbefore.tryWrite s.channel text
    rw [print_colored hcolor, hbefore.write]
    refine ⟨_, rfl, htext.tryWrite _ _, ?_⟩
    rw [htext.written_tryWrite, hbefore.written_tryWrite, h.written_tryWrite,
      PrintStream.writes, hcolor]
    simp

/-- A print method whose writes are accepted shows its texts. -/
theorem Accepts.routine {routine : Routine} {s : PrintStream} (h : c.Accepts s.channel)
    {colorEnabled : Bool} {text : Bytes} {texts : List Bytes}
    (htexts : routine.writes? s colorEnabled text = some texts) :
    ∃ action, routine.print? s colorEnabled text = some action ∧
      (ConsoleM.after action c).written = c.written ++ texts.map (s.channel, ·) := by
  obtain ⟨d, hprint, haccepts, hwritten⟩ := h.print colorEnabled text
  cases routine with
  | print =>
    cases htexts
    refine ⟨_, rfl, ?_⟩
    rw [ConsoleM.after, hprint]
    exact hwritten
  | println =>
    cases htexts
    refine ⟨_, rfl, ?_⟩
    unfold PrintStream.println
    rw [ConsoleM.after, bind_of_ok hprint, haccepts.write]
    dsimp only
    rw [haccepts.written_tryWrite, hwritten, List.append_assoc, List.map_append]
    rfl
  | _ => cases htexts

/-- A property of what stands behind the channels that every write keeps. -/
structure Lasting (P : Console → Prop) : Prop where
  same : ∀ {c d : Console}, c.SameWriters d → P c → P d
  write : ∀ {c : Console} (channel : Channel) (bytes : Bytes), P c → P (tryWrite channel bytes c)

theorem lasting_accepts (channel : Channel) : Lasting fun c => c.Accepts channel where
  same h hc := by
    unfold Accepts
    rw [h.writer]
    exact hc
  write other bytes hc := hc.tryWrite other bytes

def Unlocated (c : Console) : Prop := ∀ channel, (c.writer channel).Unlocated

theorem lasting_unlocated : Lasting Unlocated where
  same h hc channel := by
    rw [h.writer]
    exact hc channel
  write channel bytes hc other := by
    rw [writer_tryWrite]
    split
    · exact (hc channel).next.2
    · exact hc other

/-- A refused write has an error without a location. -/
theorem Unlocated.write {error : OutsideError} (hc : c.Unlocated)
    (h : Console.write channel bytes c = .error error d) : error.location = none := by
  have hnext := (hc channel).next.1
  unfold Console.write at h
  split at h
  · cases h
  · rename_i e w heq
    cases h
    rw [heq] at hnext
    exact hnext _ rfl

/-- What a print is refused with has no location then. -/
theorem Unlocated.print {error : OutsideError} (hc : c.Unlocated) {routine : Routine}
    {s : PrintStream} {colorEnabled : Bool} {text : Bytes} {action : ConsoleM Unit}
    (haction : routine.print? s colorEnabled text = some action)
    (h : action c = .error error d) : error.location = none := by
  have hprint : ∀ {d}, s.print colorEnabled text c = .error error d → error.location = none := by
    intro d h
    rcases plain_or_colored s colorEnabled with hplain | ⟨codes, hcolor, rfl⟩
    · rw [print_plain text hplain] at h
      exact hc.write h
    · rw [print_colored hcolor] at h
      have hbefore := lasting_unlocated.write s.channel (PrintStream.attributes codes) hc
      split at h
      · cases h
      · rename_i e d' hwrite
        cases h
        exact hbefore.write hwrite
  cases routine with
  | print =>
    cases haction
    exact hprint h
  | println =>
    cases haction
    change EStateM.bind (s.print colorEnabled text)
      (fun _ => Console.write s.channel _) c = _ at h
    unfold EStateM.bind at h
    split at h
    · rename_i d' hok
      have hafter := after_print (fun _ bytes hc => lasting_unlocated.write s.channel bytes hc)
        (rfl : Routine.print.print? s colorEnabled text = some _) rfl hc
      unfold ConsoleM.after at hafter
      rw [hok] at hafter
      exact Unlocated.write hafter h
    · rename_i e d' herror
      cases h
      exact hprint herror
  | _ => cases haction

end Console

theorem Routine.writes?_of_print? {routine : Routine} {s : PrintStream} {colorEnabled : Bool}
    {text : Bytes} {action : ConsoleM Unit}
    (h : routine.print? s colorEnabled text = some action) :
    ∃ texts, routine.writes? s colorEnabled text = some texts := by
  cases routine with
  | print | println => exact ⟨_, rfl⟩
  | _ => cases h

namespace Machine

/-- The next instruction calls a print method on a stream, which makes the writes on its
channel. -/
inductive PrintsTexts (m : Machine) : Channel → List Bytes → Prop
  | intro {f : Frame} {routine : Routine} {signature : Signature} {id : Int} {args : List Value}
      {below : Stack} {s : PrintStream} {texts : List Bytes}
      (h : m.CallsLibrary f routine signature id args below)
      (hget : m.heap.get? id = some (.stream s))
      (htexts : routine.writes? s m.settings.colorEnabled
        (printText m.heap ⟨signature, .ref id, args⟩) = some texts) :
        PrintsTexts m s.channel texts

/-- On some way from `start` to the machine, these texts were printed, each on its channel. -/
inductive Printed (Pushable : Machine → Value → Prop) (start : Machine) :
    Machine → List (Channel × Bytes) → Prop
  | start : Printed Pushable start start []
  | print {m m' : Machine} {printed : List (Channel × Bytes)} {channel : Channel}
      {texts : List Bytes} (h : Printed Pushable start m printed) (ht : Transition Pushable m m')
      (hp : m.PrintsTexts channel texts) :
      Printed Pushable start m' (printed ++ texts.map (channel, ·))
  | other {m m' : Machine} {printed : List (Channel × Bytes)}
      (h : Printed Pushable start m printed) (ht : Transition Pushable m m')
      (hother : ∀ channel texts, ¬ m.PrintsTexts channel texts) :
      Printed Pushable start m' printed

variable {Pushable : Machine → Value → Prop} {start m m' : Machine}
  {printed : List (Channel × Bytes)}

/-- After a print the texts are those that it leaves, whether or not the step succeeds in the
end. -/
theorem PrintsTexts.after {channel : Channel} {texts : List Bytes}
    (h : m.PrintsTexts channel texts) (ht : Transition Pushable m m') :
    ∃ (routine : Routine) (s : PrintStream) (colorEnabled : Bool)
      (text : Bytes) (action : ConsoleM Unit), s.channel = channel ∧
      routine.writes? s colorEnabled text = some texts ∧
      routine.print? s colorEnabled text = some action ∧
      (ConsoleM.after action m.console).SameTexts m'.console := by
  obtain @⟨f, routine, signature, id, args, below, s, texts, hcalls, hget, htexts⟩ := h
  rcases ht.changes with halike | ⟨hm, -⟩
  · rw [hcalls.change] at halike
    simp only [Routine.change, hget] at halike
    cases routine with
    | print => exact ⟨.print, s, _, _, _, rfl, htexts, rfl, halike.console⟩
    | println => exact ⟨.println, s, _, _, _, rfl, htexts, rfl, halike.console⟩
    | _ => cases htexts
  · exact absurd hm hcalls.frames_ne

/-- A print that is accepted shows its writes. -/
theorem PrintsTexts.shows {channel : Channel} {texts : List Bytes}
    (h : m.PrintsTexts channel texts) (ht : Transition Pushable m m')
    (hc : m.console.Accepts channel) :
    m'.console.written = m.console.written ++ texts.map (channel, ·) := by
  obtain ⟨routine, s, colorEnabled, text, action, rfl, htexts, haction, hsame⟩ := h.after ht
  obtain ⟨action', haction', hwritten⟩ := hc.routine htexts
  cases haction.symm.trans haction'
  rw [hsame.written, hwritten]

/-- Accepted or not, it shows nothing on another channel. -/
theorem PrintsTexts.textOn_other {channel other : Channel} {texts : List Bytes}
    (h : m.PrintsTexts channel texts) (ht : Transition Pushable m m') (hne : channel ≠ other) :
    textOn other m'.console.written = textOn other m.console.written := by
  obtain ⟨routine, s, colorEnabled, text, action, hs, -, haction, hsame⟩ := h.after ht
  rw [hsame.written]
  exact Console.after_print
    (P := fun c => textOn other c.written = textOn other m.console.written)
    (fun c bytes hc => (Console.textOn_tryWrite hne).trans hc) haction hs rfl

/-- Nothing else shows texts. -/
theorem Transition.sameTexts (ht : Transition Pushable m m')
    (hother : ∀ channel texts, ¬ m.PrintsTexts channel texts) :
    m.console.SameTexts m'.console := by
  rcases ht.changes with halike | ⟨hm, args, rfl⟩
  · have hconsole := halike.console
    have hoccasion := m.change_occasion
    generalize m.change = c at hoccasion hconsole
    cases hoccasion with
    | printed hcalls hget haction =>
      obtain ⟨texts, htexts⟩ := Routine.writes?_of_print? haction
      exact absurd (.intro hcalls hget htexts) (hother _ texts)
    | _ => exact hconsole
  · exact .refl _

/-- What writes keep is kept by every transition. -/
theorem Transition.lasting {P : Console → Prop} (hP : Console.Lasting P)
    (ht : Transition Pushable m m') (hm : P m.console) : P m'.console := by
  by_cases hp : ∃ channel texts, m.PrintsTexts channel texts
  · obtain ⟨channel, texts, hp⟩ := hp
    obtain ⟨routine, s, colorEnabled, text, action, hs, -, haction, hsame⟩ := hp.after ht
    refine hP.same hsame.toSameWriters ?_
    exact Console.after_print (fun c bytes hc => hP.write channel bytes hc) haction hs hm
  · exact hP.same (ht.sameTexts fun channel texts h => hp ⟨channel, texts, h⟩).toSameWriters hm

/-- What writes keep is kept on every way of the host. -/
theorem Reaches.lasting {P : Console → Prop} (hP : Console.Lasting P)
    (h : Reaches Pushable start m) (hstart : P start.console) : P m.console := by
  induction h with
  | refl => exact hstart
  | tail _ ht ih => exact ht.lasting hP ih

/-- A channel that accepts all writes goes on doing so. -/
theorem Printed.accepts {channel : Channel} (h : Printed Pushable start m printed)
    (hc : start.console.Accepts channel) : m.console.Accepts channel := by
  induction h with
  | start => exact hc
  | print _ ht _ ih => exact ht.lasting (Console.lasting_accepts channel) ih
  | other _ ht _ ih => exact ht.lasting (Console.lasting_accepts channel) ih

/-- If all writes on a channel are accepted, the texts shown there are those that were printed
there. -/
theorem Printed.textOn {channel : Channel} (h : Printed Pushable start m printed)
    (hc : start.console.Accepts channel) : ClassTrace.textOn channel m.console.written =
      ClassTrace.textOn channel start.console.written ++ ClassTrace.textOn channel printed := by
  induction h with
  | start => exact (List.append_nil _).symm
  | @print m m' printed other texts h ht hp ih =>
    rw [textOn_append, ← List.append_assoc, ← ih]
    by_cases heq : other = channel
    · subst heq
      rw [hp.shows ht (h.accepts hc), textOn_append]
    · rw [hp.textOn_other ht heq, ClassTrace.textOn_other heq, List.append_nil]
  | other h ht hother ih => rw [(ht.sameTexts hother).written, ih]

/-- If all writes are accepted, the texts shown are those that were printed. -/
theorem Printed.written (h : Printed Pushable start m printed)
    (hc : ∀ channel, start.console.Accepts channel) :
    m.console.written = start.console.written ++ printed := by
  induction h with
  | start => exact (List.append_nil _).symm
  | @print m m' printed channel texts h ht hp ih =>
    rw [hp.shows ht (h.accepts (hc channel)), ih, List.append_assoc]
  | other h ht hother ih => rw [(ht.sameTexts hother).written, ih]

end Machine

end ClassTrace
