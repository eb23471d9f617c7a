import ClassTrace.Console
import ClassTrace.Proofs.Action

/-!
Actions that end alike. Two runs from related states are compared by what they return, by their
errors and by the states that they leave, save that some errors of the first excuse it. Prints are
compared here too: they are made of writes, so they end alike wherever writes do.
-/
namespace ClassTrace

/-- The second result is like the first, unless the first is an error that is excused. -/
inductive Agrees {ε σ α β : Type} (R : σ → σ → Prop) (Excused : ε → Prop) (Q : α → β → Prop) :
    EStateM.Result ε σ α → EStateM.Result ε σ β → Prop
  | ok {a : α} {b : β} {s t : σ} : Q a b → R s t → Agrees R Excused Q (.ok a s) (.ok b t)
  | error {e : ε} {s t : σ} : R s t → Agrees R Excused Q (.error e s) (.error e t)
  | excused {e : ε} {s : σ} {r : EStateM.Result ε σ β} :
      Excused e → Agrees R Excused Q (.error e s) r

/-- From related states the second action ends like the first. -/
def Follows {ε σ α β : Type} (R : σ → σ → Prop) (Excused : ε → Prop) (Q : α → β → Prop)
    (x : EStateM ε σ α) (y : EStateM ε σ β) : Prop :=
  ∀ s t, R s t → Agrees R Excused Q (x s) (y t)

namespace Follows

variable {ε σ α β γ δ : Type} {R : σ → σ → Prop} {Excused : ε → Prop}

theorem of_pure {Q : α → β → Prop} {a : α} {b : β} (h : Q a b) :
    Follows R Excused Q (pure a) (pure b) := fun _ _ hst => .ok h hst

theorem of_throw {Q : α → β → Prop} (e : ε) :
    Follows R Excused Q (throw e) (throw e) := fun _ _ hst => .error hst

theorem bind {Q : α → β → Prop} {P : γ → δ → Prop} {x : EStateM ε σ α} {y : EStateM ε σ β}
    {f : α → EStateM ε σ γ} {g : β → EStateM ε σ δ} (hx : Follows R Excused Q x y)
    (hf : ∀ a b, Q a b → Follows R Excused P (f a) (g b)) :
    Follows R Excused P (x >>= f) (y >>= g) := by
  intro s t hst
  have h := hx s t hst
  change Agrees R Excused P (EStateM.bind x f s) (EStateM.bind y g t)
  unfold EStateM.bind
  generalize x s = r at h
  generalize y t = r' at h
  cases h with
  | ok hab hst' => exact hf _ _ hab _ _ hst'
  | error hst' => exact .error hst'
  | excused he => exact .excused he

theorem of_get : Follows R Excused R (get : EStateM ε σ σ) get := fun _ _ hst => .ok hst hst

theorem of_modify {f g : σ → σ} (h : ∀ s t, R s t → R (f s) (g t)) :
    Follows R Excused Eq (modify f : EStateM ε σ PUnit) (modify g) :=
  fun s t hst => .ok rfl (h s t hst)

/-- Nothing that follows a thrown error is run. -/
theorem of_throw_bind {P : γ → δ → Prop} (e : ε) {f : α → EStateM ε σ γ} {g : β → EStateM ε σ δ} :
    Follows R Excused P (throw e >>= f) (throw e >>= g) :=
  bind (Q := fun _ _ => False) (of_throw e) fun _ _ h => h.elim

end Follows

namespace Console

/-- Writes on consoles that `R` relates are accepted or refused alike. -/
def Respected (R : Console → Console → Prop) : Prop :=
  ∀ channel bytes, Follows R (fun _ => False) Eq (write channel bytes) (write channel bytes)

variable {R : Console → Console → Prop}

theorem Respected.tryWrite (h : Respected R) {c d : Console} (hcd : R c d) (channel : Channel)
    (bytes : Bytes) : R (tryWrite channel bytes c) (tryWrite channel bytes d) := by
  have hwrite := h channel bytes c d hcd
  unfold Console.tryWrite
  generalize write channel bytes c = r at hwrite
  generalize write channel bytes d = r' at hwrite
  cases hwrite with
  | ok _ h' => exact h'
  | error h' => exact h'
  | excused hf => exact hf.elim

/-- In color, the writes of the attributes go before and after that of the text. -/
theorem print_colored {s : PrintStream} {codes : List Nat} (hcolor : s.color = some codes)
    (text : Bytes) (c : Console) : s.print true text c =
      match write s.channel text (tryWrite s.channel (PrintStream.attributes codes) c) with
      | .ok _ d => .ok () (tryWrite s.channel (PrintStream.attributes [0]) d)
      | .error e d => .error e (tryWrite s.channel (PrintStream.attributes [0]) d) := by
  unfold PrintStream.print
  rw [hcolor]
  rfl

theorem print_plain {s : PrintStream} {colorEnabled : Bool} (text : Bytes)
    (hplain : s.color = none ∨ colorEnabled = false) :
    s.print colorEnabled text = write s.channel text := by
  unfold PrintStream.print
  rcases hplain with hcolor | rfl
  · rw [hcolor]
  · cases s.color with
    | none => rfl
    | some codes => rfl

/-- A stream prints in color if it has one and colors are not turned off. -/
theorem plain_or_colored (s : PrintStream) (colorEnabled : Bool) :
    (s.color = none ∨ colorEnabled = false) ∨
      ∃ codes, s.color = some codes ∧ colorEnabled = true := by
  cases hcolor : s.color with
  | none => exact .inl (.inl rfl)
  | some codes =>
    cases colorEnabled with
    | false => exact .inl (.inr rfl)
    | true => exact .inr ⟨codes, rfl, rfl⟩

/-- Prints are accepted or refused alike where single writes are. -/
theorem Respected.print (h : Respected R) (s : PrintStream) (colorEnabled : Bool) (text : Bytes) :
    Follows R (fun _ => False) Eq (s.print colorEnabled text) (s.print colorEnabled text) := by
  rcases plain_or_colored s colorEnabled with hplain | ⟨codes, hcolor, rfl⟩
  · rw [print_plain text hplain]
    exact h s.channel text
  · intro c d hcd
    have hwrite := h s.channel text _ _ (h.tryWrite hcd s.channel (PrintStream.attributes codes))
    rw [print_colored hcolor, print_colored hcolor]
    generalize write s.channel text _ = r at hwrite
    generalize write s.channel text _ = r' at hwrite
    cases hwrite with
    | ok _ h' => exact .ok rfl (h.tryWrite h' _ _)
    | error h' => exact .error (h.tryWrite h' _ _)
    | excused hf => exact hf.elim

theorem Respected.println (h : Respected R) (s : PrintStream) (colorEnabled : Bool)
    (text : Bytes) :
    Follows R (fun _ => False) Eq (s.println colorEnabled text) (s.println colorEnabled text) :=
  (h.print s colorEnabled text).bind fun _ _ _ => h s.channel _

structure SameWriters (c d : Console) : Prop where
  out : d.out = c.out
  err : d.err = c.err

theorem SameWriters.writer {c d : Console} (h : SameWriters c d) (channel : Channel) :
    d.writer channel = c.writer channel := by
  cases channel with
  | out => exact h.out
  | err => exact h.err

theorem SameWriters.setWriter {c d : Console} (h : SameWriters c d) (w : Writer)
    (channel : Channel) : SameWriters (c.setWriter w channel) (d.setWriter w channel) := by
  cases channel with
  | out => exact ⟨rfl, h.err⟩
  | err => exact ⟨h.out, rfl⟩

def written (c : Console) : List (Channel × Bytes) :=
  c.shown.toList.filterMap fun o => match o with
    | .text channel bytes => some (channel, bytes)
    | .log _ => none

theorem written_add (c : Console) (o : Output) : (c.add o).written = c.written ++ (match o with
    | .text channel bytes => [(channel, bytes)]
    | .log _ => []) := by
  unfold written add
  rw [Array.toList_push, List.filterMap_append]
  cases o with
  | text channel bytes => rfl
  | log r => rfl

theorem written_setWriter (c : Console) (w : Writer) (channel : Channel) :
    (c.setWriter w channel).written = c.written := by
  cases channel <;> rfl

/-- What is shown has no influence on writes. -/
theorem respected_sameWriters : Respected SameWriters := by
  intro channel bytes c d h
  unfold write
  rw [h.writer channel]
  obtain ⟨answer, w⟩ := (c.writer channel).next
  have hset := h.setWriter w channel
  cases answer with
  | none => exact .ok rfl ⟨hset.out, hset.err⟩
  | some e => exact .error hset

structure SameTexts (c d : Console) : Prop extends SameWriters c d where
  written : d.written = c.written

theorem SameTexts.refl (c : Console) : SameTexts c c := ⟨⟨rfl, rfl⟩, rfl⟩

theorem SameTexts.symm {c d : Console} (h : SameTexts c d) : SameTexts d c :=
  ⟨⟨h.out.symm, h.err.symm⟩, h.written.symm⟩

theorem SameTexts.trans {c d e : Console} (h : SameTexts c d) (h' : SameTexts d e) :
    SameTexts c e :=
  ⟨⟨h'.out.trans h.out, h'.err.trans h.err⟩, h'.written.trans h.written⟩

theorem sameTexts_log (c : Console) (r : LogRecord) : SameTexts c (c.add (.log r)) :=
  ⟨⟨rfl, rfl⟩, by rw [written_add, List.append_nil]⟩

theorem SameTexts.log {c d : Console} (h : SameTexts c d) (r r' : LogRecord) :
    SameTexts (c.add (.log r)) (d.add (.log r')) :=
  ((sameTexts_log c r).symm.trans h).trans (sameTexts_log d r')

/-- A write that is accepted adds its text, one that is refused adds nothing. -/
theorem written_write (channel : Channel) (bytes : Bytes) (c : Console) :
    match write channel bytes c with
    | .ok _ d => d.written = c.written ++ [(channel, bytes)]
    | .error _ d => d.written = c.written := by
  unfold write
  obtain ⟨answer, w⟩ := (c.writer channel).next
  cases answer with
  | none =>
    refine (written_add _ (.text channel bytes)).trans ?_
    rw [written_setWriter]
  | some e => exact written_setWriter c w channel

/-- Consoles with the same writers and texts cannot be told apart by a write. -/
theorem respected_sameTexts : Respected SameTexts := by
  intro channel bytes c d h
  have hwriters := respected_sameWriters channel bytes c d h.toSameWriters
  have hc := written_write channel bytes c
  have hd := written_write channel bytes d
  generalize write channel bytes c = r at hwriters hc
  generalize write channel bytes d = r' at hwriters hd
  cases hwriters with
  | ok _ h' => exact .ok rfl ⟨h', by rw [hd, hc, h.written]⟩
  | error h' => exact .error ⟨h', by rw [hd, hc, h.written]⟩
  | excused hf => exact hf.elim

end Console

end ClassTrace
