import ClassTrace.Program.Load
import ClassTrace.Proofs.StackSlots
import ClassTrace.Proofs.StepEvents

/-!
The instructions that shuffle the operand stack, seen from its slots. Each of them works on a few
slots at the top and on a few below these. On a stack where these slots are those of whole values
it does with the values what it stands for on slots. Elsewhere some of the instructions fail, and
the others take a long or a double for a single slot.
-/
namespace ClassTrace

namespace Frame

variable {f : Frame} {n : Nat}

def popSlots : Nat → FrameM Stack
  | 0 => pure []
  | 1 => do return [← pop]
  | _ => do
    let v ← pop
    if v.isWide then return [v] else return [v, ← pop]

theorem popSlots_ok {a below : Stack} (ha : Stack.Piece n a) (hf : f.stack = a ++ below) :
    popSlots n f = .ok a { f with stack := below } := by
  obtain ⟨method, locals, stack, pc, opPc, returnPc⟩ := f
  obtain rfl : stack = a ++ below := hf
  cases ha with
  | none => rfl
  | one v => rfl
  | wide hv =>
    change (if _ then _ else _ : FrameM Stack) _ = _
    rw [if_pos hv]
    rfl
  | two hv w =>
    change (if _ then _ else _ : FrameM Stack) _ = _
    rw [if_neg (by rw [hv]; exact Bool.false_ne_true)]
    rfl

/-- It fails only if there are too few. -/
theorem popSlots_error (hn : n ≤ 2) (h : ∀ a below, f.stack = a ++ below → ¬ Stack.Piece n a) :
    f.stack.length < n ∧ ∃ f', popSlots n f = .error .stackEmpty f' := by
  obtain ⟨method, locals, stack, pc, opPc, returnPc⟩ := f
  have hcases : n = 0 ∨ n = 1 ∨ n = 2 := by omega
  rcases hcases with rfl | rfl | rfl
  · exact absurd .none (h [] stack rfl)
  · cases stack with
    | nil => exact ⟨Nat.one_pos, _, rfl⟩
    | cons v below => exact absurd (.one v) (h [v] below rfl)
  · rcases stack with _ | ⟨v, below⟩
    · exact ⟨Nat.two_pos, _, rfl⟩
    · cases hv : v.isWide with
      | true => exact absurd (.wide hv) (h [v] below rfl)
      | false =>
        cases below with
        | nil =>
          refine ⟨Nat.one_lt_two, ⟨method, locals, [], pc, opPc, returnPc⟩, ?_⟩
          change (if _ then _ else _ : FrameM Stack) _ = _
          rw [if_neg (by rw [hv]; exact Bool.false_ne_true)]
          rfl
        | cons w below => exact absurd (.two hv w) (h [v, w] below rfl)

theorem push_room {v : Value} (h : f.stack.length < f.method.maxStack) :
    push v f = .ok () { f with stack := v :: f.stack } := if_pos h

theorem push_full {v : Value} (h : ¬ f.stack.length < f.method.maxStack) :
    push v f = .error (.stackFull f.method.maxStack) f := if_neg h

theorem pushAll_room (vs : List Value) (h : f.stack.length + vs.length ≤ f.method.maxStack) :
    pushAll vs f = .ok () { f with stack := vs.reverse ++ f.stack } := by
  induction vs generalizing f with
  | nil => rfl
  | cons v vs ih =>
    rw [List.length_cons] at h
    unfold pushAll
    rw [bind_of_ok (push_room (by omega)), ih (by simp only [List.length_cons]; omega),
      List.reverse_cons, List.append_assoc]
    rfl

/-- If there is no room for all values, some of them are pushed and then it is a fault. -/
theorem pushAll_full {vs : List Value} (hne : vs ≠ [])
    (h : f.method.maxStack < f.stack.length + vs.length) :
    ∃ f', pushAll vs f = .error (.stackFull f.method.maxStack) f' := by
  induction vs generalizing f with
  | nil => exact absurd rfl hne
  | cons v vs ih =>
    rw [List.length_cons] at h
    unfold pushAll
    by_cases hroom : f.stack.length < f.method.maxStack
    · rw [bind_of_ok (push_room hroom)]
      refine ih ?_ (by simp only [List.length_cons]; omega)
      rintro rfl
      rw [List.length_nil] at h
      omega
    · exact ⟨f, bind_of_error (push_full hroom)⟩

end Frame

namespace Shuffle

def opcode : Shuffle → UInt8
  | .pop => 0x57
  | .pop2 => 0x58
  | .dup => 0x59
  | .dupX1 => 0x5A
  | .dupX2 => 0x5B
  | .dup2 => 0x5C
  | .dup2X1 => 0x5D
  | .dup2X2 => 0x5E
  | .swap => 0x5F

/-- How many slots at the top the instruction drops, copies or exchanges. -/
def top : Shuffle → Nat
  | .pop | .dup | .dupX1 | .dupX2 | .swap => 1
  | .pop2 | .dup2 | .dup2X1 | .dup2X2 => 2

/-- How many slots below these it copies them past or exchanges them with. -/
def next : Shuffle → Nat
  | .pop | .pop2 | .dup | .dup2 => 0
  | .dupX1 | .dup2X1 | .swap => 1
  | .dupX2 | .dup2X2 => 2

def replace {α : Type} (top next : List α) : Shuffle → List α
  | .pop | .pop2 => []
  | .dup | .dupX1 | .dupX2 | .dup2 | .dup2X1 | .dup2X2 => top ++ next ++ top
  | .swap => next ++ top

def onSlots {α : Type} (s : Shuffle) (slots : List α) : List α :=
  s.replace (slots.take s.top) ((slots.drop s.top).take s.next) ++ slots.drop (s.top + s.next)

/-- The forms of the instruction: the categories of the values that it may find, the top first. -/
def forms : Shuffle → List (List Category)
  | .pop | .dup => [[.one]]
  | .pop2 | .dup2 => [[.one, .one], [.two]]
  | .dupX1 | .swap => [[.one, .one]]
  | .dupX2 => [[.one, .one, .one], [.one, .two]]
  | .dup2X1 => [[.one, .one, .one], [.two, .one]]
  | .dup2X2 => [[.one, .one, .one, .one], [.one, .one, .two], [.two, .one, .one], [.two, .two]]

def Matches (s : Shuffle) (stack : Stack) : Prop :=
  ∃ form ∈ s.forms, form <+: stack.map Value.category

instance (s : Shuffle) (stack : Stack) : Decidable (s.Matches stack) :=
  inferInstanceAs (Decidable (∃ form ∈ s.forms, form <+: stack.map Value.category))

/-- Whether the instruction looks at the categories of all values that it takes. -/
def isChecked : Shuffle → Bool
  | .pop | .pop2 | .dup | .dupX1 | .swap => true
  | .dupX2 | .dup2 | .dup2X1 | .dup2X2 => false

structure Splits (s : Shuffle) (stack top next below : Stack) : Prop where
  stack : stack = top ++ (next ++ below)
  top : Stack.Piece s.top top
  next : Stack.Piece s.next next

def Fills (s : Shuffle) (top next : Stack) : Prop :=
  (Stack.asSlots top).length = s.top ∧ (Stack.asSlots next).length = s.next

instance (s : Shuffle) (top next : Stack) : Decidable (s.Fills top next) :=
  inferInstanceAs (Decidable (_ ∧ _))

theorem decode_opcode (s : Shuffle) :
    Instruction.decode s.opcode = pure (.operate (.shuffle s)) := by
  cases s <;> rfl

theorem top_le (s : Shuffle) : s.top ≤ 2 := by
  cases s <;> decide

theorem next_le (s : Shuffle) : s.next ≤ 2 := by
  cases s <;> decide

variable {s : Shuffle} {f : Frame} {stack top next below : Stack}

/-- A stack splits in one way. -/
theorem Splits.unique {top' next' below' : Stack} (h : s.Splits stack top next below)
    (h' : s.Splits stack top' next' below') : top = top' ∧ next = next' ∧ below = below' := by
  obtain ⟨rfl, hrest⟩ := h.top.unique h'.top (h.stack.symm.trans h'.stack)
  exact ⟨rfl, h.next.unique h'.next hrest⟩

inductive Result (s : Shuffle) (f : Frame) : EStateM.Result Fault Frame Unit → Prop
  | few (h : ∀ top next below, ¬ s.Splits f.stack top next below)
      (hlength : f.stack.length < s.top + s.next) (f' : Frame) :
      Result s f (.error .stackEmpty f')
  | misfit {top next below : Stack} (h : s.Splits f.stack top next below)
      (hs : s.isChecked = true) (hfills : ¬ s.Fills top next) (f' : Frame) :
      Result s f (.error (.splitWide s) f')
  | full {top next below : Stack} (h : s.Splits f.stack top next below)
      (hfills : s.isChecked = true → s.Fills top next)
      (hfull : f.method.maxStack < (s.replace top next ++ below).length) (f' : Frame) :
      Result s f (.error (.stackFull f.method.maxStack) f')
  | done {top next below : Stack} (h : s.Splits f.stack top next below)
      (hfills : s.isChecked = true → s.Fills top next)
      (hroom : s.replace top next = [] ∨ (s.replace top next ++ below).length ≤
        f.method.maxStack) :
      Result s f (.ok () { f with stack := s.replace top next ++ below })

/-- The instruction in terms of the pieces that it takes. -/
def plan (s : Shuffle) : FrameM Unit := do
  let top ← Frame.popSlots s.top
  let next ← Frame.popSlots s.next
  if s.isChecked = true ∧ ¬ s.Fills top next then throw (.splitWide s)
  else Frame.pushAll (s.replace top next).reverse

/-- Replacing the pieces is a success unless it takes more room than there is. -/
theorem replaced_result (h : s.Splits f.stack top next below)
    (hfills : s.isChecked = true → s.Fills top next) :
    s.Result f (Frame.pushAll (s.replace top next).reverse { f with stack := below }) := by
  by_cases hroom : (s.replace top next ++ below).length ≤ f.method.maxStack
  · rw [Frame.pushAll_room _ (by simpa [Nat.add_comm] using hroom), List.reverse_reverse]
    exact .done h hfills (.inr hroom)
  · by_cases hnil : s.replace top next = []
    · have hdone := Result.done h hfills (.inl hnil)
      rw [hnil] at hdone ⊢
      exact hdone
    · obtain ⟨f', hfull⟩ := Frame.pushAll_full (f := { f with stack := below })
        (mt List.reverse_eq_nil_iff.mp hnil) (by simpa [Nat.add_comm] using hroom)
      rw [hfull]
      exact .full h hfills (Nat.lt_of_not_le hroom) f'

/-- The plan of an instruction comes to one of its results. -/
theorem plan_result (s : Shuffle) (f : Frame) : s.Result f (s.plan f) := by
  unfold plan
  by_cases htop : ∃ top rest, f.stack = top ++ rest ∧ Stack.Piece s.top top
  · obtain ⟨top, rest, hf, htop⟩ := htop
    rw [bind_of_ok (Frame.popSlots_ok htop hf)]
    by_cases hnext : ∃ next below, rest = next ++ below ∧ Stack.Piece s.next next
    · obtain ⟨next, below, rfl, hnext⟩ := hnext
      have hsplits : s.Splits f.stack top next below := ⟨hf, htop, hnext⟩
      rw [bind_of_ok (Frame.popSlots_ok hnext rfl)]
      by_cases hmisfit : s.isChecked = true ∧ ¬ s.Fills top next
      · rw [if_pos hmisfit]
        exact .misfit hsplits hmisfit.1 hmisfit.2 _
      · rw [if_neg hmisfit]
        exact replaced_result hsplits (by simpa using hmisfit)
    · obtain ⟨hlength, f', hpop⟩ := Frame.popSlots_error (f := { f with stack := rest }) s.next_le
        fun next below hrest hp => hnext ⟨next, below, hrest, hp⟩
      rw [bind_of_error hpop]
      refine .few (fun top' next' below' h => hnext ?_) ?_ f'
      · obtain ⟨rfl, rfl⟩ := htop.unique h.top (hf.symm.trans h.stack)
        exact ⟨next', below', rfl, h.next⟩
      · have hle := htop.length_le
        rw [hf, List.length_append]
        exact Nat.add_lt_add_of_le_of_lt hle hlength
  · obtain ⟨hlength, f', hpop⟩ := Frame.popSlots_error s.top_le
      fun top rest hf hp => htop ⟨top, rest, hf, hp⟩
    rw [bind_of_error hpop]
    exact .few (fun top next below h => htop ⟨top, next ++ below, h.stack, h.top⟩)
      (Nat.lt_add_right _ hlength) f'

theorem throw_bind {α : Type} (e : Fault) (g : α → FrameM Unit) :
    (throw e : FrameM α) >>= g = throw e := rfl

/-- Every instruction but `dup`, which does not pop, follows its plan. -/
theorem run_eq_plan (hs : s ≠ .dup) : s.run = s.plan := by
  cases s with
  | dup => exact absurd rfl hs
  | pop =>
    simp only [run, Frame.pop1, plan, Shuffle.top, Shuffle.next, Frame.popSlots, bind_assoc,
      pure_bind]
    refine bind_congr fun v => ?_
    cases hv : v.isWide <;>
      simp [isChecked, Fills, Shuffle.top, Shuffle.next, Stack.asSlots, Value.asSlots, hv,
        replace, Frame.pushAll]
  | pop2 =>
    simp only [run, Frame.pop2, plan, Shuffle.top, Shuffle.next, Frame.popSlots, bind_assoc,
      pure_bind]
    refine bind_congr fun v => ?_
    cases hv : v.isWide with
    | false =>
      simp only [Bool.not_false, Bool.false_eq_true, if_true, if_false, bind_assoc, pure_bind]
      refine bind_congr fun w => ?_
      cases hw : w.isWide <;>
        simp [isChecked, Fills, Shuffle.top, Shuffle.next, Stack.asSlots, Value.asSlots, hv,
          hw, replace, Frame.pushAll]
    | true =>
      simp [isChecked, Fills, Shuffle.top, Shuffle.next, Stack.asSlots, Value.asSlots, hv,
        replace, Frame.pushAll]
  | dupX1 | swap =>
    simp only [run, Frame.dupX1, Frame.swap, plan, Shuffle.top, Shuffle.next, Frame.popSlots,
      bind_assoc, pure_bind]
    refine bind_congr fun v => bind_congr fun w => ?_
    cases hv : v.isWide <;> cases hw : w.isWide <;>
      simp [isChecked, Fills, Shuffle.top, Shuffle.next, Stack.asSlots, Value.asSlots, hv, hw,
        replace, throw_bind]
  | dupX2 =>
    simp only [run, Frame.dupX2, plan, Shuffle.top, Shuffle.next, Frame.popSlots, bind_assoc,
      pure_bind]
    refine bind_congr fun v => bind_congr fun w => ?_
    cases w.isWide <;> simp [isChecked, replace]
  | dup2 | dup2X1 =>
    simp only [run, Frame.dup2, Frame.dup2X1, plan, Shuffle.top, Shuffle.next, Frame.popSlots,
      bind_assoc, pure_bind]
    refine bind_congr fun v => ?_
    cases v.isWide <;> simp [isChecked, replace]
  | dup2X2 =>
    simp only [run, Frame.dup2X2, plan, Shuffle.top, Shuffle.next, Frame.popSlots, bind_assoc]
    refine bind_congr fun v => ?_
    cases v.isWide with
    | false =>
      simp only [Bool.false_and, Bool.false_eq_true, if_false, bind_assoc, pure_bind]
      refine bind_congr fun w => bind_congr fun x => ?_
      cases x.isWide <;> simp [isChecked, replace]
    | true =>
      simp only [Bool.true_and, if_true, pure_bind]
      refine bind_congr fun w => ?_
      cases w.isWide <;> simp [isChecked, replace]

theorem dup_result (f : Frame) : Shuffle.dup.Result f (Frame.dup f) := by
  obtain ⟨method, locals, stack, pc, opPc, returnPc⟩ := f
  cases stack with
  | nil =>
    refine .few ?_ ?_ _
    · rintro top next below ⟨hstack, htop, -⟩
      cases htop
      cases hstack
    · exact Nat.one_pos
  | cons v below =>
    have hsplits : Shuffle.dup.Splits (v :: below) [v] [] below := ⟨rfl, .one v, .none⟩
    change Shuffle.dup.Result _ ((if _ then _ else _ : FrameM Unit) _)
    cases hv : v.isWide with
    | true =>
      refine .misfit hsplits rfl ?_ _
      simp [Fills, Stack.asSlots, Value.asSlots, hv, Shuffle.top]
    | false =>
      have hfills : Shuffle.dup.Fills [v] [] := by
        simp [Fills, Stack.asSlots, Value.asSlots, hv, Shuffle.top, Shuffle.next]
      by_cases hroom : (v :: below).length < method.maxStack
      · rw [if_neg Bool.false_ne_true, Frame.push_room hroom]
        exact .done hsplits (fun _ => hfills) (.inr hroom)
      · rw [if_neg Bool.false_ne_true, Frame.push_full hroom]
        have hfull : method.maxStack < (v :: v :: below).length :=
          Nat.lt_succ_of_le (Nat.le_of_not_lt hroom)
        exact .full hsplits (fun _ => hfills) hfull _

/-- What an instruction does is one of its results. -/
theorem run_result (s : Shuffle) (f : Frame) : s.Result f (s.run f) := by
  by_cases hs : s = .dup
  · subst hs
    exact dup_result f
  · rw [run_eq_plan hs]
    exact plan_result s f

/-- An instruction that does not look at all categories copies what it takes at the top. -/
theorem replace_ne_nil (hs : s.isChecked = false) (htop : Stack.Piece s.top top) :
    s.replace top next ≠ [] := by
  have hne : top ≠ [] := by
    rintro rfl
    generalize hn : s.top = n at htop
    cases htop
    cases s <;> cases hn
  cases s with
  | dupX2 | dup2 | dup2X1 | dup2X2 => exact List.append_ne_nil_of_right_ne_nil _ hne
  | _ => cases hs

/-- Where an instruction refuses values it has found one for each of its slots. -/
theorem length_of_misfit (h : s.Splits stack top next below) (hs : s.isChecked = true)
    (hfills : ¬ s.Fills top next) : s.top + s.next ≤ stack.length := by
  obtain ⟨rfl, htop, hnext⟩ := h
  cases s with
  | pop | dup =>
    cases htop
    simp [Shuffle.top, Shuffle.next]
  | pop2 =>
    cases htop with
    | wide hv =>
      cases hnext
      refine absurd ?_ hfills
      simp [Fills, Stack.asSlots, Value.asSlots, hv, Shuffle.top, Shuffle.next]
    | two hv w => simp [Shuffle.top, Shuffle.next]
  | dupX1 | swap =>
    cases htop
    cases hnext
    simp [Shuffle.top, Shuffle.next]
  | _ => cases hs

def fillings : Nat → List (List Category)
  | 0 => [[]]
  | 1 => [[.one]]
  | n + 2 => (fillings (n + 1)).map (.one :: ·) ++ (fillings n).map (.two :: ·)

/-- The forms are the ways to fill the slots that the instruction takes. -/
theorem forms_eq (s : Shuffle) :
    s.forms = (fillings s.top).flatMap fun a => (fillings s.next).map (a ++ ·) := by
  cases s <;> rfl

theorem mem_fillings_iff {n : Nat} {a : Stack} :
    a.map Value.category ∈ fillings n ↔ (Stack.asSlots a).length = n := by
  have hnil : ∀ b : Stack, b = [] ↔ (Stack.asSlots b).length = 0 := by
    intro b
    have hlength := Stack.length_le_length_asSlots b
    refine ⟨fun h => h ▸ rfl, fun h => List.length_eq_zero_iff.mp (by omega)⟩
  induction n using fillings.induct generalizing a with
  | case1 => simpa [fillings] using hnil a
  | case2 =>
    cases a with
    | nil => simp [fillings, Stack.asSlots]
    | cons v a =>
      rw [Stack.length_asSlots_cons]
      cases hv : v.isWide with
      | true => simp [fillings, Value.category, hv]
      | false => simpa [fillings, Value.category, hv] using hnil a
  | case3 n ih₁ ih₂ =>
    cases a with
    | nil => simp [fillings, Stack.asSlots]
    | cons v a =>
      rw [Stack.length_asSlots_cons]
      cases hv : v.isWide with
      | true => simp [fillings, Value.category, hv, ih₂]
      | false => simp [fillings, Value.category, hv, ih₁]

/-- Values have a form if they make up pieces that fill their slots. -/
theorem mem_forms_iff {values : Stack} :
    values.map Value.category ∈ s.forms ↔ ∃ top next, values = top ++ next ∧
    s.Fills top next := by
  rw [forms_eq]
  constructor
  · intro hform
    obtain ⟨a, ha, hb⟩ := List.mem_flatMap.mp hform
    obtain ⟨b, hb, hvalues⟩ := List.mem_map.mp hb
    obtain ⟨top, next, rfl, rfl, rfl⟩ := List.map_eq_append_iff.mp hvalues.symm
    exact ⟨top, next, rfl, mem_fillings_iff.mp ha, mem_fillings_iff.mp hb⟩
  · rintro ⟨top, next, rfl, htop, hnext⟩
    rw [List.map_append]
    exact List.mem_flatMap.mpr ⟨_, mem_fillings_iff.mpr htop, List.mem_map.mpr
      ⟨_, mem_fillings_iff.mpr hnext, rfl⟩⟩

theorem matches_of_fills (h : s.Fills top next) : s.Matches (top ++ (next ++ below)) := by
  refine ⟨(top ++ next).map Value.category, mem_forms_iff.mpr ⟨top, next, rfl, h⟩, ?_⟩
  rw [← List.append_assoc]
  exact (List.prefix_append ..).map _

theorem splits_of_fills (h : s.Fills top next) :
    s.Splits (top ++ (next ++ below)) top next below :=
  ⟨rfl, Stack.piece_of_length_asSlots s.top_le h.1, Stack.piece_of_length_asSlots s.next_le h.2⟩

theorem asSlots_replace (s : Shuffle) (top next : Stack) :
    Stack.asSlots (s.replace top next) = s.replace (Stack.asSlots top) (Stack.asSlots next) := by
  cases s <;> simp only [replace, Stack.asSlots_append] <;> rfl

/-- On pieces that fill their slots, replacing values is the shuffle of slots. -/
theorem onSlots_of_fills (h : s.Fills top next) :
    s.onSlots (Stack.asSlots (top ++ (next ++ below))) =
      Stack.asSlots (s.replace top next ++ below) := by
  obtain ⟨htop, hnext⟩ := h
  have htotal : (Stack.asSlots top ++ Stack.asSlots next).length = s.top + s.next := by
    rw [List.length_append, htop, hnext]
  unfold onSlots
  rw [Stack.asSlots_append, Stack.asSlots_append, List.take_left' htop, List.drop_left' htop,
    List.take_left' hnext, ← List.append_assoc, List.drop_left' htotal, Stack.asSlots_append,
    asSlots_replace]

/-- Where the shuffle of slots gives the slots of a stack, the pieces are those of whole
values. -/
theorem whole_of_replaced {first second rest : List Slot} {stack' : Stack}
    (hfirst : first.length = s.top) (hsecond : second.length = s.next)
    (h : Stack.asSlots stack = first ++ (second ++ rest))
    (h' : Stack.asSlots stack' = s.replace first second ++ rest) :
    (∃ a, Stack.asSlots a = first) ∧ ∃ b, Stack.asSlots b = second := by
  -- A stack starts with `first`, so no cut value ends right before it.
  have hstarts : ∀ slots v slots', first ++ slots ≠ .lower v :: slots' := by
    intro slots v slots' heq
    cases first with
    | nil =>
      have hpos : 0 < s.top := by cases s <;> decide
      exact absurd hfirst (Nat.ne_of_lt hpos)
    | cons x first =>
      obtain ⟨rfl, -⟩ := List.cons.inj heq
      exact Stack.asSlots_ne_lower h
  have hends :
      ∀ {t : Stack} {slots}, Stack.asSlots t = slots → ∀ v slots', slots ≠ .lower v :: slots' :=
    fun ht v slots' heq => Stack.asSlots_ne_lower (ht.trans heq)
  cases s with
  | pop | pop2 =>
    obtain rfl : second = [] := List.length_eq_zero_iff.mp hsecond
    exact ⟨Stack.whole_left h (hends h'), [], rfl⟩
  | dup | dupX1 | dupX2 | dup2 | dup2X1 | dup2X2 =>
    have hcopied : Stack.asSlots stack' = first ++ second ++ (first ++ rest) := by
      rw [h']
      exact List.append_assoc ..
    obtain ⟨both, hboth⟩ := Stack.whole_left hcopied (hstarts rest)
    rw [← hboth] at hcopied
    rw [← List.append_assoc, ← hboth] at h
    obtain ⟨c, -, hc⟩ := Stack.eq_append_of_asSlots h
    obtain ⟨d, -, hd⟩ := Stack.eq_append_of_asSlots hcopied
    obtain ⟨a, rfl⟩ := Stack.whole_left hd (hends hc)
    obtain ⟨b, -, hb⟩ := Stack.eq_append_of_asSlots hboth
    exact ⟨⟨a, rfl⟩, b, hb⟩
  | swap =>
    have hexchanged : Stack.asSlots stack' = second ++ (first ++ rest) := by
      rw [h']
      exact List.append_assoc ..
    obtain ⟨b, hb⟩ := Stack.whole_left hexchanged (hstarts rest)
    refine ⟨Stack.whole_left h fun v slots' heq => ?_, b, hb⟩
    cases second with
    | nil => cases hsecond
    | cons y second =>
      obtain ⟨rfl, -⟩ := List.cons.inj heq
      exact Stack.asSlots_ne_lower hb

/-- The forms are those stacks on which the shuffle of slots keeps all values whole. -/
theorem matches_of_onSlots {stack' : Stack}
    (hslots : s.top + s.next ≤ (Stack.asSlots stack).length)
    (h : Stack.asSlots stack' = s.onSlots (Stack.asSlots stack)) : s.Matches stack := by
  have hsplit : Stack.asSlots stack = (Stack.asSlots stack).take s.top ++
      (((Stack.asSlots stack).drop s.top).take s.next ++
        (Stack.asSlots stack).drop (s.top + s.next)) := by
    rw [← List.drop_drop, List.take_append_drop, List.take_append_drop]
  have htop : ((Stack.asSlots stack).take s.top).length = s.top :=
    List.length_take_of_le (by omega)
  have hnext : (((Stack.asSlots stack).drop s.top).take s.next).length = s.next :=
    List.length_take_of_le (by rw [List.length_drop]; omega)
  obtain ⟨⟨a, ha⟩, b, hb⟩ := whole_of_replaced htop hnext hsplit h
  rw [← ha] at hsplit htop
  rw [← hb] at hsplit hnext
  obtain ⟨below, rfl, hbelow⟩ := Stack.eq_append_of_asSlots hsplit
  obtain ⟨c, rfl, -⟩ := Stack.eq_append_of_asSlots hbelow
  exact matches_of_fills ⟨htop, hnext⟩

end Shuffle

namespace Machine

variable {m : Machine} {f : Frame} {rest : List Frame} {s : Shuffle}

/-- A step with a shuffle comes to what the shuffle comes to on the current frame. -/
theorem step_shuffle (hm : m.frames = f :: rest) (hop : f.method.code[f.pc]? = some s.opcode) :
    ∃ r, s.Result { f with opPc := f.pc, pc := f.pc + 1 } r ∧
      step m = m.concluded f s.opcode rest r := by
  have hdec : Instruction.decode s.opcode f.method.code (f.pc + 1) =
      .ok (.operate (.shuffle s)) (f.pc + 1) := by
    rw [s.decode_opcode]
    rfl
  exact ⟨_, s.run_result _, step_operate hm hop hdec⟩

/-- On values of one of its forms an instruction does with whole values what it stands for on
slots, if there is room for the result. -/
theorem shuffles_follow_slots (m : Machine) (f : Frame) (rest : List Frame) (s : Shuffle)
    (values below : Stack) (hm : m.frames = f :: rest)
    (hop : f.method.code[f.pc]? = some s.opcode) (hfits : f.Fits)
    (hstack : f.stack = values ++ below) (hform : values.map Value.category ∈ s.forms) :
    ∃ values',
      (∀ stack, Stack.asSlots stack = s.onSlots (Stack.asSlots f.stack) ↔
        stack = values' ++ below) ∧
      ((values' ++ below).length ≤ f.method.maxStack → step m = .ok () (m.moved f s.opcode
        ({ f with opPc := f.pc, pc := f.pc + 1, stack := values' ++ below } :: rest))) ∧
      (f.method.maxStack < (values' ++ below).length → m.Faults .badCode) := by
  obtain ⟨top, next, rfl, hfills⟩ := Shuffle.mem_forms_iff.mp hform
  rw [List.append_assoc] at hstack
  have hsplits : s.Splits f.stack top next below := hstack ▸ Shuffle.splits_of_fills hfills
  refine ⟨s.replace top next, fun stack => ?_, ?_⟩
  · rw [hstack, Shuffle.onSlots_of_fills hfills]
    exact ⟨Stack.asSlots_injective, fun h => h ▸ rfl⟩
  · obtain ⟨r, hresult, hstep⟩ := step_shuffle hm hop
    cases hresult with
    | few h => exact absurd hsplits (h _ _ _)
    | misfit h hs hmisfit =>
      obtain ⟨rfl, rfl, rfl⟩ := hsplits.unique h
      exact absurd hfills hmisfit
    | full h _ hfull =>
      obtain ⟨rfl, rfl, rfl⟩ := hsplits.unique h
      exact ⟨fun hroom => absurd hroom (Nat.not_le_of_lt hfull), fun _ =>
        faults_of_concluded hstep⟩
    | done h _ hroom =>
      obtain ⟨rfl, rfl, rfl⟩ := hsplits.unique h
      refine ⟨fun _ => hstep, fun hfull => ?_⟩
      rcases hroom with hnil | hroom
      · -- Nothing is pushed, so the stack is not longer than before.
        unfold Frame.Fits at hfits
        rw [hnil, List.nil_append] at hfull
        rw [hstack, List.length_append, List.length_append] at hfits
        omega
      · exact absurd hroom (Nat.not_le_of_lt hfull)

def shufflingFile : ClassFile where
  minor := 0
  major := 52
  pool := #[none, some (.utf8 "T"), some (.classRef 1), some (.utf8 "mix"), some (.utf8 "trade"),
    some (.utf8 "cut"), some (.utf8 "()V")]
  flags := 0x21
  thisClass := 2
  superClass := 0
  interfaces := []
  fields := []
  methods := [
    ⟨⟨8, 3, 6, "mix", "()V", []⟩, some ⟨5, 0, [0x0A, 0x05, 0x06, 0x5E, 0xB1], [], [], [], []⟩⟩,
    ⟨⟨8, 4, 6, "trade", "()V", []⟩, some ⟨2, 0, [0x04, 0x09, 0x5F, 0xB1], [], [], [], []⟩⟩,
    ⟨⟨8, 5, 6, "cut", "()V", []⟩, some ⟨4, 0, [0x09, 0x04, 0x5C, 0xB1], [], [], [], []⟩⟩]

def shuffling : Class where
  name := "T"
  super := []
  pool :=
    #[none, some (.utf8 "T"), some (.classRef ⟨"T", 1⟩), some (.utf8 "mix"), some (.utf8 "trade"),
    some (.utf8 "cut"), some (.utf8 "()V")]
  fields := []
  methods := [
    { owner := "T", name := "mix", descriptor := "()V", signature := ⟨[], .void⟩,
      isStatic := true, maxStack := 5, code := #[0x0A, 0x05, 0x06, 0x5E, 0xB1],
      lines := Array.replicate 5 (-1) },
    { owner := "T", name := "trade", descriptor := "()V", signature := ⟨[], .void⟩,
      isStatic := true, maxStack := 2, code := #[0x04, 0x09, 0x5F, 0xB1],
      lines := Array.replicate 4 (-1) },
    { owner := "T", name := "cut", descriptor := "()V", signature := ⟨[], .void⟩,
      isStatic := true, maxStack := 4, code := #[0x09, 0x04, 0x5C, 0xB1],
      lines := Array.replicate 4 (-1) }]

def shufflingRun (name : String) (steps : Nat) : Machine := shuffling.after (.byName name) steps

/-- Two ints are copied past the two slots of a long. -/
theorem shuffles_follow_slots_mix :
    Reaches (fun _ _ => True) (start shuffling .default {} [] {}) (shufflingRun "mix" 3) ∧
    ∃ f, (shufflingRun "mix" 3).frames = [f] ∧ f.Fits ∧ f.stack = [.int 3, .int 2, .long 1] ∧
      step (shufflingRun "mix" 3) = .ok () ((shufflingRun "mix" 3).moved f Shuffle.dup2X2.opcode
        [{ f with opPc := 3, pc := 4, stack := [.int 3, .int 2, .long 1, .int 3, .int 2] }]) := by
  have htop : (shufflingRun "mix" 3).frames.map
      (fun f => (f.method.code[f.pc]?, f.pc, f.method.maxStack, f.stack)) =
      [(some Shuffle.dup2X2.opcode, 3, 5, [.int 3, .int 2, .long 1])] := by decide +kernel
  obtain ⟨f, hm, hf⟩ := List.map_eq_singleton_iff.mp htop
  simp only [Prod.mk.injEq] at hf
  obtain ⟨hop, hpc, hmax, hstack⟩ := hf
  have hfits : f.Fits := by
    unfold Frame.Fits
    rw [hmax, hstack]
    decide
  obtain ⟨values', hslots, hroom, -⟩ :=
    shuffles_follow_slots _ f [] .dup2X2 [.int 3, .int 2, .long 1] [] hm hop hfits hstack
      (by decide)
  have hvalues : [.int 3, .int 2, .long 1, .int 3, .int 2] = values' ++ [] :=
    (hslots _).mp (by rw [hstack]; decide)
  rw [← hvalues, hmax, hpc] at hroom
  exact ⟨shuffling.reaches_after _ _, f, hm, hfits, hstack, hroom (by decide)⟩

/-- On values of none of its forms there is no stack with the slots that an instruction stands
for. The instructions that look at the categories of all their values refuse them. The others
replace what they take for their slots, unless there are too few values or too little room. -/
theorem unmatched_shuffles (m : Machine) (f : Frame) (rest : List Frame) (s : Shuffle)
    (hm : m.frames = f :: rest) (hop : f.method.code[f.pc]? = some s.opcode)
    (hform : ¬ s.Matches f.stack) :
    (s.top + s.next ≤ (Stack.asSlots f.stack).length →
      ∀ stack, Stack.asSlots stack ≠ s.onSlots (Stack.asSlots f.stack)) ∧
    (s.isChecked = true → m.Faults
      (if f.stack.length < s.top + s.next then .badCode else .type)) ∧
    (s.isChecked = false →
      ((∀ top next below, ¬ s.Splits f.stack top next below) →
        f.stack.length < s.top + s.next ∧ m.Faults .badCode) ∧
      ∀ top next below, s.Splits f.stack top next below →
        ((s.replace top next ++ below).length ≤ f.method.maxStack →
          step m = .ok () (m.moved f s.opcode
          ({ f with opPc := f.pc, pc := f.pc + 1, stack := s.replace top next ++ below } ::
            rest))) ∧
        (f.method.maxStack < (s.replace top next ++ below).length → m.Faults .badCode)) := by
  have hunfilled : ∀ {top next below}, s.Splits f.stack top next below → ¬ s.Fills top next := by
    intro top next below h hfills
    rw [h.stack] at hform
    exact hform (Shuffle.matches_of_fills hfills)
  obtain ⟨r, hresult, hstep⟩ := step_shuffle hm hop
  refine ⟨fun hslots stack h => hform (Shuffle.matches_of_onSlots hslots h), fun hs =>
    ?_, fun hs => ⟨?_, ?_⟩⟩
  · cases hresult with
    | few h hlength =>
      rw [if_pos hlength]
      exact faults_of_concluded hstep
    | misfit h _ hmisfit =>
      rw [if_neg (Nat.not_lt_of_le (Shuffle.length_of_misfit h hs hmisfit))]
      exact faults_of_concluded hstep
    | full h hfills => exact absurd (hfills hs) (hunfilled h)
    | done h hfills => exact absurd (hfills hs) (hunfilled h)
  · intro hfew
    cases hresult with
    | few h hlength => exact ⟨hlength, faults_of_concluded hstep⟩
    | misfit h => exact absurd h (hfew _ _ _)
    | full h => exact absurd h (hfew _ _ _)
    | done h => exact absurd h (hfew _ _ _)
  · intro top next below hsplits
    cases hresult with
    | few h => exact absurd hsplits (h _ _ _)
    | misfit h hchecked =>
      rw [hs] at hchecked
      cases hchecked
    | full h _ hfull =>
      obtain ⟨rfl, rfl, rfl⟩ := hsplits.unique h
      exact ⟨fun hroom => absurd hroom (Nat.not_le_of_lt hfull), fun _ =>
        faults_of_concluded hstep⟩
    | done h _ hroom =>
      obtain ⟨rfl, rfl, rfl⟩ := hsplits.unique h
      refine ⟨fun _ => hstep, fun hfull => ?_⟩
      rcases hroom with hnil | hroom
      · exact absurd hnil (Shuffle.replace_ne_nil hs h.top)
      · exact absurd hroom (Nat.not_le_of_lt hfull)

/-- The swap of an int and a long is refused. -/
theorem unmatched_shuffles_trade :
    Reaches (fun _ _ => True) (start shuffling .default {} [] {}) (shufflingRun "trade" 2) ∧
    ∃ f, (shufflingRun "trade" 2).frames = [f] ∧ f.method.code[f.pc]? = some Shuffle.swap.opcode ∧
      f.stack = [.long 0, .int 1] ∧ ¬ Shuffle.swap.Matches f.stack ∧
      (shufflingRun "trade" 2).Faults .type := by
  have htop : (shufflingRun "trade" 2).frames.map (fun f => (f.method.code[f.pc]?, f.stack)) =
      [(some Shuffle.swap.opcode, [.long 0, .int 1])] := by decide +kernel
  obtain ⟨f, hm, hf⟩ := List.map_eq_singleton_iff.mp htop
  obtain ⟨hop, hstack⟩ := Prod.mk.inj hf
  have hform : ¬ Shuffle.swap.Matches f.stack := by
    rw [hstack]
    decide
  have hrefused := (unmatched_shuffles _ f [] .swap hm hop hform).2.1 rfl
  rw [hstack] at hrefused
  exact ⟨shuffling.reaches_after _ _, f, hm, hop, hstack, hform, hrefused⟩

/-- The copy of an int and what is below it is made, although below it is a long. -/
theorem dup2_cuts_long : Class.load shufflingFile = .ok shuffling ∧
    Reaches (fun _ _ => True) (start shuffling .default {} [] {}) (shufflingRun "cut" 2) ∧
    ∃ f m', (shufflingRun "cut" 2).frames = [f] ∧
      f.method.code[f.pc]? = some Shuffle.dup2.opcode ∧
      ¬ Shuffle.dup2.Matches f.stack ∧ step (shufflingRun "cut" 2) = .ok () m' ∧
      m'.operands = [.int 1, .long 0, .int 1, .long 0] := by
  have htop : (shufflingRun "cut" 2).frames.map (fun f => (f.method.code[f.pc]?, f.stack)) =
      [(some Shuffle.dup2.opcode, [.int 1, .long 0])] := by decide +kernel
  have hstep : (shufflingRun "cut" 2).stepped?.map (·.operands) =
      some [.int 1, .long 0, .int 1, .long 0] := by decide +kernel
  obtain ⟨f, hm, hf⟩ := List.map_eq_singleton_iff.mp htop
  obtain ⟨hop, hstack⟩ := Prod.mk.inj hf
  obtain ⟨m', hstepped, hoperands⟩ := Option.map_eq_some_iff.mp hstep
  obtain ⟨-, hsteps⟩ := stepsTo_of_stepped? (by rw [hm]; exact List.cons_ne_nil _ _) hstepped
  refine ⟨by decide +kernel, shuffling.reaches_after _ _, f, m', hm, hop, ?_,
    hsteps, hoperands⟩
  rw [hstack]
  decide

end Machine

end ClassTrace
