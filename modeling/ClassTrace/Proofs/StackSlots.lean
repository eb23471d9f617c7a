import ClassTrace.Proofs.Frame

/-!
Operand stacks seen from their slots, of which a long or a double takes two. A stack is determined
by its slots. Slots at the top are those of whole values unless the lower half of a value comes
next.
-/
namespace ClassTrace

/-- A slot of an operand stack: a value, or one half of a long or a double. -/
inductive Slot where
  | whole (v : Value)
  | upper (v : Value)
  | lower (v : Value)
deriving DecidableEq

inductive Category where
  | one
  | two
deriving DecidableEq

namespace Value

def asSlots (v : Value) : List Slot := if v.isWide then [.upper v, .lower v] else [.whole v]

def category (v : Value) : Category := if v.isWide then .two else .one

/-- The slots of a value tell where they end. -/
theorem asSlots_append_inj {v w : Value} {xs ys : List Slot}
    (h : v.asSlots ++ xs = w.asSlots ++ ys) :
    v = w ∧ xs = ys := by
  unfold asSlots at h
  cases hv : v.isWide with
  | true =>
    cases hw : w.isWide with
    | true => simpa [hv, hw] using h
    | false => simp [hv, hw] at h
  | false =>
    cases hw : w.isWide with
    | true => simp [hv, hw] at h
    | false => simpa [hv, hw] using h

end Value

namespace Stack

def asSlots (s : Stack) : List Slot := s.flatMap Value.asSlots

variable {s t : Stack} {v : Value}

theorem asSlots_cons (v : Value) (s : Stack) : asSlots (v :: s) = v.asSlots ++ asSlots s :=
  List.flatMap_cons ..

theorem asSlots_append (s t : Stack) : asSlots (s ++ t) = asSlots s ++ asSlots t :=
  List.flatMap_append

theorem length_asSlots_cons (v : Value) (s : Stack) :
    (asSlots (v :: s)).length = (asSlots s).length + if v.isWide then 2 else 1 := by
  rw [asSlots_cons, List.length_append, Nat.add_comm]
  unfold Value.asSlots
  split <;> rfl

/-- The lower half of a value is never the first slot. -/
theorem asSlots_ne_lower {slots : List Slot} : asSlots s ≠ .lower v :: slots := by
  cases s with
  | nil => exact nofun
  | cons w s =>
    rw [asSlots_cons, Value.asSlots]
    split <;> exact nofun

/-- Where slots of a stack are followed by anything but the lower half of a value, they are those
of whole values. -/
theorem whole_left {xs ys : List Slot} (h : asSlots s = xs ++ ys)
    (hys : ∀ v slots, ys ≠ .lower v :: slots) :
    ∃ t, asSlots t = xs := by
  induction s generalizing xs with
  | nil =>
    obtain ⟨rfl, -⟩ := List.append_eq_nil_iff.mp h.symm
    exact ⟨[], rfl⟩
  | cons v s ih =>
    rw [asSlots_cons, Value.asSlots] at h
    split at h
    · -- A long or a double is not cut, since its lower half would come next.
      rcases xs with _ | ⟨x, _ | ⟨y, xs⟩⟩
      · exact ⟨[], rfl⟩
      · exact absurd (List.cons.inj h).2.symm (hys v _)
      · simp only [List.cons_append, List.nil_append, List.cons.injEq] at h
        obtain ⟨rfl, rfl, hrest⟩ := h
        obtain ⟨t, rfl⟩ := ih hrest
        refine ⟨v :: t, ?_⟩
        rw [asSlots_cons, Value.asSlots, if_pos ‹_›]
        rfl
    · rcases xs with _ | ⟨x, xs⟩
      · exact ⟨[], rfl⟩
      · simp only [List.cons_append, List.nil_append, List.cons.injEq] at h
        obtain ⟨rfl, hrest⟩ := h
        obtain ⟨t, rfl⟩ := ih hrest
        refine ⟨v :: t, ?_⟩
        rw [asSlots_cons, Value.asSlots, if_neg ‹_›]
        rfl

/-- What follows whole values in the slots of a stack are the slots of what is below. -/
theorem eq_append_of_asSlots {ys : List Slot} (h : asSlots s = asSlots t ++ ys) :
    ∃ u, s = t ++ u ∧ asSlots u = ys := by
  induction t generalizing s with
  | nil => exact ⟨s, rfl, h⟩
  | cons v t ih =>
    rw [asSlots_cons, List.append_assoc] at h
    cases s with
    | nil =>
      rw [Value.asSlots] at h
      split at h <;> cases h
    | cons w s =>
      obtain ⟨rfl, hrest⟩ := Value.asSlots_append_inj ((asSlots_cons w s).symm.trans h)
      obtain ⟨u, rfl, hu⟩ := ih hrest
      exact ⟨u, rfl, hu⟩

/-- A stack is known by its slots. -/
theorem asSlots_injective (h : asSlots s = asSlots t) : s = t := by
  obtain ⟨u, rfl, hu⟩ := eq_append_of_asSlots (h.trans (List.append_nil _).symm)
  cases u with
  | nil => exact List.append_nil t
  | cons v u =>
    have hlength := congrArg List.length hu
    rw [length_asSlots_cons] at hlength
    split at hlength <;> cases hlength

theorem length_le_length_asSlots (s : Stack) : s.length ≤ (asSlots s).length := by
  induction s with
  | nil => exact Nat.le_refl 0
  | cons v s ih =>
    rw [length_asSlots_cons, List.length_cons]
    split <;> omega

/-- What an instruction takes off a stack for so many slots. It looks at the first value only. -/
inductive Piece : Nat → Stack → Prop
  | none : Piece 0 []
  | one (v : Value) : Piece 1 [v]
  | wide {v : Value} (hv : v.isWide = true) : Piece 2 [v]
  | two {v : Value} (hv : v.isWide = false) (w : Value) : Piece 2 [v, w]

/-- There is one piece for so many slots. -/
theorem Piece.unique {n : Nat} {a b below below' : Stack} (ha : Piece n a) (hb : Piece n b)
    (h : a ++ below = b ++ below') : a = b ∧ below = below' := by
  cases ha with
  | none =>
    cases hb
    exact ⟨rfl, h⟩
  | one v =>
    cases hb
    simpa using h
  | wide hv =>
    cases hb with
    | wide hw => simpa using h
    | two hw => simp_all
  | two hv w =>
    cases hb with
    | wide hw => simp_all
    | two hw => simp_all

theorem Piece.length_le {n : Nat} {a : Stack} (h : Piece n a) : a.length ≤ n := by
  cases h <;> simp

/-- Values that are one or two slots are what is taken for them. -/
theorem piece_of_length_asSlots {n : Nat} {a : Stack} (hn : n ≤ 2) (h : (asSlots a).length = n) :
    Piece n a := by
  have hlength := length_le_length_asSlots a
  rcases a with _ | ⟨v, _ | ⟨w, a⟩⟩
  · obtain rfl : 0 = n := h
    exact .none
  · rw [length_asSlots_cons] at h
    cases hv : v.isWide with
    | true =>
      obtain rfl : 2 = n := by simpa [hv, asSlots] using h
      exact .wide hv
    | false =>
      obtain rfl : 1 = n := by simpa [hv, asSlots] using h
      exact .one v
  · rw [length_asSlots_cons, length_asSlots_cons] at h
    obtain rfl : a = [] := by
      have hle := length_le_length_asSlots a
      refine List.length_eq_zero_iff.mp ?_
      split at h <;> split at h <;> omega
    obtain rfl : n = 2 := by split at h <;> split at h <;> omega
    have hv : v.isWide = false := by
      cases hv : v.isWide with
      | false => rfl
      | true =>
        rw [hv] at h
        split at h <;> simp at h
    exact .two hv w

end Stack

end ClassTrace
