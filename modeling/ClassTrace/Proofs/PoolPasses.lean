import ClassTrace.Program.Load

/-!
The passes that resolve a pool. A pass writes the constants of the entries into their slots, one
after the other, and what it leaves in a slot that only one entry comes to is the constant of this
entry. Slots are counted in 16 bits, so up to 65536 entries have a slot each. However many there
are, a constant that is resolved has the type that its descriptor spells.
-/
namespace ClassTrace

namespace ConstantPool

theorem slotOf_of_lt {k : Nat} (h : k < 65535) : slotOf k = k + 1 := by
  unfold slotOf
  omega

/-- Two of the first 65536 entries do not come to one slot. -/
theorem slotOf_inj {j k : Nat} (hj : j < 65536) (hk : k < 65536) (h : slotOf j = slotOf k) :
    j = k := by
  unfold slotOf at h
  omega

section Pass

variable {resolve : ConstantPool → PoolEntry → Outcome} {position slot : Nat}
  {entries : List (Option PoolEntry)} {r : Progress}

/-- An entry changes its own slot only, and only if it has a constant. -/
theorem Progress.getElem?_put (position : Nat) (o : Outcome) (r : Progress) (slot : Nat) :
    (r.put position o).pool[slot]? =
      if slotOf position = slot then r.pool[slot]?.map (o.constant <|> ·) else r.pool[slot]? := by
  unfold put
  cases o.constant with
  | none => simp
  | some c =>
    dsimp only
    rw [Array.getElem?_setIfInBounds]
    split
    · rename_i heq
      subst heq
      split
      · rename_i hlt
        simp [Array.getElem?_eq_getElem hlt]
      · rename_i hlt
        simp [Array.getElem?_eq_none (Nat.not_lt.mp hlt)]
    · rfl

/-- What is in a slot was there before, or is the constant of the entry that came to it. -/
theorem Progress.put_cases {position slot : Nat} {o : Outcome} {r : Progress} {c : Constant}
    (h : (r.put position o).pool[slot]? = some (some c)) :
    r.pool[slot]? = some (some c) ∨ o.constant = some c := by
  rw [getElem?_put] at h
  split at h
  · obtain ⟨old, hold, heq⟩ := Option.map_eq_some_iff.mp h
    cases hconstant : o.constant with
    | none =>
      rw [hconstant] at heq
      subst heq
      exact .inl hold
    | some c' =>
      rw [hconstant] at heq
      exact .inr heq
  · exact .inl h

theorem Progress.size_put (position : Nat) (o : Outcome) (r : Progress) :
    (r.put position o).pool.size = r.pool.size := by
  unfold put
  cases o.constant <;> simp

/-- What each entry keeps is kept by the pass. -/
theorem pass_induction {motive : Progress → Prop}
    (hstep : ∀ k e r, entries[k]? = some (some e) → motive r →
      motive (r.put (position + k) (resolve r.pool e)))
    (hr : motive r) : motive (pass resolve position entries r) := by
  induction entries generalizing position r with
  | nil => exact hr
  | cons entry rest ih =>
    have hrest : ∀ k e r, rest[k]? = some (some e) → motive r →
        motive (r.put (position + 1 + k) (resolve r.pool e)) := by
      intro k e r hk hr
      rw [Nat.add_assoc, Nat.add_comm 1 k]
      exact hstep (k + 1) e r hk hr
    cases entry with
    | none => exact ih hrest hr
    | some e => exact ih hrest (hstep 0 e r rfl hr)

/-- A pass whose outcomes do not depend on how far it has come. -/
theorem pass_congr {motive : Progress → Prop} {outcome : PoolEntry → Outcome}
    (hstep : ∀ k e r, entries[k]? = some (some e) → motive r →
      resolve r.pool e = outcome e ∧ motive (r.put (position + k) (outcome e)))
    (hr : motive r) :
    pass resolve position entries r = pass (fun _ => outcome) position entries r := by
  induction entries generalizing position r with
  | nil => rfl
  | cons entry rest ih =>
    have hrest : ∀ k e r, rest[k]? = some (some e) → motive r →
        resolve r.pool e = outcome e ∧ motive (r.put (position + 1 + k) (outcome e)) := by
      intro k e r hk hr
      rw [Nat.add_assoc, Nat.add_comm 1 k]
      exact hstep (k + 1) e r hk hr
    cases entry with
    | none => exact ih hrest hr
    | some e =>
      obtain ⟨heq, hput⟩ := hstep 0 e r rfl hr
      rw [pass, pass, heq]
      exact ih hrest hput

theorem size_pass : (pass resolve position entries r).pool.size = r.pool.size := by
  refine pass_induction (motive := fun r' => r'.pool.size = r.pool.size) ?_ rfl
  intro k e r' _ hsize
  rw [Progress.size_put, hsize]

/-- A slot that no entry comes to is left as it is. -/
theorem getElem?_pass_other
    (hother : ∀ k e, entries[k]? = some (some e) → slotOf (position + k) ≠ slot) :
    (pass resolve position entries r).pool[slot]? = r.pool[slot]? := by
  refine pass_induction (motive := fun r' => r'.pool[slot]? = r.pool[slot]?) ?_ rfl
  intro k e r' hk heq
  rw [Progress.getElem?_put, if_neg (hother k e hk), heq]

/-- A slot that one entry alone comes to has the constant of this entry, if there is one. -/
theorem getElem?_pass_alone {k : Nat} {e : PoolEntry} (hk : entries[k]? = some (some e))
    (hslot : slotOf (position + k) = slot)
    (halone : ∀ j e', entries[j]? = some (some e') → slotOf (position + j) = slot → j = k) :
    ∃ pool, (pass resolve position entries r).pool[slot]? =
      r.pool[slot]?.map ((resolve pool e).constant <|> ·) := by
  induction entries generalizing position k r with
  | nil => cases hk
  | cons entry rest ih =>
    have hshift : ∀ j, position + 1 + j = position + (j + 1) := by
      intro j
      omega
    cases k with
    | zero =>
      cases hk
      have hrest : ∀ j e', rest[j]? = some (some e') → slotOf (position + 1 + j) ≠ slot := by
        intro j e' hj heq
        rw [hshift] at heq
        cases halone (j + 1) e' hj heq
      refine ⟨r.pool, (getElem?_pass_other hrest).trans ?_⟩
      rw [Progress.getElem?_put]
      exact if_pos hslot
    | succ k =>
      have hrest :
          ∀ j e', rest[j]? = some (some e') → slotOf (position + 1 + j) = slot → j = k := by
        intro j e' hj heq
        rw [hshift] at heq
        exact Nat.succ.inj (halone (j + 1) e' hj heq)
      have hslot' : slotOf (position + 1 + k) = slot := by rw [hshift, hslot]
      cases entry with
      | none => exact ih hk hslot' hrest
      | some first =>
        obtain ⟨pool, hpool⟩ := ih (r := r.put position (resolve r.pool first)) hk hslot' hrest
        refine ⟨pool, hpool.trans ?_⟩
        rw [Progress.getElem?_put, if_neg]
        intro heq
        cases halone 0 first rfl heq

/-- No entry comes to the slot of the given position, except for the one that stands there. -/
def Alone (raw : Array (Option PoolEntry)) (k : Nat) : Prop :=
  ∀ j e, raw[j]? = some (some e) → slotOf j = slotOf k → j = k

/-- In a pool of at most 65536 entries each of them has its slot alone. -/
theorem alone_of_size {raw : Array (Option PoolEntry)} (hsize : raw.size ≤ 65536) {k : Nat}
    (hk : k < 65536) : Alone raw k := by
  intro j e hj heq
  have hlt : j < raw.size := (Array.getElem?_eq_some_iff.mp hj).1
  exact slotOf_inj (by omega) hk heq

/-- A slot that one entry alone comes to holds what the entry is resolved to. -/
theorem getElem?_pass (resolve : ConstantPool → PoolEntry → Outcome) (r : Progress)
    {raw : Array (Option PoolEntry)} {k : Nat} {entry : Option PoolEntry}
    (hk : raw[k]? = some entry) (halone : Alone raw k) :
    ∃ pool, (pass resolve 0 raw.toList r).pool[slotOf k]? =
      r.pool[slotOf k]?.map ((entry.bind fun e => (resolve pool e).constant) <|> ·) := by
  have hslots : ∀ j e, raw.toList[j]? = some (some e) → slotOf (0 + j) = slotOf k → j = k := by
    intro j e hj heq
    rw [Nat.zero_add] at heq
    exact halone j e (Array.getElem?_toList ▸ hj) heq
  cases entry with
  | some e =>
    exact getElem?_pass_alone (Array.getElem?_toList ▸ hk)
      (congrArg slotOf (Nat.zero_add k)) hslots
  | none =>
    have hother : ∀ j e, raw.toList[j]? = some (some e) → slotOf (0 + j) ≠ slotOf k := by
      intro j e hj heq
      obtain rfl := hslots j e hj heq
      rw [Array.getElem?_toList, hk] at hj
      cases hj
    refine ⟨r.pool, (getElem?_pass_other hother).trans ?_⟩
    simp

end Pass

section Problems

variable {outcome : PoolEntry → Outcome}

def problemsFrom (outcome : PoolEntry → Outcome) : Nat → List (Option PoolEntry) → List Problem
  | _, [] => []
  | position, none :: rest => problemsFrom outcome (position + 1) rest
  | position, some e :: rest =>
    (outcome e).causes.map (⟨slotOf position, ·⟩) ++ problemsFrom outcome (position + 1) rest

/-- The problems of a pass are those of its entries, in their order. -/
theorem problems_pass (position : Nat) (entries : List (Option PoolEntry)) (r : Progress) :
    (pass (fun _ => outcome) position entries r).problems.toList =
      r.problems.toList ++ problemsFrom outcome position entries := by
  induction entries generalizing position r with
  | nil => exact (List.append_nil _).symm
  | cons entry rest ih =>
    cases entry with
    | none => exact ih (position + 1) r
    | some e =>
      rw [pass, ih, problemsFrom, ← List.append_assoc]
      simp [Progress.put]

/-- No problem is forgotten. -/
theorem problems_prefix {resolve : ConstantPool → PoolEntry → Outcome} {position : Nat}
    {entries : List (Option PoolEntry)} {r : Progress} :
    r.problems.toList <+: (pass resolve position entries r).problems.toList := by
  refine pass_induction (motive := fun r' => r.problems.toList <+: r'.problems.toList) ?_
    (List.prefix_refl _)
  intro k e r' _ hprefix
  unfold Progress.put
  rw [Array.toList_append]
  exact hprefix.trans (List.prefix_append ..)

theorem mem_problemsFrom {position : Nat} {entries : List (Option PoolEntry)} {p : Problem} :
    p ∈ problemsFrom outcome position entries ↔ ∃ k e, entries[k]? = some (some e) ∧
      p.slot = slotOf (position + k) ∧ p.cause ∈ (outcome e).causes := by
  induction entries generalizing position with
  | nil => simp [problemsFrom]
  | cons entry rest ih =>
    -- Of the entries the first has this position, and the others are counted from the next one
    -- on.
    have hrest : (∃ k e, rest[k]? = some (some e) ∧ p.slot = slotOf (position + 1 + k) ∧
        p.cause ∈ (outcome e).causes) ↔ ∃ k e, (entry :: rest)[k + 1]? = some (some e) ∧
        p.slot = slotOf (position + (k + 1)) ∧ p.cause ∈ (outcome e).causes := by
      simp only [List.getElem?_cons_succ, Nat.add_assoc, Nat.add_comm 1]
    have hsplit : (∃ k e, (entry :: rest)[k]? = some (some e) ∧ p.slot = slotOf (position + k) ∧
        p.cause ∈ (outcome e).causes) ↔ (∃ e, entry = some e ∧ p.slot = slotOf position ∧
        p.cause ∈ (outcome e).causes) ∨ p ∈ problemsFrom outcome (position + 1) rest := by
      rw [ih, hrest]
      constructor
      · rintro ⟨k, e, hk, h⟩
        cases k with
        | zero => exact .inl ⟨e, Option.some.inj hk, h⟩
        | succ k => exact .inr ⟨k, e, hk, h⟩
      · rintro (⟨e, rfl, h⟩ | ⟨k, e, hk, h⟩)
        · exact ⟨0, e, rfl, h⟩
        · exact ⟨k + 1, e, hk, h⟩
    rw [hsplit]
    cases entry with
    | none => simp [problemsFrom]
    | some first =>
      rw [problemsFrom, List.mem_append, List.mem_map]
      refine or_congr_left ⟨?_, ?_⟩
      · rintro ⟨cause, hcause, rfl⟩
        exact ⟨first, rfl, rfl, hcause⟩
      · rintro ⟨e, heq, hslot, hcause⟩
        cases heq
        exact ⟨p.cause, hcause, by rw [← hslot]⟩

end Problems

end ConstantPool

/-- The type of the constant is the one that its descriptor spells. -/
def Constant.Spelled : Constant → Prop
  | .nameType nt => Descriptor.parse nt.descriptor = .ok nt.type
  | .fieldRef r => Descriptor.parse r.nameType.descriptor = .ok (.plain r.type)
  | .methodRef r => Descriptor.parse r.nameType.descriptor = .ok (.method r.signature)
  | _ => True

namespace ConstantPool

def Spelled (pool : ConstantPool) : Prop := ∀ c, some c ∈ pool → c.Spelled

theorem mem_of_get {pool : ConstantPool} {index : UInt16} {c : Constant}
    (h : pool.get index = .ok c) : some c ∈ pool := by
  unfold get at h
  split at h
  · cases h
  · split at h
    · rename_i hslot
      cases h
      exact Array.mem_of_getElem? hslot
    · cases h

theorem spelled_put {r : Progress} {o : Outcome} (position : Nat) (hpool : r.pool.Spelled)
    (ho : ∀ c, o.constant = some c → c.Spelled) : (r.put position o).pool.Spelled := by
  intro c hc
  obtain ⟨slot, hslot⟩ := Array.mem_iff_getElem?.mp hc
  rcases Progress.put_cases hslot with hold | hconstant
  · exact hpool c (Array.mem_of_getElem? hold)
  · exact ho c hconstant

theorem spelled_leaf {e : PoolEntry} {c : Constant} (h : (resolveLeaf e).constant = some c) :
    c.Spelled := by
  cases e with
  | utf8 | integer | float | long | double | skipped =>
    cases h
    trivial
  | _ => cases h

/-- What is made of a name with a type has the type that its descriptor spells. -/
theorem spelled_named {raw : Array (Option PoolEntry)} {e : PoolEntry} {c : Constant}
    (h : (resolveNamed raw e).constant = some c) : c.Spelled := by
  cases e with
  | classRef index | string index =>
    unfold resolveNamed at h
    cases htext : textAt raw index with
    | ok text =>
      simp only [htext] at h
      cases h
      trivial
    | error cause =>
      simp only [htext] at h
      cases h
  | nameAndType nameIndex descriptorIndex =>
    unfold resolveNamed at h
    cases hname : textAt raw nameIndex with
    | error cause =>
      cases htext : textAt raw descriptorIndex <;> simp only [hname, htext] at h <;> cases h
    | ok name =>
      cases htext : textAt raw descriptorIndex with
      | error cause =>
        simp only [hname, htext] at h
        cases h
      | ok text =>
        simp only [hname, htext] at h
        unfold resolveNameType at h
        cases hparse : Descriptor.parse text with
        | error error =>
          simp only [hparse] at h
          cases h
        | ok type =>
          simp only [hparse] at h
          cases h
          exact hparse
  | _ => cases h

/-- A member takes its type from the name with type that it refers to. -/
theorem spelled_member {pool : ConstantPool} (hpool : pool.Spelled) {e : PoolEntry} {c : Constant}
    (h : (resolveMember pool e).constant = some c) : c.Spelled := by
  have howner : ∀ {classIndex nameTypeIndex owner nt},
      resolveOwner pool classIndex nameTypeIndex = .ok (owner, nt) →
      Descriptor.parse nt.descriptor = .ok nt.type := by
    intro classIndex nameTypeIndex owner nt hok
    unfold resolveOwner at hok
    split at hok
    · rename_i hnt
      cases hok
      exact hpool _ (mem_of_get hnt)
    all_goals cases hok
  have hmethod : ∀ {classIndex nameTypeIndex isInterface},
      (resolveMethod pool classIndex nameTypeIndex isInterface).constant = some c →
      c.Spelled := by
    intro classIndex nameTypeIndex isInterface h
    unfold resolveMethod at h
    split at h
    · cases h
    · rename_i owner nt hok
      split at h
      · rename_i signature htype
        cases h
        exact (howner hok).trans (congrArg Except.ok htype)
      · cases h
  cases e with
  | fieldRef classIndex nameTypeIndex =>
    change (resolveField pool classIndex nameTypeIndex).constant = some c at h
    unfold resolveField at h
    split at h
    · cases h
    · rename_i owner nt hok
      split at h
      · rename_i type htype
        cases h
        exact (howner hok).trans (congrArg Except.ok htype)
      · cases h
  | methodRef | interfaceMethodRef => exact hmethod h
  | _ => cases h

theorem spelled_passes (raw : Array (Option PoolEntry)) : (passes raw).pool.Spelled := by
  refine pass_induction (motive := fun r => r.pool.Spelled) ?_ ?_
  · intro k e r _ hr
    exact spelled_put _ hr fun c => spelled_member hr
  refine pass_induction (motive := fun r => r.pool.Spelled) ?_ ?_
  · intro k e r _ hr
    exact spelled_put _ hr fun c => spelled_named
  refine pass_induction (motive := fun r => r.pool.Spelled) ?_ ?_
  · intro k e r _ hr
    exact spelled_put _ hr fun c => spelled_leaf
  intro c hc
  cases (Array.mem_replicate.mp hc).2

/-- Resolving succeeds exactly if the passes come across no problem. -/
theorem resolve_eq_ok {raw : Array (Option PoolEntry)} {pool : ConstantPool} :
    resolve raw = .ok pool ↔ (passes raw).problems = #[] ∧ (passes raw).pool = pool := by
  unfold resolve
  dsimp only
  split
  · rename_i hnil
    rw [Array.toList_eq_nil_iff] at hnil
    simp [hnil]
  · rename_i hne
    exact iff_of_false nofun fun h => hne (by simp [h.1])

/-- In a resolved pool all types are those that descriptors spell. -/
theorem spelled_resolve {raw : Array (Option PoolEntry)} {pool : ConstantPool}
    (h : resolve raw = .ok pool) : pool.Spelled := by
  rw [← (resolve_eq_ok.mp h).2]
  exact spelled_passes raw

theorem get_of_fieldRef {pool : ConstantPool} {index : UInt16} {r : FieldRef}
    (h : pool.fieldRef index = .ok r) : pool.get index = .ok (.fieldRef r) := by
  unfold fieldRef at h
  cases hget : pool.get index with
  | error e =>
    rw [hget] at h
    cases h
  | ok c =>
    rw [hget] at h
    cases c with
    | fieldRef r' =>
      cases h
      rfl
    | _ => cases h

theorem get_of_methodRef {pool : ConstantPool} {index : UInt16} {r : MethodRef}
    (h : pool.methodRef index = .ok r) : pool.get index = .ok (.methodRef r) := by
  unfold methodRef at h
  cases hget : pool.get index with
  | error e =>
    rw [hget] at h
    cases h
  | ok c =>
    rw [hget] at h
    cases c with
    | methodRef r' =>
      cases h
      rfl
    | _ => cases h

/-- A field constant carries the type that its descriptor spells. -/
theorem Spelled.fieldRef {pool : ConstantPool} (hpool : pool.Spelled) {index : UInt16}
    {r : FieldRef} (h : pool.fieldRef index = .ok r) :
    Descriptor.parse r.nameType.descriptor = .ok (.plain r.type) :=
  hpool _ (mem_of_get (get_of_fieldRef h))

/-- A method constant carries the signature that its descriptor spells. -/
theorem Spelled.methodRef {pool : ConstantPool} (hpool : pool.Spelled) {index : UInt16}
    {r : MethodRef} (h : pool.methodRef index = .ok r) :
    Descriptor.parse r.nameType.descriptor = .ok (.method r.signature) :=
  hpool _ (mem_of_get (get_of_methodRef h))

end ConstantPool

theorem Class.load_resolved {file : ClassFile} {program : Class}
    (h : Class.load file = .ok program) :
    ConstantPool.resolve (file.pool.extract 1 file.pool.size) = .ok program.pool := by
  unfold Class.load at h
  split at h
  · cases h
  · rename_i pool hpool
    split at h
    · cases h
    · dsimp only at h
      split at h
      · cases h
        exact hpool
      · cases h

theorem Class.load_spelled {file : ClassFile} {program : Class}
    (h : Class.load file = .ok program) :
    program.pool.Spelled :=
  ConstantPool.spelled_resolve (load_resolved h)

end ClassTrace
