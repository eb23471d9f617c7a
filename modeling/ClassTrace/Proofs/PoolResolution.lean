import ClassTrace.Proofs.PoolPasses

/-!
What resolving a pool comes to. Each entry has a meaning that is found by following its indices,
whatever the order in which the entries stand; an entry that is not sound has none. Resolving
works in passes, but as long as every entry has a slot of its own, it fills the slots with the
meanings of their entries, or it fails and its problems are those of the unsound entries.
-/
namespace ClassTrace

namespace ConstantPool

section Meaning

variable (raw : Array (Option PoolEntry))

/-- The entry that an index designates. The first entry has index 1. -/
def entryAt? (index : UInt16) : Option PoolEntry :=
  if index = 0 then none else raw[index.toNat - 1]?.join

def IsText (index : UInt16) : Prop := ∃ text, entryAt? raw index = some (.utf8 text)

def IsClass (index : UInt16) : Prop :=
  ∃ nameIndex, entryAt? raw index = some (.classRef nameIndex) ∧ IsText raw nameIndex

def IsNameType (index : UInt16) (Wanted : Descriptor → Prop) : Prop :=
  ∃ nameIndex descriptorIndex text type, entryAt? raw index =
    some (.nameAndType nameIndex descriptorIndex) ∧
    IsText raw nameIndex ∧ entryAt? raw descriptorIndex = some (.utf8 text) ∧
    Descriptor.parse text = .ok type ∧ Wanted type

/-- Every index of the entry designates an entry of the kind that is asked for. -/
def Sound : PoolEntry → Prop
  | .classRef index | .string index => IsText raw index
  | .nameAndType nameIndex descriptorIndex => IsText raw nameIndex ∧
      ∃ text type, entryAt? raw descriptorIndex = some (.utf8 text) ∧
        Descriptor.parse text = .ok type
  | .fieldRef owner nameType =>
    IsClass raw owner ∧ IsNameType raw nameType fun t => ∀ s, t ≠ .method s
  | .methodRef owner nameType | .interfaceMethodRef owner nameType =>
      IsClass raw owner ∧ IsNameType raw nameType fun t => ∃ s, t = .method s
  | _ => True

def text? (index : UInt16) : Option Bytes :=
  match entryAt? raw index with
  | some (.utf8 text) => some text
  | _ => none

def class? (index : UInt16) : Option ClassName :=
  match entryAt? raw index with
  | some (.classRef nameIndex) => (text? raw nameIndex).map (⟨·, nameIndex⟩)
  | _ => none

def nameTypeOf? (nameIndex descriptorIndex : UInt16) : Option NameType := do
  let name ← text? raw nameIndex
  let text ← text? raw descriptorIndex
  let type ← (Descriptor.parse text).toOption
  return ⟨name, text, type⟩

def nameType? (index : UInt16) : Option NameType :=
  match entryAt? raw index with
  | some (.nameAndType nameIndex descriptorIndex) => nameTypeOf? raw nameIndex descriptorIndex
  | _ => none

def fieldRef? (owner nameType : UInt16) : Option FieldRef := do
  let owner ← class? raw owner
  let nameType ← nameType? raw nameType
  match nameType.type with
  | .plain type => some ⟨owner, nameType, type⟩
  | .method _ => none

def methodRef? (owner nameType : UInt16) (isInterface : Bool) : Option MethodRef := do
  let owner ← class? raw owner
  let nameType ← nameType? raw nameType
  match nameType.type with
  | .method signature => some ⟨owner, nameType, signature, isInterface⟩
  | .plain _ => none

/-- The constant that an entry stands for, with everything it refers to put in place of its
indices. -/
def meaning? : PoolEntry → Option Constant
  | .utf8 text => some (.utf8 text)
  | .integer v => some (.int v)
  | .float v => some (.float v)
  | .long v => some (.long v)
  | .double v => some (.double v)
  | .skipped tag => some (.unsupported tag)
  | .classRef index => (text? raw index).map fun name => .classRef ⟨name, index⟩
  | .string index => (text? raw index).map fun text => .string text index
  | .nameAndType nameIndex descriptorIndex =>
    (nameTypeOf? raw nameIndex descriptorIndex).map .nameType
  | .fieldRef owner nameType => (fieldRef? raw owner nameType).map .fieldRef
  | .methodRef owner nameType => (methodRef? raw owner nameType false).map .methodRef
  | .interfaceMethodRef owner nameType => (methodRef? raw owner nameType true).map .methodRef

def meanings : ConstantPool := #[none] ++ raw.map fun slot => slot.bind (meaning? raw)

end Meaning

section Soundness

variable {raw : Array (Option PoolEntry)}

theorem text?_eq_some {index : UInt16} {text : Bytes} :
    text? raw index = some text ↔ entryAt? raw index = some (.utf8 text) := by
  unfold text?
  split
  · rename_i heq
    simp [heq]
  · rename_i hnone
    exact iff_of_false nofun fun heq => hnone text heq

theorem isText_iff {index : UInt16} : IsText raw index ↔ (text? raw index).isSome := by
  simp only [Option.isSome_iff_exists, text?_eq_some, IsText]

theorem isClass_iff {index : UInt16} : IsClass raw index ↔ (class? raw index).isSome := by
  unfold IsClass class?
  split
  · rename_i nameIndex heq
    rw [Option.isSome_map, ← isText_iff]
    constructor
    · rintro ⟨n, hn, htext⟩
      cases heq.symm.trans hn
      exact htext
    · exact fun htext => ⟨nameIndex, heq, htext⟩
  · rename_i hnone
    exact iff_of_false (fun ⟨n, heq, _⟩ => hnone n heq) nofun

/-- A name with a type has its two texts, and its descriptor can be read. -/
theorem nameTypeOf?_eq_some {nameIndex descriptorIndex : UInt16} {nt : NameType} :
    nameTypeOf? raw nameIndex descriptorIndex = some nt ↔ text? raw nameIndex = some nt.name ∧
      text? raw descriptorIndex = some nt.descriptor ∧
      Descriptor.parse nt.descriptor = .ok nt.type := by
  unfold nameTypeOf?
  constructor
  · intro h
    obtain ⟨name, hname, h⟩ := Option.bind_eq_some_iff.mp h
    obtain ⟨text, htext, h⟩ := Option.bind_eq_some_iff.mp h
    obtain ⟨type, htype, h⟩ := Option.bind_eq_some_iff.mp h
    cases h
    refine ⟨hname, htext, ?_⟩
    cases hparse : Descriptor.parse text with
    | error e =>
      rw [hparse] at htype
      cases htype
    | ok d =>
      rw [hparse] at htype
      cases htype
      rfl
  · rintro ⟨hname, htext, htype⟩
    simp [hname, htext, htype, Except.toOption]

theorem isNameType_iff {index : UInt16} {Wanted : Descriptor → Prop} :
    IsNameType raw index Wanted ↔ ∃ nt, nameType? raw index = some nt ∧ Wanted nt.type := by
  unfold IsNameType nameType?
  constructor
  · rintro ⟨n, d, text, type, heq, ⟨name, hname⟩, htext, hparse, hwanted⟩
    refine ⟨⟨name, text, type⟩, ?_, hwanted⟩
    rw [heq]
    exact nameTypeOf?_eq_some.mpr ⟨text?_eq_some.mpr hname, text?_eq_some.mpr htext, hparse⟩
  · rintro ⟨nt, hnt, hwanted⟩
    split at hnt
    · rename_i n d heq
      obtain ⟨hname, htext, hparse⟩ := nameTypeOf?_eq_some.mp hnt
      exact ⟨n, d, _, _, heq, ⟨_, text?_eq_some.mp hname⟩, text?_eq_some.mp htext,
        hparse, hwanted⟩
    · cases hnt

/-- A field has a meaning exactly if its class and its name with a type are sound. -/
theorem fieldRef?_isSome {owner nameType : UInt16} : (fieldRef? raw owner nameType).isSome ↔
    IsClass raw owner ∧ IsNameType raw nameType fun t => ∀ s, t ≠ .method s := by
  rw [isClass_iff, isNameType_iff]
  unfold fieldRef?
  cases hclass : class? raw owner with
  | none => simp
  | some c =>
    cases hnt : nameType? raw nameType with
    | none => simp
    | some nt =>
      cases htype : nt.type with
      | plain type => simp [htype]
      | method s => simp [htype]

theorem methodRef?_isSome {owner nameType : UInt16} {isInterface : Bool} :
    (methodRef? raw owner nameType isInterface).isSome ↔
      IsClass raw owner ∧ IsNameType raw nameType fun t => ∃ s, t = .method s := by
  rw [isClass_iff, isNameType_iff]
  unfold methodRef?
  cases hclass : class? raw owner with
  | none => simp
  | some c =>
    cases hnt : nameType? raw nameType with
    | none => simp
    | some nt =>
      cases htype : nt.type with
      | plain type => simp [htype]
      | method s => simp [htype]

/-- The sound entries are those with a meaning. -/
theorem sound_iff {e : PoolEntry} : Sound raw e ↔ (meaning? raw e).isSome := by
  cases e with
  | classRef index | string index =>
    simp only [meaning?, Option.isSome_map]
    exact isText_iff
  | nameAndType nameIndex descriptorIndex =>
    simp only [meaning?, Option.isSome_map, Option.isSome_iff_exists, nameTypeOf?_eq_some,
      text?_eq_some]
    constructor
    · rintro ⟨⟨name, hname⟩, text, type, htext, hparse⟩
      exact ⟨⟨name, text, type⟩, hname, htext, hparse⟩
    · rintro ⟨nt, hname, htext, hparse⟩
      exact ⟨⟨_, hname⟩, _, _, htext, hparse⟩
  | fieldRef owner nameType =>
    simp only [meaning?, Option.isSome_map]
    exact fieldRef?_isSome.symm
  | methodRef owner nameType | interfaceMethodRef owner nameType =>
    simp only [meaning?, Option.isSome_map]
    exact methodRef?_isSome.symm
  | _ => exact iff_of_true trivial rfl

end Soundness

def resolveSimple (raw : Array (Option PoolEntry)) (e : PoolEntry) : Outcome where
  constant := (resolveNamed raw e).constant <|> (resolveLeaf e).constant
  causes := (resolveNamed raw e).causes

def outcome (raw : Array (Option PoolEntry)) (e : PoolEntry) : Outcome where
  constant :=
    (resolveMember (simplePasses raw).pool e).constant <|> (resolveSimple raw e).constant
  causes := (resolveSimple raw e).causes ++ (resolveMember (simplePasses raw).pool e).causes

/-- Members refer to constants that refer to texts; the other entries refer to texts only, if at
all. -/
def isMember : PoolEntry → Bool
  | .fieldRef _ _ | .methodRef _ _ | .interfaceMethodRef _ _ => true
  | _ => false

/-- The outcome is the constant, or it has causes why there is none. -/
def Outcome.Decides (o : Outcome) (c : Option Constant) : Prop :=
  o.constant = c ∧ (o.causes = [] ↔ c.isSome)

theorem Outcome.decides_done (c : Constant) : (done c).Decides (some c) :=
  ⟨rfl, iff_of_true rfl rfl⟩

theorem Outcome.decides_failed {causes : List Cause} (h : causes ≠ []) :
    (failed causes).Decides none :=
  ⟨rfl, iff_of_false h nofun⟩

section Passes

variable {raw : Array (Option PoolEntry)}

theorem textAt_cases (raw : Array (Option PoolEntry)) (index : UInt16) :
    (∃ text, textAt raw index = .ok text ∧ text? raw index = some text) ∨
      ∃ c, textAt raw index = .error c ∧ text? raw index = none := by
  unfold textAt text? entryAt?
  by_cases hzero : index = 0
  · simp [hzero]
  · by_cases hsize : raw.size < index.toNat
    · have hnone : raw[index.toNat - 1]? = none := Array.getElem?_eq_none (by omega)
      simp [hzero, hsize, hnone]
    · rw [if_neg (by simp [hzero, hsize]), if_neg hzero]
      cases raw[index.toNat - 1]? with
      | none => exact .inr ⟨_, rfl, rfl⟩
      | some slot =>
        cases slot with
        | none => exact .inr ⟨_, rfl, rfl⟩
        | some e =>
          cases e with
          | utf8 text => exact .inl ⟨text, rfl, rfl⟩
          | _ => exact .inr ⟨_, rfl, rfl⟩

theorem resolveNameType_decides {nameIndex descriptorIndex : UInt16} {name text : Bytes}
    (hname : text? raw nameIndex = some name) (htext : text? raw descriptorIndex = some text) :
    (resolveNameType name text).Decides
      ((nameTypeOf? raw nameIndex descriptorIndex).map .nameType) := by
  unfold resolveNameType
  cases hparse : Descriptor.parse text with
  | ok type =>
    have hnt : nameTypeOf? raw nameIndex descriptorIndex = some ⟨name, text, type⟩ :=
      nameTypeOf?_eq_some.mpr ⟨hname, htext, hparse⟩
    rw [hnt]
    exact Outcome.decides_done _
  | error e =>
    have hnone : nameTypeOf? raw nameIndex descriptorIndex = none := by
      simp [nameTypeOf?, hname, htext, hparse, Except.toOption]
    rw [hnone]
    exact Outcome.decides_failed (List.cons_ne_nil _ _)

/-- The first passes give an entry that is no member its meaning, or causes. -/
theorem resolveSimple_decides (raw : Array (Option PoolEntry)) {e : PoolEntry}
    (he : isMember e = false) :
    (resolveSimple raw e).Decides (meaning? raw e) := by
  cases e with
  | classRef index | string index =>
    rcases textAt_cases raw index with ⟨text, hat, htext⟩ | ⟨c, hat, htext⟩
    · simp only [resolveSimple, resolveNamed, meaning?, hat, htext]
      exact Outcome.decides_done _
    · simp only [resolveSimple, resolveNamed, meaning?, hat, htext]
      exact Outcome.decides_failed (List.cons_ne_nil _ _)
  | nameAndType nameIndex descriptorIndex =>
    have hnone : text? raw nameIndex = none ∨ text? raw descriptorIndex = none →
        nameTypeOf? raw nameIndex descriptorIndex = none := by
      unfold nameTypeOf?
      rintro (hname | htext)
      · simp [hname]
      · simp [htext]
    have hlater :
        ∀ o : Outcome, (⟨o.constant <|> Outcome.later.constant, o.causes⟩ : Outcome) = o := by
      intro o
      simp [Outcome.later]
    unfold resolveSimple resolveNamed meaning?
    refine (hlater _).symm ▸ ?_
    rcases textAt_cases raw nameIndex with ⟨name, hat, hname⟩ | ⟨c, hat, hname⟩ <;>
      rcases textAt_cases raw descriptorIndex with ⟨text, hat', htext⟩ | ⟨d, hat', htext⟩ <;>
      simp only [hat, hat']
    · exact resolveNameType_decides hname htext
    · rw [hnone (.inr htext)]
      exact Outcome.decides_failed (List.cons_ne_nil _ _)
    · rw [hnone (.inl hname)]
      exact Outcome.decides_failed (List.cons_ne_nil _ _)
    · rw [hnone (.inl hname)]
      exact Outcome.decides_failed (List.cons_ne_nil _ _)
  | fieldRef | methodRef | interfaceMethodRef => cases he
  | _ => exact Outcome.decides_done _

theorem resolveSimple_member {e : PoolEntry} (he : isMember e = true) :
    resolveSimple raw e = .later := by
  cases e with
  | fieldRef | methodRef | interfaceMethodRef => rfl
  | _ => cases he

theorem resolveMember_simple {pool : ConstantPool} {e : PoolEntry} (he : isMember e = false) :
    resolveMember pool e = .later := by
  cases e with
  | fieldRef | methodRef | interfaceMethodRef => cases he
  | _ => rfl

def OfMember (c : Constant) : Prop := (∃ r, c = .fieldRef r) ∨ ∃ r, c = .methodRef r

/-- The last pass makes members only. -/
theorem resolveMember_constant {pool : ConstantPool} {e : PoolEntry} {c : Constant}
    (h : (resolveMember pool e).constant = some c) : OfMember c := by
  have hmethod : ∀ {owner nameType isInterface},
      (resolveMethod pool owner nameType isInterface).constant = some c → OfMember c := by
    intro owner nameType isInterface h
    unfold resolveMethod at h
    split at h
    · cases h
    · split at h
      · cases h
        exact .inr ⟨_, rfl⟩
      · cases h
  cases e with
  | fieldRef owner nameType =>
    change (resolveField pool owner nameType).constant = some c at h
    unfold resolveField at h
    split at h
    · cases h
    · split at h
      · cases h
        exact .inl ⟨_, rfl⟩
      · cases h
  | methodRef | interfaceMethodRef => exact hmethod h
  | _ => cases h

theorem get_eq_ok {pool : ConstantPool} {index : UInt16} {c : Constant} :
    pool.get index = .ok c ↔ index ≠ 0 ∧ pool[index.toNat]? = some (some c) := by
  unfold get
  by_cases hzero : index = 0
  · simp [hzero]
  · rw [if_neg hzero, and_iff_right hzero]
    cases pool[index.toNat]? with
    | none => simp
    | some slot => cases slot <;> simp

theorem slotOf_index {index : UInt16} (hzero : index ≠ 0) :
    slotOf (index.toNat - 1) = index.toNat := by
  have hpos : index.toNat ≠ 0 := fun h => hzero (UInt16.toNat_inj.mp h)
  have hlt := index.toNat_lt
  rw [slotOf_of_lt (by omega)]
  omega

theorem size_simplePasses : (simplePasses raw).pool.size = raw.size + 1 := by
  unfold simplePasses
  rw [size_pass, size_pass, Array.size_replicate]

theorem size_passes : (passes raw).pool.size = raw.size + 1 := by
  unfold passes
  rw [size_pass, size_simplePasses]

/-- After the first passes, slots hold what entries are resolved to without the pool. -/
theorem getElem?_simplePasses {k : Nat} {entry : Option PoolEntry} (hk : raw[k]? = some entry)
    (halone : Alone raw k) : (simplePasses raw).pool[slotOf k]? =
      some (entry.bind fun e => (resolveSimple raw e).constant) := by
  have hlt : k < raw.size := (Array.getElem?_eq_some_iff.mp hk).1
  have hslot : slotOf k < raw.size + 1 := by
    unfold slotOf
    omega
  unfold simplePasses
  obtain ⟨_, hnamed⟩ := getElem?_pass (fun _ => resolveNamed raw) _ hk halone
  obtain ⟨_, hleaf⟩ := getElem?_pass (fun _ => resolveLeaf) _ hk halone
  rw [hnamed, hleaf, Array.getElem?_replicate, if_pos hslot]
  cases entry <;> simp [resolveSimple]

theorem getElem?_passes {k : Nat} {entry : Option PoolEntry} (hk : raw[k]? = some entry)
    (halone : Alone raw k) : ∃ pool, (passes raw).pool[slotOf k]? =
      some ((entry.bind fun e => (resolveMember pool e).constant) <|>
        entry.bind fun e => (resolveSimple raw e).constant) := by
  obtain ⟨pool, hpool⟩ := getElem?_pass resolveMember (simplePasses raw) hk halone
  exact ⟨pool, by rw [passes, hpool, getElem?_simplePasses hk halone, Option.map_some]⟩

theorem entryAt?_eq_some {index : UInt16} {e : PoolEntry} : entryAt? raw index = some e ↔
    index ≠ 0 ∧ raw[index.toNat - 1]? = some (some e) := by
  unfold entryAt?
  by_cases hzero : index = 0
  · simp [hzero]
  · rw [if_neg hzero, and_iff_right hzero, Option.join_eq_some_iff]

/-- The constant at an index is in the slot of the entry there. -/
theorem get_eq_ok_of_size {pool : ConstantPool} (hsize : pool.size = raw.size + 1)
    {index : UInt16} {c : Constant} : pool.get index = .ok c ↔ index ≠ 0 ∧ ∃ entry,
      raw[index.toNat - 1]? = some entry ∧ pool[slotOf (index.toNat - 1)]? = some (some c) := by
  rw [get_eq_ok]
  refine and_congr_right fun hzero => ?_
  rw [slotOf_index hzero]
  refine ⟨fun hslot => ?_, fun ⟨_, _, hslot⟩ => hslot⟩
  have hpos : index.toNat ≠ 0 := fun h => hzero (UInt16.toNat_inj.mp h)
  have hlt : index.toNat < pool.size := (Array.getElem?_eq_some_iff.mp hslot).1
  exact ⟨_, Array.getElem?_eq_getElem (by omega), hslot⟩

theorem resolveSimple_constant {e : PoolEntry} {c : Constant} :
    (resolveSimple raw e).constant = some c ↔ isMember e = false ∧ meaning? raw e = some c := by
  cases he : isMember e with
  | true =>
    rw [resolveSimple_member he]
    exact iff_of_false nofun fun h => Bool.noConfusion h.1
  | false => rw [(resolveSimple_decides raw he).1, and_iff_right rfl]

theorem meaning?_member {e : PoolEntry} {c : Constant} (he : isMember e = true)
    (h : meaning? raw e = some c) : OfMember c := by
  cases e with
  | fieldRef | methodRef | interfaceMethodRef =>
    obtain ⟨r, -, rfl⟩ := Option.map_eq_some_iff.mp h
    simp [OfMember]
  | _ => cases he

/-- What is at an index before the members are resolved, if one entry alone comes to its slot. -/
theorem get_simplePasses {index : UInt16} (halone : Alone raw (index.toNat - 1)) {c : Constant} :
    (simplePasses raw).pool.get index = .ok c ↔
      ∃ e, entryAt? raw index = some e ∧ isMember e = false ∧ meaning? raw e = some c := by
  rw [get_eq_ok_of_size size_simplePasses]
  simp only [entryAt?_eq_some]
  constructor
  · rintro ⟨hzero, entry, hk, hslot⟩
    rw [getElem?_simplePasses hk halone] at hslot
    obtain ⟨e, rfl, hconstant⟩ := Option.bind_eq_some_iff.mp (Option.some.inj hslot)
    exact ⟨e, ⟨hzero, hk⟩, resolveSimple_constant.mp hconstant⟩
  · rintro ⟨e, ⟨hzero, hk⟩, hconstant⟩
    refine ⟨hzero, _, hk, ?_⟩
    rw [getElem?_simplePasses hk halone, Option.bind_some, resolveSimple_constant.mpr hconstant]

/-- What is there at last, except for the constants of members. -/
theorem get_passes {index : UInt16} (halone : Alone raw (index.toNat - 1)) {c : Constant}
    (hc : ¬ OfMember c) : (passes raw).pool.get index = .ok c ↔
      ∃ e, entryAt? raw index = some e ∧ meaning? raw e = some c := by
  rw [get_eq_ok_of_size size_passes]
  simp only [entryAt?_eq_some]
  constructor
  · rintro ⟨hzero, entry, hk, hslot⟩
    obtain ⟨pool, hpool⟩ := getElem?_passes hk halone
    rw [hpool, Option.some_inj] at hslot
    cases entry with
    | none => cases hslot
    | some e =>
      refine ⟨e, ⟨hzero, hk⟩, ?_⟩
      rw [Option.bind_some, Option.bind_some] at hslot
      cases hmember : (resolveMember pool e).constant with
      | none =>
        rw [hmember] at hslot
        exact (resolveSimple_constant.mp hslot).2
      | some c' =>
        rw [hmember] at hslot
        cases hslot
        exact absurd (resolveMember_constant hmember) hc
  · rintro ⟨e, ⟨hzero, hk⟩, hmeaning⟩
    have he : isMember e = false := by
      cases he : isMember e with
      | true => exact absurd (meaning?_member he hmeaning) hc
      | false => rfl
    obtain ⟨pool, hpool⟩ := getElem?_passes hk halone
    refine ⟨hzero, _, hk, ?_⟩
    rw [hpool, Option.bind_some, Option.bind_some, resolveMember_simple he,
      resolveSimple_constant.mpr ⟨he, hmeaning⟩]
    rfl

theorem problemsFrom_leaf (position : Nat) (entries : List (Option PoolEntry)) :
    problemsFrom resolveLeaf position entries = [] := by
  refine List.eq_nil_iff_forall_not_mem.mpr fun p hp => ?_
  obtain ⟨k, e, -, -, hcause⟩ := mem_problemsFrom.mp hp
  cases e <;> cases hcause

theorem problems_simplePasses :
    (simplePasses raw).problems.toList = problemsFrom (resolveNamed raw) 0 raw.toList := by
  rw [simplePasses, problems_pass, problems_pass, problemsFrom_leaf]
  rfl

/-- In a pool that is resolved the texts are found, even if there are more entries than slots. -/
theorem sound_of_resolved {pool : ConstantPool} (h : resolve raw = .ok pool) {e : PoolEntry}
    (hmem : some e ∈ raw) (he : isMember e = false) : Sound raw e := by
  have hnone : problemsFrom (resolveNamed raw) 0 raw.toList = [] := by
    have hprefix : _ <+: (passes raw).problems.toList := problems_prefix
    rw [(resolve_eq_ok.mp h).1, List.prefix_nil, problems_simplePasses] at hprefix
    exact hprefix
  rw [sound_iff, ← (resolveSimple_decides raw he).2]
  refine List.eq_nil_iff_forall_not_mem.mpr fun cause hcause => ?_
  obtain ⟨k, hk⟩ := Array.mem_iff_getElem?.mp hmem
  have hp : (⟨slotOf (0 + k), cause⟩ : Problem) ∈ problemsFrom (resolveNamed raw) 0 raw.toList :=
    mem_problemsFrom.mpr ⟨k, e, Array.getElem?_toList ▸ hk, rfl, hcause⟩
  rw [hnone] at hp
  cases hp

structure Linked (raw : Array (Option PoolEntry)) (pool : ConstantPool) : Prop where
  classes : ∀ index owner, pool.get index = .ok (.classRef owner) ↔ class? raw index = some owner
  nameTypes : ∀ index nt, pool.get index = .ok (.nameType nt) ↔ nameType? raw index = some nt

/-- A member finds its class and its name with type, or the causes say what it does not find. -/
theorem resolveOwner_eq {pool : ConstantPool} (hl : Linked raw pool) (owner nameType : UInt16) :
    resolveOwner pool owner nameType = match class? raw owner, nameType? raw nameType with
      | some c, some nt => .ok (c, nt)
      | some _, none => .error [.notNameType nameType]
      | none, some _ => .error [.notClass owner]
      | none, none => .error [.notClass owner, .notNameType nameType] := by
  have hnoClass :
      (∀ c, pool.get owner = .ok (.classRef c) → False) → class? raw owner = none := by
    intro hnot
    exact Option.eq_none_iff_forall_ne_some.mpr fun c hc => hnot c ((hl.classes ..).mpr hc)
  have hnoNameType : (∀ nt, pool.get nameType = .ok (.nameType nt) → False) →
      nameType? raw nameType = none := by
    intro hnot
    exact Option.eq_none_iff_forall_ne_some.mpr fun nt hnt => hnot nt ((hl.nameTypes ..).mpr hnt)
  unfold resolveOwner
  split
  · rename_i c nt hc hnt
    rw [(hl.classes ..).mp hc, (hl.nameTypes ..).mp hnt]
  · rename_i c hc hnot
    rw [(hl.classes ..).mp hc, hnoNameType hnot]
  · rename_i nt hnt hnot
    rw [hnoClass hnot, (hl.nameTypes ..).mp hnt]
  · rename_i hnot hnot' _
    rw [hnoClass hnot, hnoNameType hnot']

/-- A member depends on the classes and the names with types of the pool only. -/
theorem resolveMember_congr {pool pool' : ConstantPool} (hl : Linked raw pool)
    (hl' : Linked raw pool') (e : PoolEntry) : resolveMember pool e = resolveMember pool' e := by
  cases e with
  | fieldRef | methodRef | interfaceMethodRef =>
    simp only [resolveMember, resolveField, resolveMethod, resolveOwner_eq hl,
      resolveOwner_eq hl']
  | _ => rfl

/-- Where these are found in the pool, a field has its meaning, or causes. -/
theorem resolveField_decides {pool : ConstantPool} (hl : Linked raw pool)
    (owner nameType : UInt16) :
    (resolveField pool owner nameType).Decides
      ((fieldRef? raw owner nameType).map .fieldRef) := by
  unfold resolveField fieldRef?
  rw [resolveOwner_eq hl]
  cases class? raw owner with
  | none => cases nameType? raw nameType <;> exact Outcome.decides_failed (List.cons_ne_nil _ _)
  | some c =>
    cases nameType? raw nameType with
    | none => exact Outcome.decides_failed (List.cons_ne_nil _ _)
    | some nt =>
      cases htype : nt.type with
      | plain type => simpa [htype] using Outcome.decides_done _
      | method s => simpa [htype] using Outcome.decides_failed (List.cons_ne_nil _ _)

theorem resolveMethod_decides {pool : ConstantPool} (hl : Linked raw pool)
    (owner nameType : UInt16) (isInterface : Bool) :
    (resolveMethod pool owner nameType isInterface).Decides
      ((methodRef? raw owner nameType isInterface).map .methodRef) := by
  unfold resolveMethod methodRef?
  rw [resolveOwner_eq hl]
  cases class? raw owner with
  | none => cases nameType? raw nameType <;> exact Outcome.decides_failed (List.cons_ne_nil _ _)
  | some c =>
    cases nameType? raw nameType with
    | none => exact Outcome.decides_failed (List.cons_ne_nil _ _)
    | some nt =>
      cases htype : nt.type with
      | plain type => simpa [htype] using Outcome.decides_failed (List.cons_ne_nil _ _)
      | method s => simpa [htype] using Outcome.decides_done _

theorem resolveMember_decides {pool : ConstantPool} (hl : Linked raw pool) {e : PoolEntry}
    (he : isMember e = true) : (resolveMember pool e).Decides (meaning? raw e) := by
  cases e with
  | fieldRef owner nameType => exact resolveField_decides hl owner nameType
  | methodRef owner nameType => exact resolveMethod_decides hl owner nameType false
  | interfaceMethodRef owner nameType => exact resolveMethod_decides hl owner nameType true
  | _ => cases he

end Passes

section Addressable

variable {raw : Array (Option PoolEntry)}

theorem alone_index (hsize : raw.size ≤ 65536) (index : UInt16) : Alone raw (index.toNat - 1) :=
  alone_of_size hsize (Nat.lt_of_le_of_lt (Nat.sub_le _ _) index.toNat_lt)

/-- The first passes leave them in the pool. -/
theorem linked_simplePasses (hsize : raw.size ≤ 65535) : Linked raw (simplePasses raw).pool where
  classes index owner := by
    rw [get_simplePasses (alone_index (by omega) index)]
    unfold class?
    constructor
    · rintro ⟨e, he, -, hc⟩
      rw [he]
      cases e with
      | classRef nameIndex => simpa [meaning?] using hc
      | _ => simp [meaning?] at hc
    · intro h
      split at h
      · rename_i nameIndex he
        exact ⟨_, he, rfl, by simpa [meaning?] using h⟩
      · cases h
  nameTypes index nt := by
    rw [get_simplePasses (alone_index (by omega) index)]
    unfold nameType?
    constructor
    · rintro ⟨e, he, -, hc⟩
      rw [he]
      cases e with
      | nameAndType nameIndex descriptorIndex => simpa [meaning?] using hc
      | _ => simp [meaning?] at hc
    · intro h
      split at h
      · rename_i nameIndex descriptorIndex he
        exact ⟨_, he, rfl, by simpa [meaning?] using h⟩
      · cases h

/-- A member changes nothing that is not a member, except for what was in its own slot. -/
theorem get_put_member (hsize : raw.size ≤ 65535) {r : Progress} {k : Nat} {e : PoolEntry}
    (hk : raw[k]? = some (some e)) {index : UInt16} {c : Constant} (hc : ¬ OfMember c)
    (hown : entryAt? raw index = some e → r.pool.get index ≠ .ok c) :
    (r.put k (resolveMember r.pool e)).pool.get index = .ok c ↔ r.pool.get index = .ok c := by
  rw [get_eq_ok, get_eq_ok]
  refine and_congr_right fun hzero => ⟨fun h => ?_, fun h => ?_⟩
  · rcases Progress.put_cases h with hold | hconstant
    · exact hold
    · exact absurd (resolveMember_constant hconstant) hc
  · rw [Progress.getElem?_put, if_neg, h]
    intro hslot
    have hlt : k < raw.size := (Array.getElem?_eq_some_iff.mp hk).1
    rw [slotOf_of_lt (by omega)] at hslot
    have hentry : entryAt? raw index = some e := by
      rw [entryAt?_eq_some, ← hslot, Nat.add_sub_cancel]
      exact ⟨hzero, hk⟩
    exact hown hentry (get_eq_ok.mpr ⟨hzero, h⟩)

/-- A member comes to its own slot, which no other member looks at for a class or a name with
type. -/
theorem linked_put (hsize : raw.size ≤ 65535) {r : Progress} {k : Nat} {e : PoolEntry}
    (hk : raw[k]? = some (some e)) (hl : Linked raw r.pool) :
    Linked raw (r.put k (resolveMember r.pool e)).pool := by
  cases he : isMember e with
  | false =>
    rw [resolveMember_simple he]
    exact hl
  | true =>
    constructor
    · intro index owner
      rw [get_put_member hsize hk (by rintro (⟨r, h⟩ | ⟨r, h⟩) <;> cases h), hl.classes]
      intro hentry h
      have hclass := (hl.classes ..).mp h
      unfold class? at hclass
      rw [hentry] at hclass
      cases e with
      | fieldRef | methodRef | interfaceMethodRef => cases hclass
      | _ => cases he
    · intro index nt
      rw [get_put_member hsize hk (by rintro (⟨r, h⟩ | ⟨r, h⟩) <;> cases h), hl.nameTypes]
      intro hentry h
      have hnameType := (hl.nameTypes ..).mp h
      unfold nameType? at hnameType
      rw [hentry] at hnameType
      cases e with
      | fieldRef | methodRef | interfaceMethodRef => cases hnameType
      | _ => cases he

/-- As long as every entry has its slot, the members do not get in each other's way. -/
theorem passes_eq (hsize : raw.size ≤ 65535) : passes raw =
    pass (fun _ => resolveMember (simplePasses raw).pool) 0 raw.toList (simplePasses raw) := by
  have hlinked := linked_simplePasses hsize
  refine pass_congr (motive := fun r => Linked raw r.pool) ?_ hlinked
  intro k e r hk hl
  rw [Array.getElem?_toList] at hk
  have heq := resolveMember_congr hl hlinked e
  rw [← heq, Nat.zero_add]
  exact ⟨rfl, linked_put hsize hk hl⟩

/-- Each entry is the business of one of the passes. -/
theorem outcome_decides (hsize : raw.size ≤ 65535) (e : PoolEntry) :
    (outcome raw e).Decides (meaning? raw e) := by
  unfold outcome
  cases he : isMember e with
  | true =>
    have h := resolveMember_decides (linked_simplePasses hsize) he
    rw [resolveSimple_member he]
    simpa [Outcome.later, Outcome.Decides] using h
  | false =>
    have h := resolveSimple_decides raw he
    rw [resolveMember_simple he]
    simpa [Outcome.later, Outcome.Decides] using h

variable (raw) in
def allProblems : List Problem :=
  problemsFrom (resolveNamed raw) 0 raw.toList ++
    problemsFrom (resolveMember (simplePasses raw).pool) 0 raw.toList

theorem mem_allProblems {p : Problem} : p ∈ allProblems raw ↔
    ∃ k e, raw[k]? = some (some e) ∧ p.slot = slotOf k ∧ p.cause ∈ (outcome raw e).causes := by
  unfold allProblems outcome resolveSimple
  simp only [List.mem_append, mem_problemsFrom, Array.getElem?_toList, Nat.zero_add]
  constructor
  · rintro (⟨k, e, hk, hslot, hcause⟩ | ⟨k, e, hk, hslot, hcause⟩)
    · exact ⟨k, e, hk, hslot, .inl hcause⟩
    · exact ⟨k, e, hk, hslot, .inr hcause⟩
  · rintro ⟨k, e, hk, hslot, hcause | hcause⟩
    · exact .inl ⟨k, e, hk, hslot, hcause⟩
    · exact .inr ⟨k, e, hk, hslot, hcause⟩

theorem problems_passes (hsize : raw.size ≤ 65535) :
    (passes raw).problems.toList = allProblems raw := by
  rw [passes_eq hsize, problems_pass, problems_simplePasses]
  rfl

/-- The entries with a problem are the unsound ones. -/
theorem reported_iff (hsize : raw.size ≤ 65535) {k : Nat} {e : PoolEntry}
    (hk : raw[k]? = some (some e)) : (∃ p ∈ allProblems raw, p.slot = k + 1) ↔ ¬ Sound raw e := by
  rw [sound_iff, ← (outcome_decides hsize e).2]
  have hslots : ∀ {j e'}, raw[j]? = some (some e') → slotOf j = j + 1 := by
    intro j e' hj
    have := (Array.getElem?_eq_some_iff.mp hj).1
    exact slotOf_of_lt (by omega)
  constructor
  · rintro ⟨p, hp, hslot⟩ hnil
    obtain ⟨k', e', hk', hslot', hcause⟩ := mem_allProblems.mp hp
    rw [hslots hk'] at hslot'
    obtain rfl : k' = k := by omega
    cases hk.symm.trans hk'
    rw [hnil] at hcause
    cases hcause
  · intro hne
    obtain ⟨c, hc⟩ := List.exists_mem_of_ne_nil _ hne
    exact ⟨⟨k + 1, c⟩, mem_allProblems.mpr ⟨k, e, hk, (hslots hk).symm, hc⟩, rfl⟩

/-- There is no problem exactly if all entries are sound. -/
theorem allProblems_eq_nil (hsize : raw.size ≤ 65535) :
    allProblems raw = [] ↔ ∀ e, some e ∈ raw → Sound raw e := by
  constructor
  · intro hnil e he
    obtain ⟨k, hk⟩ := Array.mem_iff_getElem?.mp he
    refine Classical.byContradiction fun hunsound => ?_
    obtain ⟨p, hp, -⟩ := (reported_iff hsize hk).mpr hunsound
    rw [hnil] at hp
    cases hp
  · intro hsound
    refine List.eq_nil_iff_forall_not_mem.mpr fun p hp => ?_
    obtain ⟨k, e, hk, hslot, -⟩ := mem_allProblems.mp hp
    have hlt := (Array.getElem?_eq_some_iff.mp hk).1
    rw [slotOf_of_lt (by omega)] at hslot
    exact (reported_iff hsize hk).mp ⟨p, hp, hslot⟩ (hsound e (Array.mem_of_getElem? hk))

/-- After all passes the slots hold the meanings of their entries. -/
theorem pool_passes (hsize : raw.size ≤ 65535) : (passes raw).pool = meanings raw := by
  refine Array.ext_getElem? fun slot => ?_
  cases slot with
  | zero =>
    have hother : ∀ resolve r, (pass resolve 0 raw.toList r).pool[0]? = r.pool[0]? := by
      intro resolve r
      refine getElem?_pass_other fun k e hk => ?_
      have hlt : k < raw.size := (List.getElem?_eq_some_iff.mp hk).1
      rw [Nat.zero_add, slotOf_of_lt (by omega)]
      exact Nat.succ_ne_zero k
    rw [passes, hother, simplePasses, hother, hother, Array.getElem?_replicate, if_pos (by omega)]
    unfold meanings
    rw [Array.getElem?_append_left (by simp)]
    rfl
  | succ k =>
    have hmeaning : (meanings raw)[k + 1]? = raw[k]?.map (·.bind (meaning? raw)) := by
      unfold meanings
      rw [Array.getElem?_append_right (by simp)]
      simp
    rw [hmeaning]
    cases hk : raw[k]? with
    | none =>
      have := Array.getElem?_eq_none_iff.mp hk
      rw [Array.getElem?_eq_none (by rw [size_passes]; omega)]
      rfl
    | some entry =>
      have hlt := (Array.getElem?_eq_some_iff.mp hk).1
      have halone : Alone raw k := alone_of_size (by omega) (by omega)
      obtain ⟨_, hslot⟩ :=
        getElem?_pass (fun _ => resolveMember (simplePasses raw).pool)
          (simplePasses raw) hk halone
      rw [getElem?_simplePasses hk halone, slotOf_of_lt (by omega)] at hslot
      rw [passes_eq hsize, hslot]
      cases entry with
      | none => rfl
      | some e => exact congrArg some (outcome_decides hsize e).1

end Addressable

/-- What is looked up in a resolved pool is what the entries mean, except for members. -/
theorem get_resolved {raw : Array (Option PoolEntry)} {pool : ConstantPool}
    (h : resolve raw = .ok pool) {index : UInt16} (halone : Alone raw (index.toNat - 1))
    {c : Constant} (hc : ¬ OfMember c) :
    pool.get index = .ok c ↔ ∃ e, entryAt? raw index = some e ∧ meaning? raw e = some c := by
  rw [← (resolve_eq_ok.mp h).2]
  exact get_passes halone hc

/-- Resolving gives the meanings, or all problems. -/
theorem resolve_eq {raw : Array (Option PoolEntry)} (hsize : raw.size ≤ 65535) :
    resolve raw = if allProblems raw = [] then .ok (meanings raw)
    else .error (allProblems raw) := by
  unfold resolve
  dsimp only
  rw [problems_passes hsize, pool_passes hsize]
  split
  · rename_i hnil
    rw [if_pos hnil]
  · rename_i hne
    rw [if_neg hne]

/-- An error of the pool is an error of loading. -/
theorem load_of_unresolved {file : ClassFile} {problems : List Problem}
    (h : resolve (file.pool.extract 1 file.pool.size) = .error problems) :
    Class.load file = .error (.pool problems) := by
  unfold Class.load
  rw [h]

/-- Resolving succeeds exactly on the pools whose entries are all sound, and then each slot has
the meaning of its entry. If it fails, its problems name the slots of the unsound entries and no
others, and they are what loading a class with the pool fails with. -/
theorem resolve_exact (raw : Array (Option PoolEntry)) (hsize : raw.size ≤ 65535) :
    (∀ pool, resolve raw = .ok pool ↔ (∀ e, some e ∈ raw → Sound raw e) ∧ pool = meanings raw) ∧
    ∀ problems, resolve raw = .error problems →
      (∀ k e, raw[k]? = some (some e) → ((∃ p ∈ problems, p.slot = k + 1) ↔ ¬ Sound raw e)) ∧
      (∀ p ∈ problems, ∃ k e, raw[k]? = some (some e) ∧ p.slot = k + 1) ∧
      FaultKind.load.text <+: (LoadError.pool problems).message ∧
      ∀ file : ClassFile, file.pool.extract 1 file.pool.size = raw →
        Class.load file = .error (.pool problems) := by
  constructor
  · intro pool
    rw [resolve_eq hsize, ← allProblems_eq_nil hsize]
    by_cases hnil : allProblems raw = []
    · simp [hnil, eq_comm]
    · simp [hnil]
  · intro problems h
    have heq : problems = allProblems raw := by
      rw [resolve_eq hsize] at h
      split at h
      · cases h
      · exact (Except.error.inj h).symm
    refine ⟨fun k e hk => heq ▸ reported_iff hsize hk, fun p hp => ?_, ?_, ?_⟩
    · obtain ⟨k, e, hk, hslot, -⟩ := mem_allProblems.mp (heq ▸ hp)
      have hlt := (Array.getElem?_eq_some_iff.mp hk).1
      exact ⟨k, e, hk, hslot.trans (slotOf_of_lt (by omega))⟩
    · unfold LoadError.message
      rw [List.append_assoc]
      exact List.prefix_append ..
    · rintro file rfl
      exact load_of_unresolved h

def crossedEntries : Array (Option PoolEntry) := #[some (.classRef 2), some (.utf8 "T")]

def loopedEntries : Array (Option PoolEntry) := #[some (.utf8 "T"), some (.classRef 2)]

/-- A class may stand before its name, and one that refers to itself is not sound. -/
theorem resolve_exact_crossed :
    resolve crossedEntries = .ok #[none, some (.classRef ⟨"T", 2⟩), some (.utf8 "T")] ∧
    (∀ e, some e ∈ crossedEntries → Sound crossedEntries e) ∧
    resolve loopedEntries = .error [⟨2, .notUtf8 2⟩] ∧ ¬ Sound loopedEntries (.classRef 2) := by
  have hcrossed :
      resolve crossedEntries = .ok #[none, some (.classRef ⟨"T", 2⟩), some (.utf8 "T")] := by
    rfl
  have hlooped : resolve loopedEntries = .error [⟨2, .notUtf8 2⟩] := by
    rfl
  have hsound := ((resolve_exact crossedEntries (by decide)).1 _).mp hcrossed
  have hreported := ((resolve_exact loopedEntries (by decide)).2 _ hlooped).1 1 (.classRef 2) rfl
  exact ⟨hcrossed, hsound.1, hlooped, hreported.mp ⟨_, List.mem_singleton_self _, rfl⟩⟩

end ConstantPool

end ClassTrace
