import ClassTrace.Proofs.FieldTypes

/-!
The types of field constants beside those of declared fields. Both come from the one parser of
descriptors, and on every descriptor that a field can be declared with they are the same. A
constant may also spell void: resolving a pool turns away the descriptors of methods only, while a
field with that descriptor is not loaded.
-/
namespace ClassTrace

/-- Void alone is read only from its letter. -/
theorem Descriptor.parse_eq_void {text : Bytes} :
    parse text = .ok (.plain .void) ↔ text = "V" := by
  rw [parse_eq_ok]
  exact ⟨fun h => h.2.symm, fun h => ⟨.inr rfl, h.symm⟩⟩

theorem FieldType.parse_void : FieldType.parse "V" = .error .voidField := by
  unfold FieldType.parse
  rw [Descriptor.parse_eq_void.mpr rfl]

/-- The constant has the type that a field declared with its descriptor has. -/
def FieldRef.TypedAsDeclared (r : FieldRef) : Prop :=
  ∃ t, FieldType.parse r.nameType.descriptor = .ok t ∧ r.type = .value t ∧
    ∀ info : Member, info.descriptor = r.nameType.descriptor →
      Field.load info = .ok ⟨info.name, t, info.isStatic⟩

/-- A constant whose descriptor is not void has the type of a declared field. -/
theorem FieldRef.typedAsDeclared {r : FieldRef} (hvoid : r.nameType.descriptor ≠ "V")
    (hparse : Descriptor.parse r.nameType.descriptor = .ok (.plain r.type)) :
    r.TypedAsDeclared := by
  cases htype : r.type with
  | void =>
    rw [htype] at hparse
    exact absurd (Descriptor.parse_eq_void.mp hparse) hvoid
  | value t =>
    rw [htype] at hparse
    have ht := FieldType.parse_eq_ok.mpr hparse
    refine ⟨t, ht, htype, fun info hinfo => ?_⟩
    unfold Field.load
    rw [hinfo, ht]

namespace ConstantPool

variable {raw : Array (Option PoolEntry)}

theorem mem_of_mem_fieldRefs {pool : ConstantPool} {r : FieldRef} (h : r ∈ pool.fieldRefs) :
    some (.fieldRef r) ∈ pool := by
  obtain ⟨slot, hslot, heq⟩ := List.mem_filterMap.mp h
  have hr : slot = some (.fieldRef r) := by
    split at heq
    · exact congrArg _ (congrArg _ (Option.some.inj heq))
    · cases heq
  rw [← hr]
  exact Array.mem_toList_iff.mp hslot

/-- The descriptors that a field constant may spell: those of fields, and that of void. -/
theorem isFieldType_iff {text : Bytes} :
    (∃ type, Descriptor.parse text = .ok (.plain type)) ↔
    text = "V" ∨ ∃ t, FieldType.parse text = .ok t := by
  constructor
  · rintro ⟨type, hparse⟩
    cases type with
    | void => exact .inl (Descriptor.parse_eq_void.mp hparse)
    | value t => exact .inr ⟨t, FieldType.parse_eq_ok.mpr hparse⟩
  · rintro (hvoid | ⟨t, ht⟩)
    · exact ⟨.void, Descriptor.parse_eq_void.mpr hvoid⟩
    · exact ⟨.value t, FieldType.parse_eq_ok.mp ht⟩

/-- A field constant with a class and a name is sound if its descriptor is one of these. -/
theorem sound_fieldRef_iff {owner nameType nameIndex descriptorIndex : UInt16} {text : Bytes}
    (howner : IsClass raw owner)
    (hentry : entryAt? raw nameType = some (.nameAndType nameIndex descriptorIndex))
    (hname : IsText raw nameIndex) (htext : entryAt? raw descriptorIndex = some (.utf8 text)) :
    Sound raw (.fieldRef owner nameType) ↔ text = "V" ∨ ∃ t, FieldType.parse text = .ok t := by
  rw [← isFieldType_iff]
  constructor
  · rintro ⟨-, n, d, text', type, hentry', -, htext', hparse, hplain⟩
    cases hentry.symm.trans hentry'
    cases htext.symm.trans htext'
    cases type with
    | plain type => exact ⟨type, hparse⟩
    | method s => exact absurd rfl (hplain s)
  · rintro ⟨type, hparse⟩
    exact ⟨howner, nameIndex, descriptorIndex, text, .plain type, hentry, hname, htext,
      hparse, nofun⟩

/-- A problem of the slot is among those that resolving fails with. -/
def Refuses (raw : Array (Option PoolEntry)) (slot : Nat) : Prop :=
  ∃ problems, resolve raw = .error problems ∧ ∃ p ∈ problems, p.slot = slot

/-- An entry is refused exactly if it is not sound. -/
theorem refuses_iff_not_sound (hsize : raw.size ≤ 65535) {k : Nat} {e : PoolEntry}
    (hk : raw[k]? = some (some e)) : Refuses raw (k + 1) ↔ ¬ Sound raw e := by
  rw [← reported_iff hsize hk]
  unfold Refuses
  rw [resolve_eq hsize]
  constructor
  · rintro ⟨problems, hresolve, p, hp, hslot⟩
    split at hresolve
    · cases hresolve
    · cases hresolve
      exact ⟨p, hp, hslot⟩
  · rintro ⟨p, hp, hslot⟩
    rw [if_neg (List.ne_nil_of_mem hp)]
    exact ⟨_, rfl, p, hp, hslot⟩

/-- A field constant that does not spell void has the type that a field declared with its
descriptor has. One that spells void is resolved with that type, which no field can be declared
with. These are the only descriptors that a field constant can be resolved with, in a pool whose
entries have a slot each. -/
theorem field_references_typed (raw : Array (Option PoolEntry)) :
    (∀ pool, resolve raw = .ok pool → ∀ r ∈ pool.fieldRefs,
      (r.nameType.descriptor ≠ "V" → r.TypedAsDeclared) ∧
      (r.nameType.descriptor = "V" → r.type = .void ∧
        FieldType.parse r.nameType.descriptor = .error .voidField)) ∧
    (raw.size ≤ 65535 → ∀ k owner nameType nameIndex descriptorIndex text, raw[k]? =
      some (some (.fieldRef owner nameType)) →
      IsClass raw owner → entryAt? raw nameType = some (.nameAndType nameIndex descriptorIndex) →
      IsText raw nameIndex → entryAt? raw descriptorIndex = some (.utf8 text) →
      (Refuses raw (k + 1) ↔ text ≠ "V" ∧ ∀ t, FieldType.parse text ≠ .ok t)) := by
  constructor
  · intro pool hresolve r hr
    have hparse : Descriptor.parse r.nameType.descriptor = .ok (.plain r.type) :=
      spelled_resolve hresolve _ (mem_of_mem_fieldRefs hr)
    refine ⟨fun hvoid => r.typedAsDeclared hvoid hparse, fun hvoid => ?_⟩
    rw [hvoid, Descriptor.parse_eq_void.mpr rfl] at hparse
    injection hparse with hparse
    injection hparse with htype
    exact ⟨htype.symm, hvoid ▸ FieldType.parse_void⟩
  · intro hsize k owner nameType nameIndex descriptorIndex text hk howner hentry hname htext
    rw [refuses_iff_not_sound hsize hk, sound_fieldRef_iff howner hentry hname htext, not_or,
      not_exists]

def spelledEntries : Array (Option PoolEntry) :=
  #[some (.utf8 "T"), some (.classRef 1), some (.utf8 "x"), some (.utf8 "[J"),
    some (.nameAndType 3 4), some (.fieldRef 2 5), some (.utf8 "V"), some (.nameAndType 3 7),
    some (.fieldRef 2 8)]

def longsReference : FieldRef :=
  ⟨⟨"T", 1⟩, ⟨"x", "[J", .plain (.value (.array (.primitive .long)))⟩,
    .value (.array (.primitive .long))⟩

def voidReference : FieldRef := ⟨⟨"T", 1⟩, ⟨"x", "V", .plain .void⟩, .void⟩

def spelledPool : ConstantPool :=
  #[none, some (.utf8 "T"), some (.classRef ⟨"T", 1⟩), some (.utf8 "x"), some (.utf8 "[J"),
    some (.nameType longsReference.nameType), some (.fieldRef longsReference), some (.utf8 "V"),
    some (.nameType voidReference.nameType), some (.fieldRef voidReference)]

/-- Two constants for a field `x` spell an array of longs and void. The first has the type of a
field, and the second is not refused. -/
theorem field_references_typed_spelled : resolve spelledEntries = .ok spelledPool ∧
    longsReference ∈ spelledPool.fieldRefs ∧ longsReference.TypedAsDeclared ∧
    spelledEntries[8]? = some (some (.fieldRef 2 8)) ∧ ¬ Refuses spelledEntries 9 := by
  have hresolve : resolve spelledEntries = .ok spelledPool := by decide +kernel
  have hmem : longsReference ∈ spelledPool.fieldRefs := by decide +kernel
  have htyped :=
    ((field_references_typed spelledEntries).1 spelledPool hresolve longsReference hmem).1
      (by decide)
  have hrefuses := (field_references_typed spelledEntries).2 (by decide) 8 2 8 3 7 "V" rfl
    ⟨1, rfl, "T", rfl⟩ rfl ⟨"x", rfl⟩ rfl
  exact ⟨hresolve, hmem, htyped, rfl, fun h => (hrefuses.mp h).1 rfl⟩

def spelledFile : ClassFile where
  minor := 0
  major := 52
  pool := #[none] ++ spelledEntries
  flags := 0x21
  thisClass := 2
  superClass := 0
  interfaces := []
  fields := []
  methods := []

/-- The file is loaded, although one of its field constants has the type of no field. -/
theorem void_reference_loaded : Class.load spelledFile = .ok ⟨"T", [], spelledPool, [], []⟩ ∧
    voidReference ∈ spelledPool.fieldRefs ∧ ¬ voidReference.TypedAsDeclared := by
  refine ⟨by decide +kernel, by decide +kernel, ?_⟩
  rintro ⟨t, hparse, -⟩
  cases FieldType.parse_void.symm.trans hparse

end ConstantPool

end ClassTrace
