import ClassTrace.Proofs.PoolItems

/-!
Class files that end too early. A class file is read item by item: numbers, texts, skipped
payloads and bodies of attributes. Its outline lists them. Whatever is parsed as a class has an
outline, what stands behind it does not matter, and no shorter beginning of it is a class: the
input then ends between two items or cuts one short, and the error says which.
-/
namespace ClassTrace

open Layout StreamReader

namespace Layout

def AttributeLayout.items (a : AttributeLayout Bytes) : List Bytes :=
  [word a.nameIndex, Bytes.ofNat 4 a.content.length, a.content]

def AttributeLayout.Delimited (a : AttributeLayout Bytes) : Prop := a.content.length < 4294967296

def MemberLayout.items (m : MemberLayout Bytes) : List Bytes :=
  [word m.flags, word m.nameIndex, word m.descriptorIndex] ++
    tableItems AttributeLayout.items m.attributes

def MemberLayout.Delimited (m : MemberLayout Bytes) : Prop :=
  m.attributes.length < 65536 ∧ ∀ a ∈ m.attributes, a.Delimited

/-- What a class file says down to the bodies of its attributes, with the number of slots that it
declares for its pool. -/
structure Outline where
  minor : UInt16
  major : UInt16
  count : UInt16
  constants : List Constant
  flags : UInt16
  thisClass : UInt16
  superClass : UInt16
  interfaces : List UInt16
  fields : List (MemberLayout Bytes)
  methods : List (MemberLayout Bytes)
  attributes : List (AttributeLayout Bytes)

namespace Outline

def closing (o : Outline) : List Bytes :=
  [word o.flags, word o.thisClass, word o.superClass] ++
    (tableItems (fun index => [word index]) o.interfaces ++
      (tableItems MemberLayout.items o.fields ++
      (tableItems MemberLayout.items o.methods ++ tableItems AttributeLayout.items o.attributes)))

def items (o : Outline) : List Bytes :=
  [Bytes.ofNat 4 0xCAFEBABE, word o.minor, word o.major, word o.count] ++
    (o.constants.flatMap Constant.items ++ o.closing)

/-- Every number in front of a list or of bytes says how many there are. -/
structure Delimited (o : Outline) : Prop where
  constants : Fills o.count 1 o.constants
  interfaces : o.interfaces.length < 65536
  fieldCount : o.fields.length < 65536
  fields : ∀ m ∈ o.fields, m.Delimited
  methodCount : o.methods.length < 65536
  methods : ∀ m ∈ o.methods, m.Delimited
  attributeCount : o.attributes.length < 65536
  attributes : ∀ a ∈ o.attributes, a.Delimited

def pool (o : Outline) : Pool := place 1 (Array.replicate o.count.toNat none) o.constants

end Outline

end Layout

section Members

variable {pool : Pool} {input rest : Bytes}

theorem Pool.utf8At_took {place : FormatError.Place} {index : UInt16} {text : Bytes}
    (h : (pool.utf8At place index : StreamReader Bytes) input = .ok (text, rest)) :
    Took (pool.utf8At place index) [] text input rest := by
  unfold Pool.utf8At at h ⊢
  cases htext : pool.utf8 index with
  | error e =>
    rw [htext] at h
    cases h
  | ok found =>
    rw [htext] at h
    cases h
    exact ⟨rfl, .pure text⟩

/-- An attribute that was read is the items that it was read from. -/
theorem Attribute.read_took (i : Nat) {found : Attribute}
    (h : Attribute.read pool i input = .ok (found, rest)) :
    ∃ a : AttributeLayout Bytes, a.Delimited ∧
      Took (Attribute.read pool i) a.items found input rest := by
  obtain ⟨nameIndex, middle₁, hindex, h⟩ := bind_eq_ok h
  obtain ⟨length, middle₂, hlength, h⟩ := bind_eq_ok h
  obtain ⟨data, middle₃, hdata, h⟩ := bind_eq_ok h
  obtain ⟨name, middle₄, hname, h⟩ := bind_eq_ok h
  cases h
  have hindex := (u2_took (of_within hindex)).within (.attributeIndex i)
  have hlength := (u4_took (of_within hlength)).within (.attributeLength i)
  obtain ⟨hsize, hdata⟩ := bytes_took (of_within hdata)
  have hname := (Pool.utf8At_took hname).map fun name => Attribute.mk name data
  refine ⟨⟨nameIndex, data⟩, Nat.lt_of_le_of_lt (Nat.le_of_eq hsize) length.toNat_lt, ?_⟩
  rw [AttributeLayout.items, hsize]
  exact hindex.bind (hlength.bind ((hdata.within _).bind hname))

theorem Attribute.readAll_took {found : List Attribute}
    (h : Attribute.readAll pool input = .ok (found, rest)) :
    ∃ attributes : List (AttributeLayout Bytes), attributes.length < 65536 ∧
      (∀ a ∈ attributes, a.Delimited) ∧
      Took (Attribute.readAll pool) (tableItems AttributeLayout.items attributes) found input
        rest := by
  have hlast : Attribute.readAll pool = (within .attributeCount u2 >>= fun count =>
      (List.range count.toNat).mapM (Attribute.read pool) >>= pure) := by
    simp only [bind_pure]
    rfl
  rw [hlast] at h ⊢
  obtain ⟨attributes, found', middle, hcount, hall, hpure, htook⟩ :=
    table_took (fun i _ _ _ => Attribute.read_took i) h
  cases hpure
  refine ⟨attributes, hcount, hall, ?_⟩
  have hnothing := htook [] ⟨rfl, .pure _⟩
  rwa [List.append_nil] at hnothing

/-- A member that was read is the items that it was read from. -/
theorem Member.read_took {found : Member} (h : Member.read pool input = .ok (found, rest)) :
    ∃ m : MemberLayout Bytes, m.Delimited ∧ Took (Member.read pool) m.items found input rest := by
  obtain ⟨flags, middle₁, hflags, h⟩ := bind_eq_ok h
  obtain ⟨⟨nameIndex, descriptorIndex⟩, middle₂, hindices, h⟩ := bind_eq_ok h
  obtain ⟨name, middle₃, hname, h⟩ := bind_eq_ok h
  obtain ⟨descriptor, middle₄, hdescriptor, h⟩ := bind_eq_ok h
  obtain ⟨attributes', middle₅, hattributes, h⟩ := bind_eq_ok h
  cases h
  have hflags := (u2_took (of_within hflags)).within .accessFlags
  have hindices := (pair_took (of_within hindices)).within .memberIndices
  obtain ⟨attributes, hcount, hall, hattributes⟩ := Attribute.readAll_took (of_within hattributes)
  refine ⟨⟨flags, nameIndex, descriptorIndex, attributes⟩, ⟨hcount, hall⟩, ?_⟩
  refine hflags.bind (hindices.bind ((Pool.utf8At_took hname).bind ?_))
  exact (Pool.utf8At_took hdescriptor).bind ((hattributes.within _).map
    (Member.mk flags nameIndex descriptorIndex name descriptor))

theorem MethodMember.read_took (i : Nat) {found : MethodMember}
    (h : MethodMember.read pool i input = .ok (found, rest)) :
    ∃ m : MemberLayout Bytes, m.Delimited ∧
      Took (MethodMember.read pool i) m.items found input rest := by
  obtain ⟨member, middle, hmember, h⟩ := bind_eq_ok h
  obtain ⟨code, middle', hcode, h⟩ := bind_eq_ok h
  cases h
  obtain ⟨hok, rfl⟩ : member.code pool = .ok code ∧ middle = rest := lift_eq_ok hcode
  obtain ⟨m, hm, htook⟩ := Member.read_took (of_within hmember)
  have hlift : Reads (liftM (member.code pool)) [] code := .lift hok
  exact ⟨m, hm, (htook.within _).before (hlift.before (.pure (MethodMember.mk member code)))⟩

end Members

namespace ClassFile

/-- The magic number was there. -/
theorem magic_of_ok {mark : UInt32} {next : StreamReader ClassFile} {file : ClassFile}
    {input rest : Bytes}
    (h : (if mark ≠ magic then (throw (.badMagic mark) : StreamReader PUnit) >>= fun _ => next
      else next) input = .ok (file, rest)) : mark = magic ∧ next input = .ok (file, rest) := by
  by_cases hmark : mark = magic
  · rw [if_neg (not_not_intro hmark)] at h
    exact ⟨hmark, h⟩
  · rw [if_pos hmark] at h
    cases h

/-- Whatever is read as a class file has an outline. -/
theorem read_took {file : ClassFile} {input rest : Bytes} (h : read input = .ok (file, rest)) :
    ∃ o : Outline, o.Delimited ∧ o.pool = file.pool ∧ Took read o.items file input rest := by
  obtain ⟨mark, middle₁, hmark, h⟩ := bind_eq_ok h
  obtain ⟨rfl, h⟩ := magic_of_ok h
  obtain ⟨⟨minor, major⟩, middle₂, hversion, h⟩ := bind_eq_ok h
  obtain ⟨count, middle₃, hcount, h⟩ := bind_eq_ok h
  obtain ⟨pool, middle₄, hpool, h⟩ := bind_eq_ok h
  obtain ⟨flags, middle₅, hflags, h⟩ := bind_eq_ok h
  obtain ⟨⟨thisClass, superClass⟩, middle₆, hclasses, h⟩ := bind_eq_ok h
  have hinterface : ∀ i input rest v, within (.interface i) u2 input = .ok (v, rest) →
      ∃ index, True ∧ Took (within (.interface i) u2) [word index] v input rest :=
    fun i input rest v h => ⟨v, trivial, (u2_took (of_within h)).within _⟩
  have hfield :
      ∀ i input rest found, within (.field i) (Member.read pool) input = .ok (found, rest) →
      ∃ m : MemberLayout Bytes, m.Delimited ∧
        Took (within (.field i) (Member.read pool)) m.items found input rest := by
    intro i input rest found h
    obtain ⟨m, hm, htook⟩ := Member.read_took (of_within h)
    exact ⟨m, hm, htook.within _⟩
  obtain ⟨interfaces, found₁, middle₇, hinterfaces, -, h, htook₁⟩ := table_took hinterface h
  obtain ⟨fields, found₂, middle₈, hfieldCount, hfields, h, htook₂⟩ := table_took hfield h
  obtain ⟨methods, found₃, middle₉, hmethodCount, hmethods, h, htook₃⟩ :=
    table_took (fun i _ _ _ => MethodMember.read_took i) h
  obtain ⟨attributes', middle₁₀, hattributes, h⟩ := bind_eq_ok h
  cases h
  obtain ⟨attributes, hattributeCount, hall, hattributes⟩ :=
    Attribute.readAll_took (of_within hattributes)
  obtain ⟨constants, hfills, rfl, hpool⟩ := Pool.readRest_took (of_within hpool)
  refine ⟨⟨minor, major, count, constants, flags, thisClass, superClass, interfaces,
    fields, methods, attributes⟩,
    ⟨hfills, hinterfaces, hfieldCount, hfields, hmethodCount, hmethods, hattributeCount, hall⟩,
    rfl, ?_⟩
  have hmark := (u4_took (of_within hmark)).within .magic
  have hversion := (pair_took (of_within hversion)).within .version
  have hcount := (u2_took (of_within hcount)).within .poolCount
  have hflags := (u2_took (of_within hflags)).within .accessFlags
  have hclasses := (pair_took (of_within hclasses)).within .classIndices
  refine hmark.bind (hversion.bind
    (hcount.bind ((hpool.within _).bind (hflags.bind (hclasses.bind ?_)))))
  exact htook₁ _ (htook₂ _ (htook₃ _ ((hattributes.within _).before (.pure _))))

/-- A file is parsed by reading it and leaving the rest. -/
theorem read_of_parse {input : Bytes} {file : ClassFile} (h : parse input = .ok file) :
    ∃ rest, read input = .ok (file, rest) := by
  unfold parse at h
  split at h
  · rename_i rest hread
    cases h
    exact ⟨rest, hread⟩
  · cases h

theorem parse_of_read {input rest : Bytes} {file : ClassFile}
    (h : read input = .ok (file, rest)) :
    parse input = .ok file := by
  rw [parse, h]

/-- Bytes behind the class do not matter, and a class that ends too early is never taken for a
shorter one: for a cut between two items the input is at its end, and for any other cut it is too
short. -/
theorem parse_cut (input : Bytes) (file : ClassFile) (h : parse input = .ok file) :
    ∃ (n : Nat) (o : Outline), n ≤ input.length ∧ read input = .ok (file, input.drop n) ∧
      o.Delimited ∧ o.items.flatten = input.take n ∧
      (∀ trailing, parse (input.take n ++ trailing) = .ok file) ∧
      ∀ m < n, ∃ e, parse (input.take m) = .error e ∧
        (Boundary o.items m → e.cause = .endOfInput) ∧
        (¬ Boundary o.items m → e.cause = .cutShort) := by
  obtain ⟨rest, hread⟩ := read_of_parse h
  obtain ⟨o, hdelimited, -, hsplit, hreads⟩ := read_took hread
  have htake : input.take o.items.flatten.length = o.items.flatten := by
    rw [hsplit, List.take_left]
  have hdrop : input.drop o.items.flatten.length = rest := by rw [hsplit, List.drop_left]
  refine ⟨o.items.flatten.length, o, ?_, hdrop ▸ hread, hdelimited, htake.symm, ?_, ?_⟩
  · rw [hsplit, List.length_append]
    omega
  · intro trailing
    have hwhole := hreads.parses 0 trailing
    rw [htake]
    exact parse_of_read hwhole
  · intro m hm
    obtain ⟨e, he, hcause⟩ := hreads.cut m hm
    have hshort : input.take m = o.items.flatten.take m := by
      rw [hsplit, List.take_append_of_le_length (Nat.le_of_lt hm)]
    refine ⟨e, by rw [parse, hshort, he], fun hb => ?_, fun hb => ?_⟩
    · rw [hcause, cutCause_of_boundary hb]
    · rw [hcause, cutCause_of_not_boundary hm hb]

def trailed : Bytes := twoTables.encode ++ [0xca, 0xfe]

/-- Two bytes behind a class file are not read, and every cut before them is an error. -/
theorem parse_cut_trailed : parse trailed = .ok twoTables.resolve ∧
    ∃ (n : Nat) (o : Outline), read trailed = .ok (twoTables.resolve, trailed.drop n) ∧
      o.Delimited ∧ o.items.flatten = trailed.take n ∧
      ∀ m < n, ∃ e, parse (trailed.take m) = .error e ∧
        (Boundary o.items m → e.cause = .endOfInput) ∧
        (¬ Boundary o.items m → e.cause = .cutShort) := by
  have hfits : twoTables.Fits := by
    constructor <;> decide +kernel
  have hparse : parse trailed = .ok twoTables.resolve := parse_of_read (read_parses hfits 0 _)
  obtain ⟨n, o, -, hread, hdelimited, hitems, -, hcut⟩ := parse_cut trailed _ hparse
  exact ⟨hparse, n, o, hread, hdelimited, hitems, hcut⟩

end ClassFile

end ClassTrace
