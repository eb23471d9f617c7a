import ClassTrace.ClassFile.Parser
import ClassTrace.Proofs.Parses

/-!
Parsing inverts the class-file format. Each reader of a part of the file parses the bytes of the
part to what it means: constants, the pool, code, members and the class. The last theorem says
that the bytes of a layout, with any bytes after them, parse to what the layout means.
-/
namespace ClassTrace

open Layout

namespace Layout.Constant

open StreamReader

theorem read_parses (c : Constant) (hfits : c.textLength < 65536) :
    Parses view (PoolEntry.read c.tag) c.payload c.entry := by
  cases c with
  | utf8 text =>
    have hlength : text.length.toUInt16.toNat = text.length := UInt16.toNat_ofNat_of_lt' hfits
    have htext : Parses view (bytes text.length.toUInt16.toNat) text text :=
      bytes_parses text hlength.symm
    exact Parses.bind (u2_reads _ hfits) (htext.map PoolEntry.utf8)
  | integer v => exact (u4_parses v.toUInt32).map fun n => PoolEntry.integer n.toInt32
  | float bits => exact (u4_parses bits).map fun n => PoolEntry.float (Float32.ofBits n)
  | long v => exact (u8_parses v.toUInt64).map fun n => PoolEntry.long n.toInt64
  | double bits => exact (u8_parses bits).map fun n => PoolEntry.double (Float.ofBits n)
  | classRef index => exact (u2_reads.word index).map PoolEntry.classRef
  | string index => exact (u2_reads.word index).map PoolEntry.string
  | fieldRef a b => exact (pair_parses a b).map fun p => PoolEntry.fieldRef p.1 p.2
  | methodRef a b => exact (pair_parses a b).map fun p => PoolEntry.methodRef p.1 p.2
  | interfaceMethodRef a b =>
    exact (pair_parses a b).map fun p => PoolEntry.interfaceMethodRef p.1 p.2
  | nameAndType a b => exact (pair_parses a b).map fun p => PoolEntry.nameAndType p.1 p.2
  | methodHandle kind index =>
    exact (bytes_parses (kind :: word index) rfl).map fun _ => PoolEntry.skipped 15
  | methodType index => exact (bytes_parses (word index) rfl).map fun _ => PoolEntry.skipped 16
  | dynamic a b => exact (bytes_parses (word a ++ word b) rfl).map fun _ => PoolEntry.skipped 17
  | invokeDynamic a b =>
    exact (bytes_parses (word a ++ word b) rfl).map fun _ => PoolEntry.skipped 18

theorem slots_eq (c : Constant) :
    c.slots = some c.entry :: List.replicate (if c.entry.isWide then 1 else 0) none := by
  cases c <;> rfl

theorem length_slots (c : Constant) : c.slots.length = if c.entry.isWide then 2 else 1 := by
  cases c <;> rfl

end Layout.Constant

namespace Pool

open StreamReader

/-- Reading fills the slots from `done` on; as the pool ends before slot 65535, the 16-bit index
of the next slot never wraps. -/
theorem readFrom_parses (count : UInt16) (constants : List Constant)
    (htexts : ∀ c ∈ constants, c.textLength < 65536) (done : List (Option PoolEntry))
    (index : UInt16) (rounds : Nat) (hindex : index.toNat = done.length)
    (hcount : count.toNat = done.length + (constants.flatMap Constant.slots).length)
    (hrounds : constants.length ≤ rounds) :
    Parses view (readFrom count rounds index
        (done ++ List.replicate (constants.flatMap Constant.slots).length none).toArray)
      (constants.flatMap Constant.encode) (done ++ constants.flatMap Constant.slots).toArray := by
  induction constants generalizing done index rounds with
  | nil =>
    have hend : count ≤ index := by
      rw [UInt16.le_iff_toNat_le, hcount, hindex]
      simp
    unfold readFrom
    rw [if_pos hend]
    exact Parses.pure _
  | cons c constants ih =>
    have hslots := c.length_slots
    rw [List.flatMap_cons, List.length_append] at hcount
    have hmore : ¬ count ≤ index := by
      rw [UInt16.le_iff_toNat_le, hcount, hindex]
      split at hslots <;> omega
    obtain ⟨rounds, rfl⟩ : ∃ n, rounds = n + 1 := ⟨rounds - 1, by simp at hrounds; omega⟩
    have hnext :
        (index + (if c.entry.isWide then 2 else 1)).toNat = (done ++ c.slots).length := by
      have hcount' := count.toNat_lt
      rw [UInt16.toNat_add, hindex, List.length_append]
      split at hslots <;> simp [*] <;> omega
    have hset : (done ++ List.replicate ((c :: constants).flatMap Constant.slots).length
          none).toArray.setIfInBounds index.toNat (some c.entry) =
        (done ++ c.slots ++ List.replicate (constants.flatMap Constant.slots).length
          none).toArray := by
      rw [List.flatMap_cons, List.length_append, c.slots_eq, hindex, List.length_cons,
        List.length_replicate, Nat.add_right_comm, List.replicate_succ,
        ← List.replicate_append_replicate]
      simp [List.set_append_right]
    unfold readFrom
    rw [if_neg hmore, List.flatMap_cons, List.flatMap_cons, ← List.append_assoc done]
    change Parses view _ ([c.tag] ++ (c.payload ++ _)) _
    refine (within_parses (u1_parses c.tag) _).bind ?_
    refine (within_parses (c.read_parses (htexts c (List.mem_cons_self ..))) _).bind ?_
    rw [← List.flatMap_cons, hset]
    refine ih (fun c' hc' => htexts c' (List.mem_cons_of_mem _ hc')) _ _ _ hnext ?_ ?_
    · rw [hcount, List.length_append]; omega
    · simpa using hrounds

theorem length_le_encode (constants : List Constant) :
    constants.length ≤ (constants.flatMap Constant.encode).length := by
  induction constants with
  | nil => simp
  | cons c constants ih =>
    rw [List.flatMap_cons, List.length_append, Constant.encode, List.length_cons,
      List.length_cons]
    omega

theorem read_parses {constants : List Constant} (hsize : (pool constants).size ≤ 65535)
    (htexts : ∀ c ∈ constants, c.textLength < 65536) :
    Parses view (read (pool constants).size.toUInt16) (constants.flatMap Constant.encode)
      (pool constants) := by
  intro offset rest
  have hsize' : (pool constants).size.toUInt16.toNat = (pool constants).size :=
    UInt16.toNat_ofNat_of_lt' (Nat.lt_succ_of_le hsize)
  have hslots : (pool constants).size = 1 + (constants.flatMap Constant.slots).length := by
    simp [pool, Nat.add_comm]
  have hrounds :
      constants.length ≤ (view offset (constants.flatMap Constant.encode ++ rest)).length := by
    have h := length_le_encode constants
    simp only [view, List.length_append]
    omega
  have hstart : Array.replicate (pool constants).size.toUInt16.toNat none =
      ([none] ++ List.replicate (constants.flatMap Constant.slots).length none :
        List (Option PoolEntry)).toArray := by
    rw [hsize', hslots, Nat.add_comm, List.singleton_append, ← List.replicate_succ,
      List.toArray_replicate]
  change readFrom _ _ 1 (Array.replicate _ none) _ = _
  rw [hstart]
  exact readFrom_parses _ constants htexts [none] 1 _ rfl (by rw [hsize', hslots]; rfl) hrounds
    offset rest

end Pool

namespace Code

open PayloadReader

theorem readHandler_parses (h : Handler) : Parses Cursor.mk readHandler (handler h) h := by
  simp only [handler, List.append_assoc]
  refine ((u2_reads _).word h.start).bind (((u2_reads _).word h.stop).bind ?_)
  refine ((u2_reads _).word h.handler).bind ?_
  exact ((u2_reads _).word h.catchType).map (Handler.mk h.start h.stop h.handler)

theorem readLineRow_parses (row : LineRow) : Parses Cursor.mk readLineRow (lineRow row) row :=
  ((u2_reads _).word row.start).bind (((u2_reads _).word row.line).map (LineRow.mk row.start))

theorem readLines_table {rows : List LineRow} (hfits : rows.length < 65536) :
    readLines (table lineRow rows) = .ok rows := by
  have h := (u2_reads .lineTable).table_last hfits fun i row _ => readLineRow_parses row
  rw [List.map_id'] at h
  exact run_of_parses h

variable {pool : Pool}

/-- A row of the variable table is read with the texts that its indices designate. -/
theorem readVariableRow_parses (i : Nat) (v : VariableLayout)
    (hname : Designates pool v.nameIndex) (hdescriptor : Designates pool v.descriptorIndex) :
    Parses Cursor.mk (readVariableRow pool i) v.encode (v.resolve pool) := by
  simp only [VariableLayout.encode, List.append_assoc]
  refine ((u2_reads _).word v.start).bind (((u2_reads _).word v.length).bind ?_)
  refine ((u2_reads _).word v.nameIndex).bind (((u2_reads _).word v.descriptorIndex).bind ?_)
  refine ((u2_reads _).word v.index).before ?_
  refine (Pool.utf8At_parses hname _).after ((Pool.utf8At_parses hdescriptor _).after ?_)
  exact Parses.pure _

theorem readVariables_table {rows : List VariableLayout} (hfits : rows.length < 65536)
    (hnames : ∀ v ∈ rows, Designates pool v.nameIndex ∧ Designates pool v.descriptorIndex) :
    readVariables pool (table VariableLayout.encode rows) = .ok (rows.map (·.resolve pool)) :=
  run_of_parses ((u2_reads .variableTable).table_last hfits fun i v hv =>
    readVariableRow_parses i v (hnames v hv).1 (hnames v hv).2)

/-- Line rows are read from a table of the kind and from no other attribute. -/
theorem lines_of_fits {α : Type} {part : CodePart} {name : Bytes} (h : part.Fits pool name)
    {next : List LineRow → PayloadReader α} {a : α}
    (hnext : Parses Cursor.mk (next part.lineRows) [] a) :
    Parses Cursor.mk (if name = "LineNumberTable" then liftM (readLines part.data) >>= next
      else pure [] >>= next) [] a := by
  cases part with
  | lines rows =>
    rw [if_pos h.1]
    exact (Parses.lift (readLines_table h.2)).after hnext
  | locals rows =>
    have hname : name ≠ "LineNumberTable" := by rw [h.1]; decide
    rw [if_neg hname]
    exact hnext
  | other data =>
    rw [if_neg h.1]
    exact hnext

theorem variables_of_fits {α : Type} {part : CodePart} {name : Bytes} (h : part.Fits pool name)
    {next : List VariableRow → PayloadReader α} {a : α}
    (hnext : Parses Cursor.mk (next (part.variableRows pool)) [] a) :
    Parses Cursor.mk (if name = "LocalVariableTable" then
      liftM (readVariables pool part.data) >>= next
      else pure [] >>= next) [] a := by
  cases part with
  | lines rows =>
    have hname : name ≠ "LocalVariableTable" := by rw [h.1]; decide
    rw [if_neg hname]
    exact hnext
  | locals rows =>
    rw [if_pos h.1]
    exact (Parses.lift (readVariables_table h.2.1 h.2.2)).after hnext
  | other data =>
    rw [if_neg h.2]
    exact hnext

/-- An attribute nested in code is read with its contents. -/
theorem readNested_parses (i : Nat) (a : AttributeLayout CodePart)
    (hfits : a.Fits CodePart.data pool) (hpart : a.content.Fits pool (text pool a.nameIndex)) :
    Parses Cursor.mk (readNested pool i) (a.encode CodePart.data)
      ⟨a.resolve CodePart.data pool, a.content.lineRows, a.content.variableRows pool⟩ := by
  rw [AttributeLayout.encode, ← List.append_nil (block _)]
  refine ((u2_reads _).word a.nameIndex).bind ?_
  refine (u4_reads _).block (bytes .code) (fun data => bytes_parses _ data rfl) hfits.2 ?_
  refine (Pool.utf8At_parses hfits.1 _).after ?_
  refine lines_of_fits hpart (variables_of_fits hpart ?_)
  exact Parses.pure _

/-- The code of a method is read with its tables. -/
theorem readPayload_parses {c : CodeLayout} (hfits : c.Fits pool) :
    Parses Cursor.mk (readPayload pool) c.encode (c.resolve pool) := by
  rw [CodeLayout.encode, ← List.append_nil (table _ c.nested)]
  simp only [List.append_assoc]
  refine ((u2_reads _).word c.maxStack).bind (((u2_reads _).word c.maxLocals).bind ?_)
  refine (u4_reads _).block (bytes .code) (fun data => bytes_parses _ data rfl) hfits.code ?_
  refine (u2_reads _).table hfits.handlers (fun _ h _ => readHandler_parses h) ?_
  refine (u2_reads _).table hfits.nestedCount
    (fun i a ha => readNested_parses i a (hfits.nested a ha).1 (hfits.nested a ha).2) ?_
  simp only [List.map_map, List.flatMap_map, List.map_id']
  exact Parses.pure _

end Code

section Members

open StreamReader

variable {pool : Pool} {β : Type} {data : β → Bytes}

/-- An attribute is read with the name that its index designates. -/
theorem Attribute.read_parses (i : Nat) (a : AttributeLayout β) (hfits : a.Fits data pool) :
    Parses view (Attribute.read pool i) (a.encode data) (a.resolve data pool) := by
  rw [AttributeLayout.encode, ← List.append_nil (block _)]
  refine ((u2_within _).word a.nameIndex).bind ?_
  refine (u4_within _).block (fun n => within (.attributeData i) (bytes n))
    (fun data => within_parses (bytes_parses data rfl) _) hfits.2 ?_
  exact (Pool.utf8At_parses hfits.1 _).map fun name => Attribute.mk name (data a.content)

theorem Attribute.readAll_parses {attributes : List (AttributeLayout β)}
    (hcount : attributes.length < 65536) (hfits : ∀ a ∈ attributes, a.Fits data pool) :
    Parses view (Attribute.readAll pool) (table (·.encode data) attributes)
      (attributes.map (·.resolve data pool)) :=
  (u2_within _).table_last hcount fun i a ha => Attribute.read_parses i a (hfits a ha)

/-- A field or a method is read with its names and its attributes. -/
theorem Member.read_parses (m : MemberLayout β) (hfits : m.Fits data pool) :
    Parses view (Member.read pool) (m.encode data) (m.resolve data pool) := by
  simp only [MemberLayout.encode, List.append_assoc]
  refine ((u2_within _).word m.flags).bind ?_
  rw [← List.append_assoc]
  refine (within_parses (pair_parses m.nameIndex m.descriptorIndex) _).bind ?_
  refine (Pool.utf8At_parses hfits.name _).after
    ((Pool.utf8At_parses hfits.descriptor _).after ?_)
  exact (within_parses (Attribute.readAll_parses hfits.attributeCount hfits.attributes) _).map
    (Member.mk m.flags m.nameIndex m.descriptorIndex (text pool m.nameIndex)
      (text pool m.descriptorIndex))

/-- The first attribute named for code is the first one that holds any. -/
theorem find?_code {attributes : List (AttributeLayout MethodPart)}
    (hparts : ∀ a ∈ attributes, a.content.Fits pool (text pool a.nameIndex)) :
    (attributes.map (·.resolve MethodPart.data pool)).find?
    (fun a => a.name == ("Code" : Bytes)) =
      (attributes.findSome? (·.content.code?)).map fun c => ⟨"Code", c.encode⟩ := by
  induction attributes with
  | nil => rfl
  | cons a attributes ih =>
    have hpart := hparts a (List.mem_cons_self ..)
    have hrest := ih fun a' ha' => hparts a' (List.mem_cons_of_mem _ ha')
    obtain ⟨nameIndex, part⟩ := a
    cases part with
    | code c =>
      have hname : text pool nameIndex = "Code" := hpart.1
      simp [AttributeLayout.resolve, MethodPart.code?, MethodPart.data, hname]
    | other data =>
      have hname : text pool nameIndex ≠ "Code" := hpart
      simp only [List.map_cons, AttributeLayout.resolve, MethodPart.code?, List.find?_cons,
        List.findSome?_cons, beq_eq_false_iff_ne.mpr hname]
      exact hrest

theorem Member.code_eq {m : MemberLayout MethodPart}
    (hparts : ∀ a ∈ m.attributes, a.content.Fits pool (text pool a.nameIndex)) :
    (m.resolve MethodPart.data pool).code pool = .ok (m.resolveMethod pool).code := by
  have hfound := find?_code hparts
  unfold Member.code MemberLayout.resolve MemberLayout.resolveMethod
  rw [hfound]
  cases hcode : m.attributes.findSome? (·.content.code?) with
  | none => rfl
  | some c =>
    obtain ⟨a, ha, hpart⟩ := List.exists_of_findSome?_eq_some hcode
    have hfits : c.Fits pool := by
      have h := hparts a ha
      cases hcontent : a.content <;> simp_all [MethodPart.code?, MethodPart.Fits]
    have hparse : Code.parse pool c.encode = .ok (c.resolve pool) :=
      PayloadReader.run_of_parses (Code.readPayload_parses hfits)
    simp only [Option.map_some, hparse]

/-- A method is read with its code. -/
theorem MethodMember.read_parses (i : Nat) (m : MemberLayout MethodPart)
    (hfits : m.Fits MethodPart.data pool)
    (hparts : ∀ a ∈ m.attributes, a.content.Fits pool (text pool a.nameIndex)) :
    Parses view (MethodMember.read pool i) (m.encode MethodPart.data) (m.resolveMethod pool) := by
  refine (within_parses (Member.read_parses m hfits) _).before ?_
  exact (Parses.lift (Member.code_eq hparts)).map
    (MethodMember.mk (m.resolve MethodPart.data pool))

end Members

namespace ClassFile

open StreamReader

theorem read_parses {c : ClassLayout} (hfits : c.Fits) : Parses view read c.encode c.resolve := by
  simp only [ClassLayout.encode, List.append_assoc]
  refine (within_parses (u4_parses magic) _).bind ?_
  dsimp only
  rw [if_neg (not_not_intro rfl), ← List.append_assoc (word c.minor)]
  refine (within_parses (pair_parses c.minor c.major) _).bind ?_
  refine (u2_within _ _ (Nat.lt_succ_of_le hfits.poolSize)).bind ?_
  refine (within_parses (Pool.read_parses hfits.poolSize hfits.constants) _).bind ?_
  refine ((u2_within _).word c.flags).bind ?_
  rw [← List.append_assoc (word c.thisClass)]
  refine (within_parses (pair_parses c.thisClass c.superClass) _).bind ?_
  refine (u2_within _).table hfits.interfaces (fun i index _ => (u2_within _).word index) ?_
  refine (u2_within _).table hfits.fieldCount
    (fun i m hm => within_parses (Member.read_parses m (hfits.fields m hm)) _) ?_
  refine (u2_within _).table hfits.methodCount
    (fun i m hm => MethodMember.read_parses i m (hfits.methods m hm).1 (hfits.methods m hm).2) ?_
  refine (within_parses (Attribute.readAll_parses hfits.attributeCount hfits.attributes) _).before
    ?_
  rw [List.map_id']
  exact Parses.pure _

def twoTables : ClassLayout where
  minor := 0
  major := 52
  constants := [.utf8 "T", .classRef 1, .long (-1), .utf8 "Code", .utf8 "LineNumberTable",
    .utf8 "LocalVariableTable", .utf8 "()V", .methodHandle 6 2, .float 0x7fc00001, .utf8 "J"]
  flags := 0x21
  thisClass := 2
  superClass := 0
  interfaces := [2]
  fields := [⟨0, 1, 11, [⟨5, [1, 2, 3]⟩]⟩]
  methods := [⟨9, 1, 8, [⟨1, .other [7]⟩, ⟨5, .code
    { maxStack := 2, maxLocals := 1, code := [0, 0xb1], handlers := [⟨0, 1, 1, 0⟩]
      nested := [⟨6, .lines [⟨0, 3⟩]⟩, ⟨7, .locals [⟨0, 2, 1, 11, 0⟩]⟩, ⟨1, .other []⟩,
        ⟨6, .lines [⟨1, 4⟩, ⟨1, 5⟩]⟩] }⟩]⟩]
  attributes := [⟨1, [0]⟩]

/-- Parsing inverts the format: the bytes of a layout, with any bytes behind them, are parsed to
the class file that the layout means. -/
theorem parse_encode (c : ClassLayout) (hfits : c.Fits) (trailing : Bytes) :
    parse (c.encode ++ trailing) = .ok c.resolve := by
  have h := read_parses hfits 0 trailing
  simp only [view] at h
  simp only [parse, h]

/-- A class with a long in its pool and a method whose lines are divided over two tables. -/
theorem parse_encode_twoTables :
    twoTables.Fits ∧ parse (twoTables.encode ++ [0xca, 0xfe]) = .ok twoTables.resolve := by
  have hfits : twoTables.Fits := by
    constructor <;> decide +kernel
  exact ⟨hfits, parse_encode twoTables hfits _⟩

end ClassFile

end ClassTrace
