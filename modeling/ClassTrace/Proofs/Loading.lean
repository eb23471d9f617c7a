import ClassTrace.Heap
import ClassTrace.Proofs.PoolShape
import ClassTrace.Proofs.StringLiteral
import Mathlib.Data.List.Forall2

/-!
What loading a class file comes to. A file is loaded exactly if its constants are sound, its own
class is one of them and every member has a type; the class then has the members in the order of
the file, whatever their names. If only members are at fault, there is one problem for each of
them, in that order, so that none hides another.
-/
namespace ClassTrace

section Attempts

variable {ε α β : Type} {f : α → Except ε β} {xs : List α}

/-- Without failures every attempt has a result, in the order of the attempts. -/
theorem forall₂_successes (h : failures (xs.map f) = []) :
    List.Forall₂ (fun x b => f x = .ok b) xs (successes (xs.map f)) := by
  induction xs with
  | nil => exact .nil
  | cons x xs ih =>
    rw [List.map_cons] at h ⊢
    cases hx : f x with
    | error e =>
      rw [hx] at h
      cases h
    | ok b =>
      rw [hx] at h
      exact .cons hx (ih h)

/-- There is one failure for each attempt that fails, in the order of the attempts. -/
theorem forall₂_failures (f : α → Except ε β) (xs : List α) :
    List.Forall₂ (fun x e => f x = .error e) (xs.filter fun x => !(f x).isOk)
      (failures (xs.map f)) := by
  induction xs with
  | nil => exact .nil
  | cons x xs ih =>
    rw [List.map_cons]
    cases hx : f x with
    | error e =>
      rw [List.filter_cons_of_pos (by rw [hx]; rfl)]
      exact .cons hx ih
    | ok b =>
      rw [List.filter_cons_of_neg (by rw [hx]; exact Bool.false_ne_true)]
      exact ih

theorem failures_eq_nil : failures (xs.map f) = [] ↔ ∀ x ∈ xs, ∃ b, f x = .ok b := by
  unfold failures
  rw [List.filterMap_eq_nil_iff, List.forall_mem_map]
  refine forall₂_congr fun x _ => ?_
  cases f x with
  | error e => exact iff_of_false nofun nofun
  | ok b => exact iff_of_true rfl ⟨b, rfl⟩

end Attempts

section LastWith

variable {α : Type} {P : α → Prop} {xs : List α} {x y : α}

def LastWith (P : α → Prop) (xs : List α) (x : α) : Prop :=
  ∃ before after, xs = before ++ x :: after ∧ P x ∧ ∀ y ∈ after, ¬ P y

theorem LastWith.head (hx : P x) (h : ∀ y ∈ xs, ¬ P y) : LastWith P (x :: xs) x :=
  ⟨[], xs, rfl, hx, h⟩

theorem LastWith.cons (h : LastWith P xs x) (y : α) : LastWith P (y :: xs) x := by
  obtain ⟨before, after, rfl, hx, hafter⟩ := h
  exact ⟨y :: before, after, rfl, hx, hafter⟩

theorem LastWith.has (h : LastWith P xs x) : P x := by
  obtain ⟨_, _, -, hx, -⟩ := h
  exact hx

theorem LastWith.mem (h : LastWith P xs x) : x ∈ xs := by
  obtain ⟨before, after, rfl, -, -⟩ := h
  exact List.mem_append_right before List.mem_cons_self

/-- The last element that passes a test, by the list around it. -/
theorem getLast?_filter_eq_some {p : α → Bool} (hp : ∀ x, p x = true ↔ P x) :
    (xs.filter p).getLast? = some x ↔ LastWith P xs x := by
  constructor
  · intro h
    obtain ⟨_, h⟩ := List.getLast?_eq_some_iff.mp h
    obtain ⟨before, rest, hxs, -, h⟩ := List.filter_eq_append_iff.mp h
    obtain ⟨skipped, after, rfl, -, hx, hafter⟩ := List.filter_eq_cons_iff.mp h
    refine ⟨before ++ skipped,
      after, by rw [hxs, List.append_assoc], (hp x).mp hx, fun y hy => ?_⟩
    exact mt (hp y).mpr (List.filter_eq_nil_iff.mp hafter y hy)
  · rintro ⟨before, after, hxs, hx, hafter⟩
    have hnil : after.filter p = [] :=
      List.filter_eq_nil_iff.mpr fun y hy => mt (hp y).mp (hafter y hy)
    rw [hxs, List.filter_append, List.filter_cons, if_pos ((hp x).mpr hx), hnil,
      List.getLast?_concat]

theorem LastWith.unique (h : LastWith P xs x) (h' : LastWith P xs y) : x = y := by
  classical
  have hlast : ∀ {z : α}, LastWith P xs z → (xs.filter fun x => decide (P x)).getLast? = some z :=
    (getLast?_filter_eq_some fun _ => decide_eq_true_iff).mpr
  exact Option.some.inj ((hlast h).symm.trans (hlast h'))

end LastWith

namespace Field

structure Declares (info : Member) (f : Field) : Prop where
  name : f.name = info.name
  type : FieldType.parse info.descriptor = .ok f.type
  isStatic : f.isStatic = info.isStatic

theorem load_ok {info : Member} {f : Field} (h : load info = .ok f) : Declares info f := by
  unfold load at h
  split at h
  · cases h
  · rename_i type htype
    cases h
    exact ⟨rfl, htype, rfl⟩

theorem load_error {info : Member} {p : MemberProblem} (h : load info = .error p) :
    ∃ e, FieldType.parse info.descriptor = .error e ∧ p = .field info.name e := by
  unfold load at h
  split at h
  · rename_i e he
    cases h
    exact ⟨e, he, rfl⟩
  · cases h

theorem isOk_load (info : Member) :
    (load info).isOk = (FieldType.parse info.descriptor).isOk := by
  unfold load
  split <;> rename_i heq <;> rw [heq] <;> rfl

end Field

namespace Method

/-- The method of the class is loaded from the declaration. A method without code has room for
nothing. -/
structure Declares (owner : Bytes) (info : MethodMember) (m : Method) : Prop where
  owner : m.owner = owner
  name : m.name = info.name
  descriptor : m.descriptor = info.descriptor
  signature : Signature.parse info.descriptor = .ok m.signature
  isStatic : m.isStatic = info.isStatic
  maxStack : m.maxStack = info.code.elim 0 (·.maxStack.toNat)
  maxLocals : m.maxLocals = info.code.elim 0 (·.maxLocals.toNat)
  code : m.code.toList = info.code.elim [] (·.code)

variable {owner : Bytes} {info : MethodMember}

/-- A method is made of its declaration and its code, and then its parameters are named. -/
theorem load_made {m : Method} (h : load owner info = .ok m) :
    ∃ signature made, Signature.parse info.descriptor = .ok signature ∧
      made = info.code.elim (bare owner info signature) (bare owner info signature).withCode ∧
      m = { made with paramNames := made.nameParams } := by
  unfold load at h
  split at h
  · cases h
  · rename_i signature hsignature
    refine ⟨signature, _, hsignature, rfl, ?_⟩
    cases hcode : info.code with
    | none | some =>
      rw [hcode] at h
      exact (Except.ok.inj h).symm

theorem load_ok {m : Method} (h : load owner info = .ok m) : Declares owner info m := by
  obtain ⟨signature, _, hsignature, rfl, rfl⟩ := load_made h
  cases hcode : info.code with
  | none | some =>
    exact ⟨rfl, rfl, rfl, hsignature,
      rfl, by rw [hcode]; rfl, by rw [hcode]; rfl, by rw [hcode]; rfl⟩

theorem load_error {p : MemberProblem} (h : load owner info = .error p) :
    ∃ e, Signature.parse info.descriptor = .error e ∧
      p = .method info.name info.descriptor e := by
  unfold load at h
  split at h
  · rename_i e he
    cases h
    exact ⟨e, he, rfl⟩
  · cases h

theorem isOk_load (owner : Bytes) (info : MethodMember) :
    (load owner info).isOk = (Signature.parse info.descriptor).isOk := by
  unfold load
  split <;> rename_i heq <;> rw [heq] <;> rfl

end Method

theorem isOk_iff {ε α : Type} {r : Except ε α} : r.isOk = true ↔ ∃ a, r = .ok a := by
  cases r with
  | error e => exact iff_of_false Bool.false_ne_true nofun
  | ok a => exact iff_of_true rfl ⟨a, rfl⟩

namespace ClassFile

def entries (file : ClassFile) : Array (Option PoolEntry) := file.pool.extract 1 file.pool.size

/-- Every entry has a slot of its own. -/
def Addressable (file : ClassFile) : Prop := file.pool.size ≤ 65537

instance (file : ClassFile) : Decidable file.Addressable := inferInstanceAs (Decidable (_ ≤ _))

/-- In a pool of that size, no two entries come to one slot. -/
theorem Addressable.alone {file : ClassFile} (h : file.Addressable) (index : UInt16) :
    ConstantPool.Alone file.entries (index.toNat - 1) := by
  refine ConstantPool.alone_index ?_ index
  unfold Addressable at h
  unfold entries
  rw [Array.size_extract]
  omega

def Resolves (file : ClassFile) : Prop := ∃ pool, ConstantPool.resolve file.entries = .ok pool

def Named (file : ClassFile) : Prop :=
  ∃ nameIndex, ConstantPool.entryAt? file.entries file.thisClass = some (.classRef nameIndex)

structure Loadable (file : ClassFile) : Prop where
  resolves : file.Resolves
  named : file.Named
  fields : ∀ info ∈ file.fields, ∃ t, FieldType.parse info.descriptor = .ok t
  methods : ∀ info ∈ file.methods, ∃ s, Signature.parse info.descriptor = .ok s

def badFields (file : ClassFile) : List Member :=
  file.fields.filter fun info => !(FieldType.parse info.descriptor).isOk

def badMethods (file : ClassFile) : List MethodMember :=
  file.methods.filter fun info => !(Signature.parse info.descriptor).isOk

/-- The problems are those of the bad fields and then those of the bad methods: one for each of
them, in the order of the file, with what is wrong with its descriptor. -/
def Blames (file : ClassFile) (problems : List MemberProblem) : Prop :=
  ∃ fieldProblems methodProblems, problems = fieldProblems ++ methodProblems ∧
    List.Forall₂ (fun info p => ∃ e, FieldType.parse info.descriptor = .error e ∧
      p = MemberProblem.field info.name e) file.badFields fieldProblems ∧
    List.Forall₂ (fun info p => ∃ e, Signature.parse info.descriptor = .error e ∧
      p = MemberProblem.method info.name info.descriptor e) file.badMethods methodProblems

def memberProblems (file : ClassFile) (name : Bytes) : List MemberProblem :=
  failures (file.fields.map Field.load) ++ failures (file.methods.map (Method.load name))

end ClassFile

namespace ConstantPool

theorem mem_of_entryAt? {raw : Array (Option PoolEntry)} {index : UInt16} {e : PoolEntry}
    (h : entryAt? raw index = some e) : some e ∈ raw := by
  unfold entryAt? at h
  split at h
  · cases h
  · exact Array.mem_of_getElem? (Option.join_eq_some_iff.mp h)

theorem classRef_eq_ok {pool : ConstantPool} {index : UInt16} {c : ClassName} :
    pool.classRef index = .ok c ↔ pool.get index = .ok (.classRef c) := by
  unfold classRef
  cases pool.get index with
  | error e => exact iff_of_false nofun nofun
  | ok constant =>
    cases constant with
    | classRef c' =>
      exact ⟨fun h => congrArg (Except.ok ∘ Constant.classRef)
        (Except.ok.inj h), fun h => by cases h; rfl⟩
    | _ => exact iff_of_false nofun nofun

/-- The classes of a resolved pool have the texts that their entries refer to. -/
theorem classRef_resolved {raw : Array (Option PoolEntry)} {pool : ConstantPool}
    (h : resolve raw = .ok pool) {index : UInt16} (halone : Alone raw (index.toNat - 1))
    {c : ClassName} : pool.classRef index = .ok c ↔
      entryAt? raw index = some (.classRef c.index) ∧
      entryAt? raw c.index = some (.utf8 c.name) := by
  rw [classRef_eq_ok, get_resolved h halone (by simp [OfMember])]
  constructor
  · rintro ⟨e, hentry, hmeaning⟩
    cases e with
    | classRef nameIndex =>
      obtain ⟨name, hname, hc⟩ := Option.map_eq_some_iff.mp hmeaning
      cases hc
      exact ⟨hentry, text?_eq_some.mp hname⟩
    | _ => simp [meaning?] at hmeaning
  · rintro ⟨hentry, hname⟩
    exact ⟨_, hentry, by simp [meaning?, text?_eq_some.mpr hname]⟩

/-- They are where they are among the entries. -/
theorem exists_classRef_resolved {raw : Array (Option PoolEntry)} {pool : ConstantPool}
    (h : resolve raw = .ok pool) {index : UInt16} (halone : Alone raw (index.toNat - 1)) :
    (∃ c, pool.classRef index = .ok c) ↔
      ∃ nameIndex, entryAt? raw index = some (.classRef nameIndex) := by
  simp only [classRef_resolved h halone]
  constructor
  · exact fun ⟨c, hentry, _⟩ => ⟨c.index, hentry⟩
  · rintro ⟨nameIndex, hentry⟩
    obtain ⟨name, hname⟩ : IsText raw nameIndex :=
      sound_of_resolved h (mem_of_entryAt? hentry) rfl
    exact ⟨⟨name, nameIndex⟩, hentry, hname⟩

end ConstantPool

theorem LoadError.message_prefix (e : LoadError) : FaultKind.load.text <+: e.message := by
  unfold LoadError.message
  rw [List.append_assoc]
  exact List.prefix_append ..

namespace Fields

theorem mem_fresh {names : List Bytes} {name : Bytes} {v : Value} :
    (name, v) ∈ fresh names ↔ name ∈ names ∧ v = .null := by
  unfold fresh
  rw [List.mem_map]
  constructor
  · rintro ⟨_, hmem, heq⟩
    cases heq
    exact ⟨List.mem_eraseDups.mp hmem, rfl⟩
  · rintro ⟨hmem, rfl⟩
    exact ⟨name, List.mem_eraseDups.mpr hmem, rfl⟩

theorem nodup_eraseDups (names : List Bytes) : names.eraseDups.Nodup := by
  induction hn : names.length using Nat.strongRecOn generalizing names with
  | _ n ih =>
    cases names with
    | nil => exact List.nodup_nil
    | cons name rest =>
      rw [List.eraseDups_cons, List.nodup_cons, List.mem_eraseDups]
      refine ⟨by simp, ih _ ?_ _ rfl⟩
      rw [← hn, List.length_cons]
      exact Nat.lt_succ_of_le (List.length_filter_le ..)

/-- A new object has each field once. -/
theorem nodup_fresh (names : List Bytes) : ((fresh names).map (·.1)).Nodup := by
  have hnames : (fresh names).map (·.1) = names.eraseDups := by
    simp [fresh, Function.comp_def]
  rw [hnames]
  exact nodup_eraseDups names

end Fields

namespace Class

variable {file : ClassFile} {pool : ConstantPool} {c : Class}

/-- How loading ends, by what is found first. -/
theorem load_cases (file : ClassFile) :
    (∃ problems, ConstantPool.resolve file.entries = .error problems ∧
      load file = .error (.pool problems)) ∨
    (∃ pool fault, ConstantPool.resolve file.entries = .ok pool ∧
      pool.classRef file.thisClass = .error fault ∧ load file = .error (.thisClass fault)) ∨
    ∃ pool this, ConstantPool.resolve file.entries = .ok pool ∧
      pool.classRef file.thisClass = .ok this ∧
      load file = if file.memberProblems this.name = [] then
          .ok ⟨this.name, file.superName, pool, successes (file.fields.map Field.load),
            successes (file.methods.map (Method.load this.name))⟩
        else .error (.members this.name (file.memberProblems this.name)) := by
  unfold load
  change (∃ problems, ConstantPool.resolve (file.pool.extract 1 file.pool.size) = _ ∧ _) ∨ _
  cases hresolve : ConstantPool.resolve (file.pool.extract 1 file.pool.size) with
  | error problems => exact .inl ⟨problems, rfl, rfl⟩
  | ok pool =>
    cases hthis : pool.classRef file.thisClass with
    | error fault => exact .inr (.inl ⟨pool, fault, hresolve, hthis, by simp only [hthis]⟩)
    | ok this =>
      refine .inr (.inr ⟨pool, this, hresolve, hthis, ?_⟩)
      simp only [hthis]
      unfold ClassFile.memberProblems
      split <;> rename_i heq
      · rw [if_pos heq]
      · rw [if_neg heq]

/-- Nothing is wrong with the members exactly if all their descriptors can be read. -/
theorem memberProblems_eq_nil {name : Bytes} : file.memberProblems name = [] ↔
    (∀ info ∈ file.fields, ∃ t, FieldType.parse info.descriptor = .ok t) ∧
      ∀ info ∈ file.methods, ∃ s, Signature.parse info.descriptor = .ok s := by
  unfold ClassFile.memberProblems
  rw [List.append_eq_nil_iff, failures_eq_nil, failures_eq_nil]
  simp only [← isOk_iff, Field.isOk_load, Method.isOk_load]

/-- The problems are those of the bad members, in their order. -/
theorem blames_memberProblems (file : ClassFile) (name : Bytes) :
    file.Blames (file.memberProblems name) := by
  have hfields := forall₂_failures Field.load file.fields
  have hmethods := forall₂_failures (Method.load name) file.methods
  simp only [Field.isOk_load] at hfields
  simp only [Method.isOk_load] at hmethods
  exact ⟨_, _, rfl, hfields.imp fun _ _ => Field.load_error, hmethods.imp fun _ _ =>
    Method.load_error⟩

/-- Of the methods with a name and a descriptor the last is found. -/
theorem method?_eq_some {name descriptor : Bytes} {m : Method} :
    c.method? name descriptor = some m ↔
    ∃ before after, c.methods = before ++ m :: after ∧
      (m.name = name ∧ m.descriptor = descriptor) ∧
      ∀ m' ∈ after, ¬ (m'.name = name ∧ m'.descriptor = descriptor) := by
  have hkey : ∀ m' : Method, (m'.name == name && m'.descriptor == descriptor) = true ↔
      m'.name = name ∧ m'.descriptor = descriptor := by simp
  exact getLast?_filter_eq_some hkey

/-- Of the methods with a name the first is found. -/
theorem methodByName?_eq_some {name : Bytes} {m : Method} : c.methodByName? name = some m ↔
    ∃ before after, c.methods = before ++ m :: after ∧ m.name = name ∧
      ∀ m' ∈ before, m'.name ≠ name := by
  unfold methodByName?
  rw [List.find?_eq_some_iff_append]
  simp only [beq_iff_eq, Bool.not_eq_true', beq_eq_false_iff_ne, ne_eq]
  constructor
  · rintro ⟨hm, before, after, hmethods, hbefore⟩
    exact ⟨before, after, hmethods, hm, hbefore⟩
  · rintro ⟨before, after, hmethods, hm, hbefore⟩
    exact ⟨hm, before, after, hmethods, hbefore⟩

/-- The class has the members in the order of the file. A method is found as the last one with its
name and descriptor, or as the first one with its name. A new object has the declared fields, all
null. -/
structure LoadedFrom (file : ClassFile) (c : Class) : Prop where
  fields : List.Forall₂ Field.Declares file.fields c.fields
  methods : List.Forall₂ (Method.Declares c.name) file.methods c.methods
  lastMethod : ∀ name descriptor m, c.method? name descriptor = some m ↔ ∃ before after,
    c.methods = before ++ m :: after ∧ (m.name = name ∧ m.descriptor = descriptor) ∧
      ∀ m' ∈ after, ¬ (m'.name = name ∧ m'.descriptor = descriptor)
  firstMethod : ∀ name m, c.methodByName? name = some m ↔ ∃ before after,
    c.methods = before ++ m :: after ∧ m.name = name ∧ ∀ m' ∈ before, m'.name ≠ name
  newObject : ∃ fields, c.newObject = .object c.name fields ∧ (fields.map (·.1)).Nodup ∧
    ∀ name v, (name, v) ∈ fields ↔ (∃ info ∈ file.fields, info.name = name) ∧ v = .null

/-- If its members are those that the file declares, the class is loaded from the file. -/
theorem loadedFrom (hfields : List.Forall₂ Field.Declares file.fields c.fields)
    (hmethods : List.Forall₂ (Method.Declares c.name) file.methods c.methods) :
    LoadedFrom file c where
  fields := hfields
  methods := hmethods
  lastMethod _ _ _ := method?_eq_some
  firstMethod _ _ := methodByName?_eq_some
  newObject := by
    have hnames : c.fieldNames = file.fields.map (·.name) := by
      unfold fieldNames
      rw [← List.forall₂_eq_eq_eq, List.forall₂_map_left_iff, List.forall₂_map_right_iff]
      exact hfields.flip.imp fun _ _ h => h.name
    refine ⟨_, rfl, Fields.nodup_fresh _, fun name v => ?_⟩
    rw [Fields.mem_fresh, hnames, List.mem_map]

/-- A file is loaded exactly if it is loadable, and the class is made of its members. An error is
one of loading; if the constants and the name are in order, it lists the problems of the members.
The entries of the file have to have a slot each, as those of a file that was parsed do. -/
theorem load_exact (file : ClassFile) :
    (∀ input, ClassFile.parse input = .ok file → file.Addressable) ∧
    (file.Addressable → ((∃ c, load file = .ok c) ↔ file.Loadable)) ∧
    (∀ c, load file = .ok c → LoadedFrom file c) ∧
    ∀ error, load file = .error error → FaultKind.load.text <+: error.message ∧
      (file.Addressable → file.Resolves → file.Named →
        ∃ name problems, error = .members name problems ∧ file.Blames problems) := by
  refine ⟨fun input h => Nat.le_trans (ClassFile.size_pool_of_parse h) (by decide), ?_⟩
  rcases load_cases file with ⟨problems, hresolve, hload⟩ | ⟨pool, fault, hresolve,
    hthis, hload⟩ | ⟨pool, this, hresolve, hthis, hload⟩
  · have hunresolved : ¬ file.Resolves := fun ⟨_, h⟩ => nomatch hresolve.symm.trans h
    rw [hload]
    refine ⟨fun _ => iff_of_false nofun fun h => hunresolved h.resolves, nofun, ?_⟩
    rintro _ ⟨⟩
    exact ⟨LoadError.message_prefix _, fun _ h => absurd h hunresolved⟩
  · have hunnamed : file.Addressable → ¬ file.Named := by
      intro haddress h
      obtain ⟨c, hc⟩ := (ConstantPool.exists_classRef_resolved hresolve (haddress.alone _)).mpr h
      cases hthis.symm.trans hc
    rw [hload]
    refine ⟨fun haddress => iff_of_false nofun fun h => hunnamed haddress h.named, nofun, ?_⟩
    rintro _ ⟨⟩
    exact ⟨LoadError.message_prefix _, fun haddress _ h => absurd h (hunnamed haddress)⟩
  · have hnamed : file.Addressable → file.Named := fun haddress =>
      (ConstantPool.exists_classRef_resolved hresolve (haddress.alone _)).mp ⟨this, hthis⟩
    rw [hload]
    by_cases hnil : file.memberProblems this.name = []
    · rw [if_pos hnil]
      obtain ⟨hfields, hmethods⟩ := memberProblems_eq_nil.mp hnil
      refine ⟨fun haddress => iff_of_true ⟨_, rfl⟩
        ⟨⟨pool, hresolve⟩, hnamed haddress, hfields, hmethods⟩, ?_, nofun⟩
      rintro c ⟨⟩
      obtain ⟨hfields, hmethods⟩ := List.append_eq_nil_iff.mp hnil
      exact loadedFrom ((forall₂_successes hfields).imp fun _ _ => Field.load_ok)
        ((forall₂_successes hmethods).imp fun _ _ => Method.load_ok)
    · rw [if_neg hnil]
      refine ⟨fun _ => iff_of_false nofun fun h =>
        hnil (memberProblems_eq_nil.mpr ⟨h.fields, h.methods⟩), nofun, ?_⟩
      rintro _ ⟨⟩
      exact ⟨LoadError.message_prefix _,
        fun _ _ _ => ⟨_, _, rfl, blames_memberProblems file this.name⟩⟩

def namesakesFile (fields : List (Bytes × Bytes)) (methods : List (Bytes × Bytes)) :
    ClassFile where
  minor := 0
  major := 52
  pool := #[none, some (.utf8 "T"), some (.classRef 1)]
  flags := 0x21
  thisClass := 2
  superClass := 0
  interfaces := []
  fields := fields.map fun (name, descriptor) => ⟨0, 0, 0, name, descriptor, []⟩
  methods := methods.zipIdx.map fun ((name, descriptor), i) =>
    ⟨⟨8, 0, 0, name, descriptor, []⟩, some ⟨i.toUInt16, 0, [0xB1], [], [], [], []⟩⟩

def soundNamesakes : ClassFile :=
  namesakesFile [("x", "I"), ("x", "J")] [("m", "(I)V"), ("m", "()V"), ("m", "()V")]

def faultyNamesakes : ClassFile :=
  namesakesFile [("x", "Q"), ("y", "I"), ("z", "()V")] [("m", "(I"), ("m", "()V"), ("m", "I")]

def namesakeProblems : List MemberProblem :=
  [.field "x" (.malformed "Q" 0 (.unknownType 'Q'.toUInt8)), .field "z" (.isMethod "()V"),
    .method "m" "(I" (.malformed "(I" 2 .openParameters), .method "m" "I" (.notMethod "I")]

/-- Members may share their names, and bad ones do not hide each other. -/
theorem load_exact_namesakes :
    (∃ c, load soundNamesakes = .ok c ∧ LoadedFrom soundNamesakes c ∧
      (c.method? "m" "()V").map (·.maxStack) = some 2 ∧
      (c.methodByName? "m").map (·.maxStack) = some 0 ∧
      c.newObject = .object "T" [("x", .null)]) ∧
    load faultyNamesakes = .error (.members "T" namesakeProblems) ∧
      faultyNamesakes.Blames namesakeProblems := by
  have hloadable : (load soundNamesakes).isOk = true := by decide +kernel
  obtain ⟨c, hc⟩ := isOk_iff.mp hloadable
  have hmethods :
      ((load soundNamesakes).toOption.bind (·.method? "m" "()V")).map (·.maxStack) = some 2 ∧
      ((load soundNamesakes).toOption.bind (·.methodByName? "m")).map (·.maxStack) = some 0 := by
    decide +kernel
  have hname : (load soundNamesakes).toOption.map (·.name) = some "T" := by decide +kernel
  have hfields : (load soundNamesakes).toOption.map (fun c => Fields.fresh c.fieldNames) =
      some [(("x" : Bytes), Value.null)] := by decide +kernel
  rw [hc] at hmethods hname hfields
  have hobject : c.newObject = .object "T" [("x", .null)] :=
    congrArg₂ Entry.object (Option.some.inj hname) (Option.some.inj hfields)
  have herror : load faultyNamesakes = .error (.members "T" namesakeProblems) := by decide +kernel
  have hresolves : faultyNamesakes.Resolves := isOk_iff.mp (by decide +kernel)
  have haddress : faultyNamesakes.Addressable := by decide
  obtain ⟨_, _, heq, hblames⟩ :=
    ((load_exact faultyNamesakes).2.2.2 _ herror).2 haddress hresolves ⟨1, rfl⟩
  cases heq
  exact ⟨⟨c, hc, (load_exact soundNamesakes).2.2.1 c hc, hmethods.1, hmethods.2, hobject⟩,
    herror, hblames⟩

end Class

end ClassTrace
