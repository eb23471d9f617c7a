import ClassTrace.Descriptor.Parser

/-!
The grammar of descriptors. Trees are what a descriptor could be if anything might stand anywhere:
void in an array, a method among the parameters. The well-formed ones are those of the grammar.
Reading a text gives a tree exactly if the tree is well formed and the text is its encoded form,
so every text has at most one descriptor and every other text is refused.
-/
namespace ClassTrace

/-- Types and methods in any combination. A primitive is given by its letter. -/
inductive TypeTree where
  | primitive (letter : UInt8)
  | object (name : Bytes)
  | array (element : TypeTree)
  | method (params : List TypeTree) (result : TypeTree)

namespace TypeTree

def void : TypeTree := .primitive 'V'.toUInt8

mutual

def encode : TypeTree → Bytes
  | .primitive letter => Bytes.ofChar (Char.ofNat letter.toNat)
  | .object name => "L" ++ name ++ ";"
  | .array element => "[" ++ element.encode
  | .method params result => "(" ++ encodeAll params ++ ")" ++ result.encode

def encodeAll : List TypeTree → Bytes
  | [] => []
  | t :: rest => t.encode ++ encodeAll rest

end

/-- The type of a field: neither void nor a method, and no class without a name or with a
semicolon in its name. -/
def IsField : TypeTree → Prop
  | .primitive letter => letter ∈ Bytes.ofString "BCDFIJSZ"
  | .object name => name ≠ [] ∧ ';'.toUInt8 ∉ name
  | .array element => element.IsField
  | .method _ _ => False

def IsMethod : TypeTree → Prop
  | .method _ _ => True
  | _ => False

def WellFormed : TypeTree → Prop
  | .method params result => (∀ t ∈ params, t.IsField) ∧ (result.IsField ∨ result = void)
  | t => t.IsField ∨ t = void

end TypeTree

def FieldType.tree : FieldType → TypeTree
  | .primitive p => .primitive p.letter
  | .object name => .object name
  | .array element => .array element.tree

def ResultType.tree : ResultType → TypeTree
  | .void => .void
  | .value t => t.tree

def Signature.tree (s : Signature) : TypeTree :=
  .method (s.params.map FieldType.tree) s.result.tree

def Descriptor.tree : Descriptor → TypeTree
  | .plain t => t.tree
  | .method s => s.tree

theorem Primitive.ofLetter?_eq_some {letter : UInt8} {p : Primitive} :
    Primitive.ofLetter? letter = some p ↔ p.letter = letter := by
  constructor
  · intro h
    exact beq_iff_eq.mp (List.find?_some h :)
  · rintro rfl
    cases p <;> rfl

theorem Primitive.letter_mem (p : Primitive) : p.letter ∈ Bytes.ofString "BCDFIJSZ" := by
  cases p <;> decide

namespace FieldType

theorem encode_tree (t : FieldType) : t.tree.encode = t.encode := by
  induction t with
  | primitive p => cases p <;> decide
  | object name => simp only [tree, TypeTree.encode, encode]
  | array element ih => simp only [tree, TypeTree.encode, encode, ih]

end FieldType

theorem Signature.encodeAll_tree (ts : List FieldType) :
    TypeTree.encodeAll (ts.map FieldType.tree) = ts.flatMap FieldType.encode := by
  induction ts with
  | nil => rfl
  | cons t rest ih =>
    simp only [List.map_cons, TypeTree.encodeAll, List.flatMap_cons, ih, t.encode_tree]

theorem ResultType.encode_tree (t : ResultType) : t.tree.encode = t.encode := by
  cases t with
  | void => decide
  | value t => exact t.encode_tree

theorem Descriptor.encode_tree (d : Descriptor) : d.tree.encode = d.encode := by
  cases d with
  | plain t => exact t.encode_tree
  | method s =>
    simp only [Descriptor.tree, Signature.tree, TypeTree.encode, Descriptor.encode,
      Signature.encode, Signature.encodeAll_tree, ResultType.encode_tree]

namespace TypeTree

/-- Trees of fields are those of field types. -/
theorem IsField.exists_type {t : TypeTree} (h : t.IsField) : ∃ f : FieldType, f.tree = t := by
  induction t using IsField.induct with
  | case1 letter =>
    have hmem : letter ∈ Primitive.all.map Primitive.letter := h
    obtain ⟨p, -, hp⟩ := List.mem_map.mp hmem
    exact ⟨.primitive p, congrArg primitive hp⟩
  | case2 name => exact ⟨.object name, rfl⟩
  | case3 element ih =>
    obtain ⟨f, hf⟩ := ih h
    exact ⟨.array f, congrArg array hf⟩
  | case4 params result => exact h.elim

theorem exists_params {ts : List TypeTree} (h : ∀ t ∈ ts, t.IsField) :
    ∃ fs : List FieldType, fs.map FieldType.tree = ts := by
  induction ts with
  | nil => exact ⟨[], rfl⟩
  | cons t rest ih =>
    obtain ⟨f, rfl⟩ := (h t (List.mem_cons_self ..)).exists_type
    obtain ⟨fs, rfl⟩ := ih fun t ht => h t (List.mem_cons_of_mem _ ht)
    exact ⟨f :: fs, rfl⟩

theorem exists_result {t : TypeTree} (h : t.IsField ∨ t = void) :
    ∃ r : ResultType, r.tree = t := by
  rcases h with hfield | rfl
  · obtain ⟨f, hf⟩ := hfield.exists_type
    exact ⟨.value f, hf⟩
  · exact ⟨.void, rfl⟩

/-- Every well-formed tree is that of a descriptor. -/
theorem WellFormed.exists_descriptor {t : TypeTree} (h : t.WellFormed) :
    ∃ d : Descriptor, d.tree = t := by
  cases t with
  | method params result =>
    obtain ⟨fs, rfl⟩ := exists_params h.1
    obtain ⟨r, rfl⟩ := exists_result h.2
    exact ⟨.method ⟨fs, r⟩, rfl⟩
  | primitive | object | array =>
    obtain ⟨r, hr⟩ := exists_result h
    exact ⟨.plain r, hr⟩

end TypeTree

namespace Descriptor

/-- The name of a class ends at the first semicolon and is not empty. -/
theorem readName_eq_ok {start rest after : Bytes} {t : FieldType} :
    readName start rest = .ok (t, after) ↔
      ∃ name, t = .object name ∧ t.tree.IsField ∧ rest = name ++ ';'.toUInt8 :: after := by
  have hsplit := List.takeWhile_append_dropWhile (p := (· ≠ ';'.toUInt8)) (l := rest)
  unfold readName
  constructor
  · intro h
    dsimp only at h
    split at h
    · cases h
    · rename_i b tail hdrop
      split at h
      · cases h
      · rename_i hname
        cases h
        have hb : b = ';'.toUInt8 := by
          have hhead := List.head?_dropWhile_not (· ≠ ';'.toUInt8) rest
          rw [hdrop] at hhead
          simpa using hhead
        refine ⟨_, rfl, ⟨by simpa using hname, ?_⟩, ?_⟩
        · intro hmem
          have hall := List.all_eq_true.mp List.all_takeWhile _ hmem
          simp at hall
        · rw [hdrop, hb] at hsplit
          exact hsplit.symm
  · rintro ⟨name, rfl, ⟨hne, hmem⟩, rfl⟩
    have hname : ∀ b ∈ name, (decide (b ≠ ';'.toUInt8)) = true := by
      intro b hb
      refine decide_eq_true ?_
      rintro rfl
      exact hmem hb
    have htake : (name ++ ';'.toUInt8 :: after).takeWhile (· ≠ ';'.toUInt8) = name := by
      rw [List.takeWhile_append_of_pos hname]
      simp
    have hdrop :
        (name ++ ';'.toUInt8 :: after).dropWhile (· ≠ ';'.toUInt8) = ';'.toUInt8 :: after := by
      rw [List.dropWhile_append_of_pos hname]
      simp
    simp only [htake, hdrop]
    rw [if_neg (by simpa using hne)]

/-- A type is read back from its encoded form, whatever follows. -/
theorem readType_encode {t : FieldType} (h : t.tree.IsField) (rest : Bytes) :
    readType (t.encode ++ rest) = .ok (t, rest) := by
  induction t with
  | primitive p =>
    have hp : Primitive.ofLetter? p.letter = some p := Primitive.ofLetter?_eq_some.mpr rfl
    change readType (p.letter :: rest) = _
    rw [readType, hp]
  | object name =>
    have hnone : Primitive.ofLetter? 'L'.toUInt8 = none := by decide
    have htext : (FieldType.object name).encode ++ rest =
        'L'.toUInt8 :: (name ++ ';'.toUInt8 :: rest) := by
      change ['L'.toUInt8] ++ name ++ [';'.toUInt8] ++ rest = _
      simp
    rw [htext, readType, hnone]
    exact readName_eq_ok.mpr ⟨name, rfl, h, rfl⟩
  | array element ih =>
    have hnone : Primitive.ofLetter? '['.toUInt8 = none := by decide
    change readType ('['.toUInt8 :: (element.encode ++ rest)) = _
    rw [readType, hnone]
    simp only [ih h]
    rfl

/-- What is read as a type is its encoded form. -/
theorem encode_of_readType {text rest : Bytes} {t : FieldType}
    (h : readType text = .ok (t, rest)) :
    t.tree.IsField ∧ text = t.encode ++ rest := by
  induction text generalizing t with
  | nil => cases h
  | cons c tail ih =>
    rw [readType] at h
    split at h
    · rename_i p hp
      cases h
      rw [← Primitive.ofLetter?_eq_some.mp hp]
      exact ⟨p.letter_mem, rfl⟩
    · split at h
      · rename_i hc
        obtain ⟨name, rfl, hfield, rfl⟩ := readName_eq_ok.mp h
        refine ⟨hfield, ?_⟩
        rw [hc]
        change _ = ['L'.toUInt8] ++ name ++ [';'.toUInt8] ++ rest
        simp
      · split at h
        · rename_i hc
          split at h
          · rename_i element after hread
            cases h
            obtain ⟨hfield, rfl⟩ := ih hread
            exact ⟨hfield, congrArg (· :: _) hc⟩
          · cases h
        · split at h
          · cases h
          · cases h

/-- The byte that a field type starts with tells it from void and from parentheses. -/
theorem encode_eq_cons (t : FieldType) :
    ∃ c tail, t.encode = c :: tail ∧ c ∉ Bytes.ofString "V()" := by
  cases t with
  | primitive p => exact ⟨p.letter, [], rfl, by cases p <;> decide⟩
  | object name => exact ⟨'L'.toUInt8, name ++ [';'.toUInt8], rfl, by decide⟩
  | array element => exact ⟨'['.toUInt8, element.encode, rfl, by decide⟩

theorem readResult_eq_ok {text rest : Bytes} {r : ResultType} :
    readResult text = .ok (r, rest) ↔
      (r.tree.IsField ∨ r.tree = .void) ∧ text = r.encode ++ rest := by
  constructor
  · intro h
    cases text with
    | nil => cases h
    | cons c tail =>
      rw [readResult] at h
      split at h
      · rename_i hc
        cases h
        exact ⟨.inr rfl, congrArg (· :: _) hc⟩
      · split at h
        · rename_i t after hread
          cases h
          obtain ⟨hfield, htext⟩ := encode_of_readType hread
          exact ⟨.inl hfield, htext⟩
        · cases h
  · rintro ⟨hr, rfl⟩
    cases r with
    | void => rfl
    | value t =>
      have hfield : t.tree.IsField := by
        rcases hr with hfield | hvoid
        · exact hfield
        · cases t with
          | primitive p => cases p <;> cases hvoid
          | object | array => cases hvoid
      obtain ⟨c, tail, htext, hc⟩ := encode_eq_cons t
      have hc : c ≠ 'V'.toUInt8 := List.ne_of_not_mem_cons hc
      have hread := readType_encode hfield rest
      change readResult (t.encode ++ rest) = _
      rw [htext] at hread ⊢
      rw [List.cons_append] at hread ⊢
      rw [readResult, if_neg hc]
      simp only [hread]

theorem readParams_encode {ts : List FieldType} (h : ∀ t ∈ ts, t.tree.IsField) (rest : Bytes)
    {rounds : Nat} (hrounds : ts.length < rounds) :
    readParams rounds (ts.flatMap FieldType.encode ++ ')'.toUInt8 :: rest) = .ok (ts, rest) := by
  induction ts generalizing rounds with
  | nil =>
    cases rounds with
    | zero => cases hrounds
    | succ n => rfl
  | cons t ts ih =>
    cases rounds with
    | zero => cases hrounds
    | succ n =>
      have hfield := h t (List.mem_cons_self ..)
      have hrest :=
        ih (fun t ht => h t (List.mem_cons_of_mem _ ht)) (Nat.lt_of_succ_lt_succ hrounds)
      obtain ⟨c, tail, htext, hc⟩ := encode_eq_cons t
      have hc : c ≠ ')'.toUInt8 := fun heq => hc (heq ▸ by decide)
      have hread := readType_encode hfield (ts.flatMap FieldType.encode ++ ')'.toUInt8 :: rest)
      rw [htext, List.cons_append] at hread
      rw [List.flatMap_cons, List.append_assoc, htext, List.cons_append, readParams, if_neg hc]
      simp only [hread, hrest]

theorem encode_of_readParams {rounds : Nat} {text rest : Bytes} {ts : List FieldType}
    (h : readParams rounds text = .ok (ts, rest)) :
    (∀ t ∈ ts, t.tree.IsField) ∧ text = ts.flatMap FieldType.encode ++ ')'.toUInt8 :: rest := by
  induction rounds generalizing text ts with
  | zero => cases text <;> cases h
  | succ n ih =>
    cases text with
    | nil => cases h
    | cons c tail =>
      rw [readParams] at h
      split at h
      · rename_i hc
        cases h
        exact ⟨nofun, congrArg (· :: _) hc⟩
      · split at h
        · cases h
        · rename_i t after hread
          split at h
          · cases h
          · rename_i us final hrest
            cases h
            obtain ⟨hfield, htext⟩ := encode_of_readType hread
            obtain ⟨hfields, rfl⟩ := ih hrest
            refine ⟨List.forall_mem_cons.mpr ⟨hfield, hfields⟩, ?_⟩
            rw [htext, List.flatMap_cons, List.append_assoc]

theorem length_le_flatMap_encode (ts : List FieldType) :
    ts.length ≤ (ts.flatMap FieldType.encode).length := by
  induction ts with
  | nil => exact Nat.le_refl 0
  | cons t ts ih =>
    obtain ⟨c, tail, htext, -⟩ := encode_eq_cons t
    rw [List.flatMap_cons, htext, List.length_append, List.length_cons, List.length_cons]
    omega

/-- Behind the opening bracket, exactly the well-formed methods are read. -/
theorem readSignature_eq_ok {text rest : Bytes} {s : Signature} :
    readSignature text = .ok (s, rest) ↔
      s.tree.WellFormed ∧ text = s.params.flatMap FieldType.encode ++
        ')'.toUInt8 :: s.result.encode ++ rest := by
  constructor
  · intro h
    unfold readSignature at h
    split at h
    · cases h
    · rename_i params after hparams
      split at h
      · cases h
      · rename_i result final hresult
        cases h
        obtain ⟨hfields, rfl⟩ := encode_of_readParams hparams
        obtain ⟨hr, rfl⟩ := readResult_eq_ok.mp hresult
        refine ⟨⟨List.forall_mem_map.mpr hfields, hr⟩, ?_⟩
        simp
  · rintro ⟨⟨hfields, hr⟩, rfl⟩
    have hfields := List.forall_mem_map.mp hfields
    have hlength := length_le_flatMap_encode s.params
    unfold readSignature
    rw [List.append_assoc, List.cons_append, readParams_encode hfields]
    · simp only [readResult_eq_ok.mpr ⟨hr, rfl⟩]
    · simp only [List.length_append, List.length_cons]
      omega

theorem wellFormed_plain {r : ResultType} :
    (Descriptor.plain r).tree.WellFormed ↔ r.tree.IsField ∨ r.tree = .void := by
  cases r with
  | void => exact Iff.rfl
  | value t => cases t <;> exact Iff.rfl

/-- A prefix of a text is read exactly if it is the encoded form of a well-formed tree. -/
theorem read_eq_ok {text rest : Bytes} {d : Descriptor} :
    read text = .ok (d, rest) ↔ d.tree.WellFormed ∧ text = d.encode ++ rest := by
  constructor
  · intro h
    cases text with
    | nil => cases h
    | cons c tail =>
      rw [read] at h
      split at h
      · rename_i hc
        split at h
        · cases h
        · rename_i s after hread
          cases h
          obtain ⟨hs, rfl⟩ := readSignature_eq_ok.mp hread
          refine ⟨hs, ?_⟩
          rw [hc]
          change _ = ['('.toUInt8] ++ s.params.flatMap FieldType.encode ++ [')'.toUInt8] ++
            s.result.encode ++ rest
          simp
      · split at h
        · cases h
        · rename_i r after hread
          cases h
          obtain ⟨hr, htext⟩ := readResult_eq_ok.mp hread
          exact ⟨wellFormed_plain.mpr hr, htext⟩
  · rintro ⟨hd, rfl⟩
    cases d with
    | method s =>
      have htext : (Descriptor.method s).encode ++ rest = '('.toUInt8 ::
          (s.params.flatMap FieldType.encode ++ ')'.toUInt8 :: s.result.encode ++ rest) := by
        change ['('.toUInt8] ++ s.params.flatMap FieldType.encode ++ [')'.toUInt8] ++
          s.result.encode ++ rest = _
        simp
      rw [htext, read, if_pos rfl]
      simp only [readSignature_eq_ok.mpr ⟨hd, rfl⟩]
    | plain r =>
      have hread : readResult (r.encode ++ rest) = .ok (r, rest) :=
        readResult_eq_ok.mpr ⟨wellFormed_plain.mp hd, rfl⟩
      obtain ⟨c, tail, htext, hc⟩ : ∃ c tail, r.encode = c :: tail ∧ c ≠ '('.toUInt8 := by
        cases r with
        | void => exact ⟨'V'.toUInt8, [], rfl, by decide⟩
        | value t =>
          obtain ⟨c, tail, htext, hc⟩ := encode_eq_cons t
          exact ⟨c, tail, htext, fun heq => hc (heq ▸ by decide)⟩
      change read (r.encode ++ rest) = _
      rw [htext, List.cons_append] at hread ⊢
      rw [read, if_neg hc]
      simp only [hread]

/-- A text is parsed to the one descriptor that is encoded to it. -/
theorem parse_eq_ok {text : Bytes} {d : Descriptor} :
    parse text = .ok d ↔ d.tree.WellFormed ∧ d.encode = text := by
  have hread : read text = .ok (d, []) ↔ d.tree.WellFormed ∧ d.encode = text := by
    rw [read_eq_ok, List.append_nil, eq_comm]
  rw [← hread]
  unfold parse
  dsimp only
  constructor
  · intro h
    split at h
    · cases h
    · rename_i heq
      cases h
      exact heq
    · cases h
  · intro h
    simp only [h]

end Descriptor

def DescriptorError.Refuses {α : Type} (r : Except DescriptorError α) : Prop :=
  ∃ e, r = .error e ∧ ("malformed descriptor" : Bytes) <+: e.message

/-- The parser for methods accepts those descriptors that are methods. -/
theorem Signature.parse_eq_ok {text : Bytes} {s : Signature} :
    Signature.parse text = .ok s ↔ Descriptor.parse text = .ok (.method s) := by
  unfold Signature.parse
  constructor
  · intro h
    split at h
    · cases h
    · rename_i heq
      cases h
      exact heq
    · cases h
  · intro h
    simp only [h]

/-- The parser for fields accepts those that are neither methods nor void. -/
theorem FieldType.parse_eq_ok {text : Bytes} {t : FieldType} :
    FieldType.parse text = .ok t ↔ Descriptor.parse text = .ok (.plain (.value t)) := by
  unfold FieldType.parse
  constructor
  · intro h
    split at h
    · cases h
    · cases h
    · cases h
    · rename_i heq
      cases h
      exact heq
  · intro h
    simp only [h]

namespace TypeTree

section Results

variable {α : Type} {tree : α → TypeTree} {r : Except DescriptorError α}

theorem map_eq_ok {t : TypeTree} : r.map tree = .ok t ↔ ∃ a, r = .ok a ∧ tree a = t := by
  cases r with
  | error e => exact ⟨nofun, nofun⟩
  | ok a => simp [Except.map]

/-- A parser that gives no tree refuses the text, with an error of the one kind there is. -/
theorem refuses_iff {P : TypeTree → Prop} (h : ∀ t, r.map tree = .ok t ↔ P t) :
    DescriptorError.Refuses r ↔ ∀ t, ¬ P t := by
  cases r with
  | error e =>
    refine iff_of_true ⟨e, rfl, ?_⟩ fun t ht => nomatch (h t).mpr ht
    cases e <;> exact ⟨_, rfl⟩
  | ok a =>
    refine iff_of_false nofun fun hnone => ?_
    exact hnone (tree a) ((h (tree a)).mp rfl)

end Results

/-- The trees that a text is parsed to. -/
theorem parse_eq_tree {text : Bytes} {t : TypeTree} :
    (Descriptor.parse text).map Descriptor.tree = .ok t ↔ t.WellFormed ∧ t.encode = text := by
  rw [map_eq_ok]
  constructor
  · rintro ⟨d, hparse, rfl⟩
    rw [Descriptor.encode_tree]
    exact Descriptor.parse_eq_ok.mp hparse
  · rintro ⟨ht, rfl⟩
    obtain ⟨d, rfl⟩ := ht.exists_descriptor
    exact ⟨d, Descriptor.parse_eq_ok.mpr ⟨ht, d.encode_tree.symm⟩, rfl⟩

theorem parse_eq_method {text : Bytes} {t : TypeTree} :
    (Signature.parse text).map Signature.tree = .ok t ↔
      (t.WellFormed ∧ t.encode = text) ∧ t.IsMethod := by
  rw [← parse_eq_tree]
  simp only [map_eq_ok, Signature.parse_eq_ok]
  constructor
  · rintro ⟨s, hparse, rfl⟩
    exact ⟨⟨_, hparse, rfl⟩, trivial⟩
  · rintro ⟨⟨d, hparse, rfl⟩, hmethod⟩
    cases d with
    | method s => exact ⟨s, hparse, rfl⟩
    | plain r =>
      cases r with
      | void => exact hmethod.elim
      | value f => cases f <;> exact hmethod.elim

theorem parse_eq_field {text : Bytes} {t : TypeTree} :
    (FieldType.parse text).map FieldType.tree = .ok t ↔
      (t.WellFormed ∧ t.encode = text) ∧ ¬ t.IsMethod ∧ t ≠ void := by
  rw [← parse_eq_tree]
  simp only [map_eq_ok, FieldType.parse_eq_ok]
  constructor
  · rintro ⟨f, hparse, rfl⟩
    refine ⟨⟨_, hparse, rfl⟩, ?_⟩
    cases f with
    | primitive p => exact ⟨not_false, by cases p <;> nofun⟩
    | object name => exact ⟨not_false, nofun⟩
    | array element => exact ⟨not_false, nofun⟩
  · rintro ⟨⟨d, hparse, rfl⟩, hmethod, hvoid⟩
    cases d with
    | method s => exact absurd trivial hmethod
    | plain r =>
      cases r with
      | void => exact absurd rfl hvoid
      | value f => exact ⟨f, hparse, rfl⟩

end TypeTree

/-- Parsing accepts exactly the encoded forms of well-formed trees and gives the tree back. The
parsers of methods and of fields accept the forms of methods, and those of neither methods nor
void. Every other text is refused. -/
theorem Descriptor.parse_exact (text : Bytes) :
    (∀ d : Descriptor, parse text = .ok d ↔ d.tree.WellFormed ∧ d.encode = text) ∧
    (∀ t : TypeTree, (parse text).map tree = .ok t ↔ t.WellFormed ∧ t.encode = text) ∧
    (∀ t : TypeTree, (Signature.parse text).map Signature.tree = .ok t ↔
      (t.WellFormed ∧ t.encode = text) ∧ t.IsMethod) ∧
    (∀ t : TypeTree, (FieldType.parse text).map FieldType.tree = .ok t ↔
      (t.WellFormed ∧ t.encode = text) ∧ ¬ t.IsMethod ∧ t ≠ .void) ∧
    (DescriptorError.Refuses (parse text) ↔ ∀ t : TypeTree, ¬ (t.WellFormed ∧ t.encode = text)) ∧
    (DescriptorError.Refuses (Signature.parse text) ↔
      ∀ t : TypeTree, ¬ ((t.WellFormed ∧ t.encode = text) ∧ t.IsMethod)) ∧
    (DescriptorError.Refuses (FieldType.parse text) ↔
      ∀ t : TypeTree, ¬ ((t.WellFormed ∧ t.encode = text) ∧ ¬ t.IsMethod ∧ t ≠ .void)) := by
  refine ⟨fun d => parse_eq_ok, fun t => TypeTree.parse_eq_tree, fun t =>
    TypeTree.parse_eq_method, fun t => TypeTree.parse_eq_field, ?_, ?_, ?_⟩
  · exact TypeTree.refuses_iff fun t => TypeTree.parse_eq_tree
  · exact TypeTree.refuses_iff fun t => TypeTree.parse_eq_method
  · exact TypeTree.refuses_iff fun t => TypeTree.parse_eq_field

/-- A name may hold what means something elsewhere. -/
example : Descriptor.parse "([[L(V);)V" =
    .ok (.method ⟨[.array (.array (.object "(V)"))], .void⟩) := rfl

end ClassTrace
