import ClassTrace.Proofs.ArgumentPassing
import ClassTrace.Proofs.Loading

/-!
The variables of a method. A row of the variable table names a slot at the addresses of its scope;
where several rows name one slot at an address, the last of them counts. The same comes out if the
rows are written into a table of all addresses and slots, each over what the rows before it have
left. Parameters have the names of their slots at the first address.
-/
namespace ClassTrace

def Variable.Covers (v : Variable) (pc slot : Int) : Prop :=
  (v.slot : Int) = slot ∧ (v.start : Int) ≤ pc ∧ pc < v.start + v.length

theorem Variable.covers_iff {v : Variable} {pc slot : Int} :
    v.covers pc slot = true ↔ v.Covers pc slot := by
  simp [Variable.covers, Variable.Covers, and_assoc]

abbrev ScopeTable := Std.HashMap (Int × Int) Variable

namespace ScopeTable

def write (v : Variable) : (count pc : Nat) → ScopeTable → ScopeTable
  | 0, _, table => table
  | count + 1, pc, table => write v count (pc + 1) (table.insert (pc, v.slot) v)

def ofRows (rows : List Variable) : ScopeTable :=
  rows.foldl (fun table v => write v v.length v.start table) ∅

/-- A row that is written covers its addresses, and the table is as before elsewhere. -/
theorem getElem?_write (v : Variable) (count start : Nat) (table : ScopeTable) (pc slot : Int) :
    (write v count start table)[(pc, slot)]? =
      if (v.slot : Int) = slot ∧ (start : Int) ≤ pc ∧
      pc < start + count then some v else table[(pc, slot)]? := by
  induction count generalizing start table with
  | zero => rw [write, if_neg (by omega)]
  | succ count ih =>
    rw [write, ih, Std.HashMap.getElem?_insert]
    by_cases hfirst : (v.slot : Int) = slot ∧ (start : Int) = pc
    · obtain ⟨rfl, rfl⟩ := hfirst
      rw [if_neg (by omega), if_pos (by simp), if_pos (by omega)]
    · have hkey : ¬ (((start : Int), (v.slot : Int)) == (pc, slot)) = true := by
        simpa [and_comm] using hfirst
      rw [if_neg hkey]
      by_cases hlater :
        (v.slot : Int) = slot ∧ ((start + 1 : Nat) : Int) ≤ pc ∧ pc < (start + 1 : Nat) + count
      · rw [if_pos hlater, if_pos (by omega)]
      · rw [if_neg hlater, if_neg (by omega)]

/-- What is left of the rows at an address is the last one that covers it. -/
theorem getElem?_ofRows (rows : List Variable) (pc slot : Int) :
    (ofRows rows)[(pc, slot)]? = (rows.filter (·.covers pc slot)).getLast? := by
  induction rows using List.reverseRecOn with
  | nil => exact Std.HashMap.getElem?_empty
  | append_singleton rows v ih =>
    unfold ofRows at ih ⊢
    rw [List.foldl_concat, getElem?_write, ih, List.filter_append]
    by_cases hv : (v.slot : Int) = slot ∧ (v.start : Int) ≤ pc ∧ pc < v.start + v.length
    · rw [if_pos hv]
      simp [Variable.covers_iff.mpr hv]
    · rw [if_neg hv]
      simp [mt Variable.covers_iff.mp hv]

end ScopeTable

/-- What parameter `i` is called: its slot's variable at the first address gives the name, else
its number. -/
inductive ParamName (rows : List Variable) (slot i : Nat) : Bytes → Prop
  | scope {v : Variable} (h : LastWith (·.Covers 0 slot) rows v) : ParamName rows slot i v.name
  | number (h : ∀ v ∈ rows, ¬ v.Covers 0 slot) : ParamName rows slot i ("arg" ++ Bytes.decimal i)

def MethodMember.variableRows (info : MethodMember) : List VariableRow :=
  info.code.elim [] (·.variableRows)

namespace Method

variable {m : Method} {pc slot : Int}

/-- The variable of a slot is the last row that covers it. -/
theorem variableAt?_eq_some {v : Variable} :
    m.variableAt? pc slot = some v ↔ LastWith (·.Covers pc slot) m.localVariables v :=
  getLast?_filter_eq_some fun _ => Variable.covers_iff

theorem variableAt?_eq_none :
    m.variableAt? pc slot = none ↔ ∀ v ∈ m.localVariables, ¬ v.Covers pc slot := by
  unfold variableAt?
  rw [List.getLast?_eq_none_iff, List.filter_eq_nil_iff]
  exact forall₂_congr fun _ _ => not_congr Variable.covers_iff

/-- Every parameter has a name. -/
theorem nameParams_getElem? {i : Nat} (hi : i < m.signature.params.length) :
    ∃ name, m.nameParams[i]? = some name ∧ ParamName m.localVariables (m.argSlot i) i name := by
  unfold nameParams
  rw [List.getElem?_map, List.getElem?_zipIdx, getElem?_paramSlots hi, Option.map_some,
    Option.map_some, Nat.zero_add]
  refine ⟨_, rfl, ?_⟩
  dsimp only
  split
  · rename_i v hv
    exact .scope (variableAt?_eq_some.mp hv)
  · rename_i hnone
    exact .number (variableAt?_eq_none.mp hnone)

variable {owner : Bytes} {info : MethodMember}

/-- A method is loaded with the rows of its tables, and its parameters are named. -/
theorem load_variables (h : load owner info = .ok m) :
    m.localVariables = info.variableRows.map ofRow ∧ m.paramNames = m.nameParams := by
  obtain ⟨signature, _, -, rfl, rfl⟩ := load_made h
  unfold MethodMember.variableRows
  cases info.code with
  | none | some => exact ⟨rfl, rfl⟩

end Method

end ClassTrace
