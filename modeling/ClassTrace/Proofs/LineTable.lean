import ClassTrace.Proofs.Loading

/-!
The lines of a method. Each row of the line table is written over the addresses from its start up
to the start of the next row, row after row. What is left at an address comes from the last row
that starts there or before: the row after it starts beyond the address, and so do all rows that
are written later. This holds in whatever order the rows stand.
-/
namespace ClassTrace

/-- The line of an address: that of the last row that starts there or before, or -1 if no row
does. -/
inductive LineAt (rows : List LineRow) (pc : Nat) : Int → Prop
  | row {r : LineRow} (h : LastWith (fun r => r.start.toNat ≤ pc) rows r) :
      LineAt rows pc r.line.toNat
  | none (h : ∀ r ∈ rows, pc < r.start.toNat) : LineAt rows pc (-1)

/-- An address has one line. -/
theorem LineAt.unique {rows : List LineRow} {pc : Nat} {line line' : Int}
    (h : LineAt rows pc line) (h' : LineAt rows pc line') : line = line' := by
  have hrow : ∀ {r : LineRow}, LastWith (fun r => r.start.toNat ≤ pc) rows r →
      ¬ ∀ r ∈ rows, pc < r.start.toNat :=
    fun hr hnone => Nat.not_lt.mpr hr.has (hnone _ hr.mem)
  cases h with
  | row hr =>
    cases h' with
    | row hr' => rw [hr.unique hr']
    | none hnone => exact absurd hnone (hrow hr)
  | none hnone =>
    cases h' with
    | row hr' => exact absurd hnone (hrow hr')
    | none => rfl

section Rows

variable {line : Int} {count pc k : Nat} {rows : List LineRow} {lines : Array Int}

theorem size_fillLines (line : Int) (count pc : Nat) (lines : Array Int) :
    (fillLines line count pc lines).size = lines.size := by
  induction count generalizing pc lines with
  | zero => rfl
  | succ count ih => rw [fillLines, ih, Array.size_setIfInBounds]

/-- The line is written over `count` addresses from `pc` on. -/
theorem getElem?_fillLines (hk : k < lines.size) : (fillLines line count pc lines)[k]? =
    if pc ≤ k ∧ k < pc + count then some line else lines[k]? := by
  induction count generalizing pc lines with
  | zero => rw [fillLines, if_neg (by omega)]
  | succ count ih =>
    rw [fillLines, ih (by rwa [Array.size_setIfInBounds]), Array.getElem?_setIfInBounds]
    by_cases hpc : pc = k
    · subst hpc
      rw [if_neg (by omega), if_pos rfl, if_pos hk, if_pos (by omega)]
    · rw [if_neg hpc]
      by_cases hlater : pc + 1 ≤ k ∧ k < pc + 1 + count
      · rw [if_pos hlater, if_pos (by omega)]
      · rw [if_neg hlater, if_neg (by omega)]

theorem size_applyRows (rows : List LineRow) (lines : Array Int) :
    (applyRows rows lines).size = lines.size := by
  induction rows, lines using applyRows.induct with
  | case1 lines => rfl
  | case2 r lines => exact size_fillLines ..
  | case3 r next rest lines ih => rw [applyRows, ih, size_fillLines]

/-- Of the rows that start at an address or before, the last one is left there; without any the
address keeps its line. -/
theorem applyRows_cases (rows : List LineRow) (lines : Array Int) (hpc : pc < lines.size) :
    (∃ r, LastWith (fun r => r.start.toNat ≤ pc) rows r ∧
      (applyRows rows lines)[pc]? = some (r.line.toNat : Int)) ∨
      (∀ r ∈ rows, pc < r.start.toNat) ∧ (applyRows rows lines)[pc]? = lines[pc]? := by
  induction rows, lines using applyRows.induct with
  | case1 lines => exact .inr ⟨List.forall_mem_nil _, rfl⟩
  | case2 r lines =>
    rw [applyRows, getElem?_fillLines hpc]
    by_cases hr : r.start.toNat ≤ pc
    · exact .inl ⟨r, .head hr (List.forall_mem_nil _), if_pos (by omega)⟩
    · exact .inr ⟨by simpa using hr, if_neg (by omega)⟩
  | case3 r next rest lines ih =>
    rw [applyRows]
    rcases ih (by rwa [size_fillLines]) with ⟨last, hlast, heq⟩ | ⟨hlater, heq⟩
    · exact .inl ⟨last, hlast.cons r, heq⟩
    · rw [heq, getElem?_fillLines hpc]
      have hnext : pc < next.start.toNat := hlater next List.mem_cons_self
      by_cases hr : r.start.toNat ≤ pc
      · exact .inl ⟨r, .head hr fun r' hr' => Nat.not_le.mpr (hlater r' hr'), if_pos (by omega)⟩
      · exact .inr ⟨List.forall_mem_cons.mpr ⟨Nat.not_le.mp hr, hlater⟩, if_neg (by omega)⟩

theorem size_expandLines (rows : List LineRow) (size : Nat) :
    (expandLines rows size).size = size := by
  rw [expandLines, size_applyRows, Array.size_replicate]

/-- Each address of the code has an entry, with its line. -/
theorem getElem?_expandLines {size : Nat} :
    (expandLines rows size)[pc]? = some line ↔ pc < size ∧ LineAt rows pc line := by
  by_cases hpc : pc < size
  · obtain ⟨line', hentry, hline'⟩ :
        ∃ line', (expandLines rows size)[pc]? = some line' ∧ LineAt rows pc line' := by
      unfold expandLines
      rcases applyRows_cases rows (Array.replicate size (-1)) (by rwa [Array.size_replicate]) with
        ⟨r, hr, heq⟩ | ⟨hnone, heq⟩
      · exact ⟨_, heq, .row hr⟩
      · exact ⟨-1, by rw [heq, Array.getElem?_replicate, if_pos hpc], .none hnone⟩
    rw [hentry, Option.some.injEq, and_iff_right hpc]
    exact ⟨fun h => h ▸ hline', hline'.unique⟩
  · rw [Array.getElem?_eq_none (by rw [size_expandLines]; omega)]
    exact iff_of_false nofun fun h => hpc h.1

end Rows

def MethodMember.lineRows (info : MethodMember) : List LineRow := info.code.elim [] (·.lines)

namespace Method

variable {owner : Bytes} {info : MethodMember} {m : Method}

/-- A method is loaded with its rows expanded. -/
theorem load_lines (h : load owner info = .ok m) :
    m.lines = expandLines info.lineRows m.code.size := by
  obtain ⟨signature, _, -, rfl, rfl⟩ := load_made h
  unfold MethodMember.lineRows
  cases info.code with
  | none => rfl
  | some code => simp [withCode]

theorem line_of_lt {pc : Nat} (h : pc < m.lines.size) : m.lines[pc]? = some (m.line pc) := by
  unfold line
  rw [if_neg (by omega), Int.toNat_natCast, Array.getElem?_eq_getElem h, Option.getD_some]

/-- Outside of the code no line is known. -/
theorem line_outside {pc : Int} (h : pc < 0 ∨ m.lines.size ≤ pc) : m.line pc = -1 := by
  unfold line
  split
  · rfl
  · rw [Array.getElem?_eq_none (by omega), Option.getD_none]

/-- The expanded table has one entry for each address of the code, and it is the line of the last
row that starts there or before. A loaded method has these lines within its code and none
outside. -/
theorem lines_expanded :
    (∀ (rows : List LineRow) (size : Nat), (expandLines rows size).size = size ∧
      ∀ pc line, (expandLines rows size)[pc]? = some line ↔ pc < size ∧ LineAt rows pc line) ∧
    ∀ (owner : Bytes) (info : MethodMember) (m : Method), load owner info = .ok m →
      (∀ pc : Nat, pc < m.code.size → (expandLines info.lineRows m.code.size)[pc]? =
        some (m.line pc)) ∧
      ∀ pc : Int, pc < 0 ∨ m.code.size ≤ pc → m.line pc = -1 := by
  refine ⟨fun rows size => ⟨size_expandLines rows size, fun _ _ => getElem?_expandLines⟩, ?_⟩
  intro owner info m h
  have hlines := load_lines h
  have hsize : m.lines.size = m.code.size := by rw [hlines, size_expandLines]
  refine ⟨fun pc hpc => ?_, fun pc hpc => line_outside (by rwa [hsize])⟩
  rw [← hlines]
  exact line_of_lt (by rwa [hsize])

def patchyMember : MethodMember where
  flags := 8
  nameIndex := 0
  descriptorIndex := 0
  name := "m"
  descriptor := "()V"
  attributes := []
  code := some ⟨0, 0, [0, 0, 0, 0, 0, 0, 0xB1], [], [], [⟨2, 10⟩, ⟨5, 11⟩, ⟨5, 12⟩, ⟨9, 13⟩], []⟩

/-- The rows leave the first addresses out, name one address twice and go beyond the code. -/
theorem lines_expanded_patchy :
    ∃ m, load "T" patchyMember = .ok m ∧ m.lines = #[-1, -1, 10, 10, 10, 12, 12] ∧
    m.code.size = 7 ∧ LineAt patchyMember.lineRows 5 12 ∧ m.line 7 = -1 ∧ m.line (-1) = -1 := by
  have hmade : (load "T" patchyMember).toOption.map (fun m => (m.lines, m.code.size)) =
      some (#[-1, -1, 10, 10, 10, 12, 12], 7) := by decide +kernel
  cases hload : load "T" patchyMember with
  | error p =>
    rw [hload] at hmade
    cases hmade
  | ok m =>
    rw [hload] at hmade
    simp only [Except.toOption, Option.map_some, Option.some.injEq, Prod.mk.injEq] at hmade
    obtain ⟨hlines, hsize⟩ := hmade
    have hentry : (expandLines patchyMember.lineRows 7)[5]? = some 12 := by
      rw [← hsize, ← load_lines hload, hlines]
      rfl
    have hline := (lines_expanded.1 patchyMember.lineRows 7).2 5 12
    obtain ⟨-, houtside⟩ := lines_expanded.2 "T" patchyMember m hload
    exact ⟨m, rfl, hlines, hsize, (hline.mp hentry).2, houtside 7 (.inr (by omega)),
      houtside (-1) (.inl (by omega))⟩

end Method

end ClassTrace
