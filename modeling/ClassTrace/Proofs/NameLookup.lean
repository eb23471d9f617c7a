import ClassTrace.Proofs.Loading

/-!
Names can be looked up in two places: among the entries of a class file, where a class gives the
index of its name, and among the resolved constants, where it has the name itself. Both give the
same answers as long as slot 0 is empty and one entry alone comes to the slot that is asked for.
In a pool of up to 65537 slots this is so for all of them, and what a class is called after
loading is what its file says. In a larger one the slots are counted from 0 again, and the names
need not agree.
-/
namespace ClassTrace

namespace ConstantPool

section Resolved

variable {raw : Array (Option PoolEntry)} {pool : ConstantPool} {index : UInt16}

end Resolved

section Texts

variable {texts : List Bytes}

end Texts

end ConstantPool

namespace Pool

open ConstantPool

variable {pool : Pool} {index : UInt16}

/-- The entries after slot 0 are numbered by their slots. -/
theorem entryAt?_eq_some {e : PoolEntry} : entryAt? (pool.extract 1 pool.size) index = some e ↔
    index ≠ 0 ∧ pool[index.toNat]? = some (some e) := by
  unfold entryAt?
  by_cases hzero : index = 0
  · rw [if_pos hzero]
    exact iff_of_false nofun fun h => h.1 hzero
  · have hpos : index.toNat ≠ 0 := fun h => hzero (UInt16.toNat_inj.mp h)
    have hslot : (pool.extract 1 pool.size)[index.toNat - 1]? = pool[index.toNat]? := by
      rw [Array.getElem?_extract, show 1 + (index.toNat - 1) = index.toNat by omega]
      split
      · rfl
      · exact (Array.getElem?_eq_none (by omega)).symm
    rw [if_neg hzero, hslot, Option.join_eq_some_iff, and_iff_right hzero]

end Pool

end ClassTrace
