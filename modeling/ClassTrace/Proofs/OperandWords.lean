import ClassTrace.Proofs.ReadItems
import ClassTrace.Proofs.Decode

/-!
The operands of switches, read word by word. The words that the code holds at an address are those
that can be read there, and as many can be read as there is room for. Readers of such operands are
confined: they stop within the code, and they look at no byte from there on.
-/
namespace ClassTrace

namespace Bytes

def ofWord (w : Int32) : Bytes := ofNat 4 w.toUInt32.toNat

def ofWords (ws : List Int32) : Bytes := ws.flatMap ofWord

theorem length_ofWord (w : Int32) : (ofWord w).length = 4 := length_ofNat ..

theorem toInt32_ofWord (w : Int32) : (toNat (ofWord w)).toUInt32.toInt32 = w := by
  unfold ofWord
  rw [toNat_ofNat w.toUInt32.toNat_lt]
  simp

theorem ofWord_toInt32 {data : Bytes} (h : data.length = 4) :
    ofWord (toNat data).toUInt32.toInt32 = data := by
  have hlt : toNat data < 4294967296 := by simpa [h] using toNat_lt data
  have hsame : (toNat data).toUInt32.toInt32.toUInt32.toNat = toNat data := Nat.mod_eq_of_lt hlt
  unfold ofWord
  rw [hsame, ← h, ofNat_toNat]

end Bytes

namespace Fetch

/-- The code has the bytes of the words at the address. -/
def Holds (code : Array UInt8) (pc : Nat) (ws : List Int32) : Prop :=
  Bytes.ofWords ws <+: code.toList.drop pc

instance (code : Array UInt8) (pc : Nat) (ws : List Int32) : Decidable (Holds code pc ws) :=
  inferInstanceAs (Decidable (_ <+: _))

variable {code : Array UInt8} {pc : Nat} {w : Int32} {ws : List Int32}

theorem bind_fetched {α β : Type} {x : Fetch α} {g : α → Fetch β} {a : α} {next : Nat}
    (h : x code pc = .ok a next) : (x >>= g) code pc = g a code next := bind_of_ok h

theorem bind_unfetched {α β : Type} {x : Fetch α} {g : α → Fetch β} {e : Fault} {next : Nat}
    (h : x code pc = .error e next) : (x >>= g) code pc = .error e next := bind_of_error h

theorem bind_get {β : Type} {g : Nat → Fetch β} : (get >>= g) code pc = g pc code pc := rfl

theorem bind_read {β : Type} {g : Array UInt8 → Fetch β} :
    (read >>= g) code pc = g code code pc := rfl

/-- A word is read if there are four bytes for it. -/
theorem i4_eq (code : Array UInt8) (pc : Nat) : i4 code pc =
    if pc + 4 ≤ code.size then
      .ok (Bytes.toNat ((code.toList.drop pc).take 4)).toUInt32.toInt32 (pc + 4)
    else .error (.cutOperand pc) pc := by
  have hread : (code.extract pc (pc + 4)).toList = (code.toList.drop pc).take 4 := by
    rw [Array.toList_extract, List.extract_eq_take_drop, Nat.add_sub_cancel_left]
  rw [← hread]
  by_cases h : pc + 4 ≤ code.size
  · rw [if_pos h]
    exact bind_of_ok (if_pos h)
  · rw [if_neg h]
    exact bind_of_error (if_neg h)

theorem i4_cases (code : Array UInt8) (pc : Nat) :
    (pc + 4 ≤ code.size ∧ ∃ w, i4 code pc = .ok w (pc + 4)) ∨
    i4 code pc = .error (.cutOperand pc) pc := by
  rw [i4_eq]
  split
  · exact .inl ⟨‹_›, _, rfl⟩
  · exact .inr rfl

theorem i4_ok (h : i4 code pc = .ok w (pc + 4)) : pc + 4 ≤ code.size := by
  rcases i4_cases code pc with ⟨hroom, -⟩ | hcut
  · exact hroom
  · rw [hcut] at h
    cases h

def stop {α : Type} (x : Fetch α) (code : Array UInt8) (pc : Nat) : Nat :=
  match x code pc with
  | .ok _ next => next
  | .error _ next => next

/-- The reader stops within the code, and what it comes to depends on no byte from there on. -/
def Confined {α : Type} (x : Fetch α) : Prop :=
  ∀ (code : Array UInt8) pc, pc ≤ code.size → pc ≤ x.stop code pc ∧ x.stop code pc ≤ code.size ∧
    ∀ code₂ : Array UInt8, code₂.size = code.size → (∀ i < x.stop code pc, code₂[i]? = code[i]?) →
      x code₂ pc = x code pc

section Confined

variable {α β : Type}

theorem stop_of_ok {x : Fetch α} {a : α} {next : Nat} (h : x code pc = .ok a next) :
    x.stop code pc = next := by
  unfold stop
  rw [h]

theorem stop_of_error {x : Fetch α} {e : Fault} {next : Nat} (h : x code pc = .error e next) :
    x.stop code pc = next := by
  unfold stop
  rw [h]

theorem confined_pure (a : α) : Confined (pure a) :=
  fun _ pc hpc => ⟨Nat.le_refl pc, hpc, fun _ _ _ => rfl⟩

theorem confined_throw (e : Fault) : Confined (throw e : Fetch α) :=
  fun _ pc hpc => ⟨Nat.le_refl pc, hpc, fun _ _ _ => rfl⟩

theorem confined_get : Confined (get : Fetch Nat) :=
  fun _ pc hpc => ⟨Nat.le_refl pc, hpc, fun _ _ _ => rfl⟩

theorem confined_bind {x : Fetch α} {g : α → Fetch β} (hx : Confined x)
    (hg : ∀ a, Confined (g a)) :
    Confined (x >>= g) := by
  intro code pc hpc
  obtain ⟨hle, hsize, hsame⟩ := hx code pc hpc
  cases hfirst : x code pc with
  | error e next =>
    rw [stop_of_error hfirst] at hle hsize hsame
    rw [stop_of_error (bind_unfetched hfirst), bind_unfetched hfirst]
    refine ⟨hle, hsize, fun code₂ h₂ hagree => ?_⟩
    exact bind_unfetched ((hsame code₂ h₂ hagree).trans hfirst)
  | ok a next =>
    have hstop : (x >>= g).stop code pc = (g a).stop code next := by
      unfold stop
      rw [bind_fetched hfirst]
    rw [stop_of_ok hfirst] at hle hsize hsame
    obtain ⟨hle', hsize', hsame'⟩ := hg a code next hsize
    rw [hstop, bind_fetched hfirst]
    refine ⟨Nat.le_trans hle hle', hsize', fun code₂ h₂ hagree => ?_⟩
    have hfirst₂ := hsame code₂ h₂ fun i hi => hagree i (Nat.lt_of_lt_of_le hi hle')
    rw [bind_fetched (hfirst₂.trans hfirst)]
    exact hsame' code₂ h₂ hagree

/-- A reader that asks for the code, but for no more than its size. -/
theorem confined_read {g : Array UInt8 → Fetch α} (hg : ∀ code, Confined (g code))
    (hsizes : ∀ code code₂, code₂.size = code.size → g code₂ = g code) :
    Confined (read >>= g) := by
  intro code pc hpc
  obtain ⟨hle, hsize, hsame⟩ := hg code code pc hpc
  refine ⟨hle, hsize, fun code₂ h₂ hagree => ?_⟩
  rw [bind_read, bind_read, hsizes code code₂ h₂]
  exact hsame code₂ h₂ hagree

theorem confined_ite {c : Prop} [Decidable c] {x y : Fetch α} (hx : Confined x)
    (hy : Confined y) :
    Confined (if c then x else y) := by
  split
  · exact hx
  · exact hy

/-- A check before the rest is read. -/
theorem confined_unless {c : Prop} [Decidable c] {e : Fault} {g : Unit → Fetch β}
    (hg : Confined (g ())) :
    Confined (if c then throw e >>= g else g ()) :=
  confined_ite (confined_bind (confined_throw e) fun _ => hg) hg

theorem confined_i4 : Confined i4 := by
  intro code pc hpc
  by_cases hroom : pc + 4 ≤ code.size
  · have hread := (i4_eq code pc).trans (if_pos hroom)
    rw [stop_of_ok hread, hread]
    refine ⟨Nat.le_add_right .., hroom, fun code₂ h₂ hagree => ?_⟩
    have hbytes : (code₂.toList.drop pc).take 4 = (code.toList.drop pc).take 4 := by
      refine List.ext_getElem? fun i => ?_
      rw [List.getElem?_take, List.getElem?_take]
      split
      · rw [List.getElem?_drop, List.getElem?_drop, Array.getElem?_toList, Array.getElem?_toList]
        exact hagree (pc + i) (by omega)
      · rfl
    rw [i4_eq, if_pos (h₂ ▸ hroom), hbytes]
  · have hcut := (i4_eq code pc).trans (if_neg hroom)
    rw [stop_of_error hcut, hcut]
    refine ⟨Nat.le_refl pc, hpc, fun code₂ h₂ _ => ?_⟩
    rw [i4_eq, if_neg (h₂ ▸ hroom)]

theorem confined_padding : Confined padding := by
  intro code pc hpc
  unfold stop padding
  dsimp only
  by_cases hroom : (pc + 3) / 4 * 4 ≤ code.size
  · rw [if_pos hroom]
    refine ⟨?_, hroom, fun code₂ h₂ _ => ?_⟩
    · show pc ≤ (pc + 3) / 4 * 4
      omega
    · rw [h₂, if_pos hroom]
  · rw [if_neg hroom]
    refine ⟨hpc, Nat.le_refl _, fun code₂ h₂ _ => ?_⟩
    rw [h₂, if_neg hroom]

theorem confined_mapM (as : List α) : Confined (as.mapM fun _ => i4) := by
  induction as with
  | nil => exact confined_pure []
  | cons a as ih =>
    rw [List.mapM_cons]
    exact confined_bind confined_i4 fun w => confined_bind ih fun ws => confined_pure (w :: ws)

theorem confined_pairs (count : Nat) : Confined (pairs count) := by
  induction count with
  | zero => exact confined_pure ([], none)
  | succ count ih =>
    refine confined_bind confined_get fun pc =>
      confined_read (fun code => ?_) fun code code₂ h => ?_
    · refine confined_ite ?_ (confined_pure _)
      refine confined_bind confined_i4 fun key => confined_bind confined_i4 fun target => ?_
      exact confined_bind ih fun p => confined_pure ((key, target) :: p.1, p.2)
    · simp only [h]

end Confined

/-- The first of the words is the next one to be read. -/
theorem holds_cons_iff :
    Holds code pc (w :: ws) ↔ i4 code pc = .ok w (pc + 4) ∧ Holds code (pc + 4) ws := by
  unfold Holds
  rw [i4_eq, ← List.drop_drop]
  have hlength : (code.toList.drop pc).length = code.size - pc := List.length_drop
  generalize code.toList.drop pc = data at *
  constructor
  · rintro ⟨rest, rfl⟩
    have hword := Bytes.length_ofWord w
    rw [Bytes.ofWords, List.flatMap_cons, List.append_assoc] at hlength ⊢
    have hroom : pc + 4 ≤ code.size := by
      rw [List.length_append, hword] at hlength
      omega
    rw [if_pos hroom, List.take_left' hword, List.drop_left' hword, Bytes.toInt32_ofWord]
    exact ⟨rfl, List.prefix_append ..⟩
  · rintro ⟨hread, hrest⟩
    split at hread
    · cases hread
      rw [Bytes.ofWords, List.flatMap_cons,
        Bytes.ofWord_toInt32 (by rw [List.length_take]; omega)]
      have hwhole := (List.prefix_append_right_inj (data.take 4)).mpr hrest
      rwa [List.take_append_drop] at hwhole
    · cases hread

theorem holds_nil : Holds code pc [] := List.nil_prefix

/-- So many words as the code has room for can be read. -/
theorem exists_holds (n : Nat) (h : pc + 4 * n ≤ code.size) :
    ∃ ws, ws.length = n ∧ Holds code pc ws := by
  induction n generalizing pc with
  | zero => exact ⟨[], rfl, holds_nil⟩
  | succ n ih =>
    rcases i4_cases code pc with ⟨-, w, hw⟩ | hcut
    · have hroom : pc + 4 + 4 * n ≤ code.size := by omega
      obtain ⟨ws, rfl, hws⟩ := ih hroom
      exact ⟨w :: ws, rfl, holds_cons_iff.mpr ⟨hw, hws⟩⟩
    · rw [i4_eq, if_pos (by omega)] at hcut
      cases hcut

theorem Holds.room (h : Holds code pc ws) (hpc : pc ≤ code.size) :
    pc + 4 * ws.length ≤ code.size := by
  induction ws generalizing pc with
  | nil => exact hpc
  | cons w ws ih =>
    obtain ⟨hw, hws⟩ := holds_cons_iff.mp h
    rcases i4_cases code pc with ⟨hroom, -⟩ | hcut
    · have hrest := ih hws hroom
      rw [List.length_cons]
      omega
    · rw [hcut] at hw
      cases hw

/-- Words that stand in the code are read. -/
theorem Holds.mapM_i4 {α : Type} {as : List α} (h : Holds code pc ws)
    (hlength : as.length = ws.length) :
    as.mapM (fun _ => i4) code pc = .ok ws (pc + 4 * ws.length) := by
  induction as generalizing pc ws with
  | nil =>
    cases ws with
    | nil => rfl
    | cons w ws => cases hlength
  | cons a as ih =>
    cases ws with
    | nil => cases hlength
    | cons w ws =>
      obtain ⟨hw, hws⟩ := holds_cons_iff.mp h
      rw [List.mapM_cons, List.length_cons]
      refine (bind_of_ok hw).trans ((bind_of_ok (ih hws (Nat.succ.inj hlength))).trans ?_)
      rw [show pc + 4 + 4 * ws.length = pc + 4 * (ws.length + 1) by omega]
      rfl

/-- The padding ends at the first multiple of four after the opcode. -/
theorem padding_eq (code : Array UInt8) {start : Nat} (hlow : pc < start) (hhigh : start ≤ pc + 4)
    (hdvd : 4 ∣ start) : padding code (pc + 1) =
      if start ≤ code.size then .ok () start else .error (.cutOperand code.size) code.size := by
  have hstart : (pc + 1 + 3) / 4 * 4 = start := by omega
  unfold padding
  rw [hstart]

def pairWords (ps : List (Int32 × Int32)) : List Int32 := ps.flatMap fun p => [p.1, p.2]

/-- Pairs are read until the code ends, and what is missing is noted. -/
theorem pairs_eq (count : Nat) : pairs (count + 1) code pc =
    if pc + 8 ≤ code.size then
      (do
        let key ← i4
        let target ← i4
        let (rest, cut) ← pairs count
        return ((key, target) :: rest, cut) : Fetch _) code pc
    else .ok ([], some (if pc + 4 ≤ code.size then pc + 4 else pc)) pc := by
  by_cases hroom : pc + 8 ≤ code.size
  · rw [if_pos hroom, pairs, bind_get, bind_read, if_pos hroom]
  · rw [if_neg hroom, pairs, bind_get, bind_read, if_neg hroom]
    rfl

/-- A pair and what follows it. -/
theorem pairs_cons {count next : Nat} {key target : Int32} {ps : List (Int32 × Int32)}
    {cut : Option Nat} (hkey : i4 code pc = .ok key (pc + 4))
    (htarget : i4 code (pc + 4) = .ok target (pc + 4 + 4))
    (hrest : pairs count code (pc + 4 + 4) = .ok (ps, cut) next) :
    pairs (count + 1) code pc = .ok ((key, target) :: ps, cut) next := by
  have hroom : pc + 8 ≤ code.size := by
    rcases i4_cases code (pc + 4) with ⟨hroom, -⟩ | hcut
    · exact hroom
    · rw [hcut] at htarget
      cases htarget
  rw [pairs_eq, if_pos hroom, bind_fetched hkey, bind_fetched htarget, bind_fetched hrest]
  rfl

/-- Pairs that stand in the code are read, and none is missing. -/
theorem Holds.pairs_eq {ps : List (Int32 × Int32)} (h : Holds code pc (pairWords ps)) :
    ∃ next, pairs ps.length code pc = .ok (ps, none) next := by
  induction ps generalizing pc with
  | nil => exact ⟨pc, rfl⟩
  | cons p ps ih =>
    obtain ⟨hkey, htail⟩ := holds_cons_iff.mp h
    obtain ⟨htarget, hrest⟩ := holds_cons_iff.mp htail
    obtain ⟨next, hps⟩ := ih hrest
    exact ⟨next, pairs_cons hkey htarget hps⟩

/-- Pairs that the code does not hold break off. -/
theorem pairs_cut {count : Nat} (h : ∀ ps, ps.length = count → ¬ Holds code pc (pairWords ps)) :
    ∃ ps cut next, pairs count code pc = .ok (ps, some cut) next := by
  induction count generalizing pc with
  | zero => exact absurd holds_nil (h [] rfl)
  | succ count ih =>
    by_cases hroom : pc + 8 ≤ code.size
    · obtain ⟨ws, hlength, hws⟩ := exists_holds 2 hroom
      obtain ⟨key, target, rfl⟩ : ∃ key target, ws = [key, target] := by
        rcases ws with _ | ⟨key, _ | ⟨target, _ | ⟨w, ws⟩⟩⟩ <;> cases hlength
        exact ⟨key, target, rfl⟩
      obtain ⟨hkey, htail⟩ := holds_cons_iff.mp hws
      obtain ⟨htarget, -⟩ := holds_cons_iff.mp htail
      obtain ⟨ps, cut, next, hps⟩ :=
        ih fun ps hps hrest => h ((key, target) :: ps) (congrArg Nat.succ hps)
        (holds_cons_iff.mpr ⟨hkey, holds_cons_iff.mpr ⟨htarget, hrest⟩⟩)
      exact ⟨_, cut, next, pairs_cons hkey htarget hps⟩
    · rw [Fetch.pairs_eq, if_neg hroom]
      exact ⟨_, _, _, rfl⟩

end Fetch

end ClassTrace
