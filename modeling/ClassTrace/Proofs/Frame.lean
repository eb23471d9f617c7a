import ClassTrace.Proofs.Action

/-!
What the operations do to their frame. They stay in the activation: method, locals and return
address are kept, a stack within its declared size stays within it, since a push beyond is a
fault, and addresses within the code stay within it, since a jump beyond is one too. They make no
references up: each one they leave on the stack was in the frame before.
-/
namespace ClassTrace

/-- The id of the value, if it is a heap reference, satisfies `K`. -/
def Value.Within (K : Int → Prop) (v : Value) : Prop := ∀ id, v = .ref id → K id

namespace Value

variable {K L : Int → Prop}

theorem Within.mono {v : Value} (h : v.Within K) (hKL : ∀ id, K id → L id) : v.Within L :=
  fun id hid => hKL id (h id hid)

theorem within_zero (t : FieldType) : t.zero.Within K := by
  cases t with
  | primitive p => cases p <;> exact nofun
  | object name => exact nofun
  | array element => exact nofun

theorem within_resultZero (t : ResultType) : t.zero.Within K := by
  cases t with
  | void => exact nofun
  | value t => exact within_zero t

end Value

namespace Frame

def Mentions (f : Frame) (id : Int) : Prop := .ref id ∈ f.stack ∨ .ref id ∈ f.locals

def Fits (f : Frame) : Prop := f.stack.length ≤ f.method.maxStack

instance (f : Frame) : Decidable f.Fits := inferInstanceAs (Decidable (_ ≤ _))

/-- The instruction being run is in the code of the method, and the next one is at most at its
end. -/
def Inside (f : Frame) : Prop := f.opPc < f.method.code.size ∧ f.pc ≤ f.method.code.size

structure Continues (f f' : Frame) : Prop where
  method : f'.method = f.method
  locals : f'.locals = f.locals
  returnPc : f'.returnPc = f.returnPc
  fits : f.Fits → f'.Fits
  inside : f.Inside → f'.Inside

theorem Continues.refl (f : Frame) : f.Continues f := ⟨rfl, rfl, rfl, id, id⟩

theorem Continues.trans {f g h : Frame} (hfg : f.Continues g) (hgh : g.Continues h) :
    f.Continues h :=
  ⟨hgh.method.trans hfg.method, hgh.locals.trans hfg.locals,
    hgh.returnPc.trans hfg.returnPc,
    fun hf => hgh.fits (hfg.fits hf), fun hf => hgh.inside (hfg.inside hf)⟩

/-- The frame goes on, and what it holds was in it before. -/
structure Rearranges (f f' : Frame) : Prop extends f.Continues f' where
  mentions : ∀ id, f'.Mentions id → f.Mentions id

theorem Rearranges.refl (f : Frame) : f.Rearranges f := ⟨.refl f, fun _ h => h⟩

theorem Rearranges.trans {f g h : Frame} (hfg : f.Rearranges g) (hgh : g.Rearranges h) :
    f.Rearranges h :=
  ⟨hfg.toContinues.trans hgh.toContinues, fun id hid => hfg.mentions id (hgh.mentions id hid)⟩

theorem rearranges_pc {f : Frame} {pc opPc : Nat} (h : f.Inside → { f with pc, opPc }.Inside) :
    f.Rearranges { f with pc, opPc } := ⟨⟨rfl, rfl, rfl, id, h⟩, fun _ h => h⟩

theorem rearranges_suffix {f : Frame} {stack : Stack} (h : stack <:+ f.stack) :
    f.Rearranges { f with stack } := by
  refine ⟨⟨rfl, rfl, rfl, fun hf => Nat.le_trans h.length_le hf, fun hf => hf⟩, fun id hid => ?_⟩
  rcases hid with hstack | hlocals
  · exact Or.inl (h.subset hstack)
  · exact Or.inr hlocals

section

variable {f₀ f : Frame}

theorem ends_onStack {α : Type} {values : α → Stack} {x : StackM α} (hx : Stack.Pops values x)
    (h : f₀.Rearranges f) :
    Ends f₀.Rearranges (onStack x) f fun a f' =>
      f₀.Rearranges f' ∧ ∀ v ∈ values a, v.Within f₀.Mentions := by
  have hs := hx f.stack
  unfold Ends onStack at *
  cases hxs : x f.stack with
  | ok a stack =>
    rw [hxs] at hs
    refine ⟨h.trans (rearranges_suffix ⟨values a, hs.symm⟩), fun v hv id hid => ?_⟩
    subst hid
    exact h.mentions id (Or.inl (hs ▸ List.mem_append_left stack hv))
  | error e stack =>
    rw [hxs] at hs
    exact h.trans (rearranges_suffix hs)

/-- A value popped as it is was in the frame. -/
theorem ends_pop {x : StackM Value} (hx : Stack.Pops (fun v => [v]) x) (h : f₀.Rearranges f) :
    Ends f₀.Rearranges (onStack x) f fun v f' => f₀.Rearranges f' ∧ v.Within f₀.Mentions :=
  (ends_onStack hx h).mono (fun _ h => h) fun v _ hv =>
    ⟨hv.1, hv.2 v (List.mem_singleton_self v)⟩

theorem ends_push {v : Value} (h : f₀.Rearranges f) (hv : v.Within f₀.Mentions) :
    Ends f₀.Rearranges (push v) f fun _ f' => f₀.Rearranges f' := by
  unfold Ends push
  by_cases hroom : f.stack.length < f.method.maxStack
  · rw [if_pos hroom]
    refine ⟨⟨h.method, h.locals, h.returnPc, fun _ => hroom, h.inside⟩, fun id hid => ?_⟩
    rcases hid with hstack | hlocals
    · rcases List.mem_cons.mp hstack with rfl | hold
      · exact hv id rfl
      · exact h.mentions id (Or.inl hold)
    · exact h.mentions id (Or.inr hlocals)
  · rw [if_neg hroom]
    exact h

theorem ends_pushAll {vs : List Value} (h : f₀.Rearranges f)
    (hvs : ∀ v ∈ vs, v.Within f₀.Mentions) :
    Ends f₀.Rearranges (pushAll vs) f fun _ f' => f₀.Rearranges f' := by
  induction vs generalizing f with
  | nil => exact h
  | cons v rest ih =>
    refine (ends_push h (hvs v (List.mem_cons_self ..))).bind fun _ _ h' => ih h' ?_
    exact fun w hw => hvs w (List.mem_cons_of_mem v hw)

theorem ends_getLocal {i : Int} (h : f₀.Rearranges f) :
    Ends f₀.Rearranges (getLocal i) f fun v f' =>
      f' = f ∧ 0 ≤ i ∧ f.locals[i.toNat]? = some v ∧ v.Within f₀.Mentions := by
  unfold Ends getLocal
  by_cases hi : 0 ≤ i
  · rw [if_pos hi]
    cases hv : f.locals[i.toNat]? with
    | none => exact h
    | some v =>
      refine ⟨rfl, hi, rfl, fun id hid => h.mentions id (Or.inr ?_)⟩
      exact hid ▸ Array.mem_of_getElem? hv
  · rw [if_neg hi]
    exact h

theorem ends_peek {depth : Nat} (h : f₀.Rearranges f) :
    Ends f₀.Rearranges (peek depth) f fun v f' => f₀.Rearranges f' ∧ v.Within f₀.Mentions := by
  unfold Ends peek
  cases hv : f.stack[depth]? with
  | none => exact h
  | some v => exact ⟨h, fun id hid => h.mentions id (Or.inl (hid ▸ List.mem_of_getElem? hv))⟩

/-- A jump stays inside of the code. -/
theorem ends_jump {offset : Int} (h : f₀.Rearranges f) :
    Ends f₀.Rearranges (jump offset) f fun _ f' => f₀.Rearranges f' := by
  unfold Ends jump
  by_cases ht : 0 ≤ f.opPc + offset ∧ f.opPc + offset < f.method.code.size
  · simp only [if_pos ht]
    refine h.trans (rearranges_pc fun hf => ⟨hf.1, ?_⟩)
    change (f.opPc + offset).toNat ≤ f.method.code.size
    omega
  · simp only [if_neg ht]
    exact h

theorem ends_jumpIf {condition : Bool} {offset : Int} (h : f₀.Rearranges f) :
    Ends f₀.Rearranges (jumpIf condition offset) f fun _ f' => f₀.Rearranges f' := by
  unfold jumpIf
  split
  · exact ends_jump h
  · exact h

/-- An action that pops a number and goes on with it. -/
theorem ends_number {α : Type} {values : α → Stack} {x : StackM α} {g : α → FrameM Unit}
    (hx : Stack.Pops values x) (h : f₀.Rearranges f)
    (hg : ∀ a f', f₀.Rearranges f' → Ends f₀.Rearranges (g a) f' fun _ f' => f₀.Rearranges f') :
    Ends f₀.Rearranges (onStack x >>= g) f fun _ f' => f₀.Rearranges f' :=
  (ends_onStack hx h).bind fun a f' ha => hg a f' ha.1

theorem ends_load {family : Family} {slot : Nat} (h : f₀.Rearranges f) :
    Ends f₀.Rearranges (load family slot) f fun _ f' => f₀.Rearranges f' := by
  refine (ends_getLocal h).bind fun v f' hv => ?_
  obtain ⟨rfl, -, -, hv⟩ := hv
  dsimp only
  split
  · split
    · exact .of_throw_bind h
    · exact ends_push h hv
  · split
    · exact .of_throw_bind h
    · exact ends_push h hv

theorem ends_convert {c : Conversion} (h : f₀.Rearranges f) :
    Ends f₀.Rearranges (convert c) f fun _ f' => f₀.Rearranges f' := by
  cases c with
  | intToLong | intToFloat | intToDouble | intToByte | intToChar | intToShort =>
    exact ends_number Stack.popInt_pops h fun _ _ h => ends_push h nofun
  | longToInt | longToFloat | longToDouble =>
    exact ends_number Stack.popLong_pops h fun _ _ h => ends_push h nofun
  | floatToInt | floatToLong | floatToDouble =>
    exact ends_number Stack.popFloat_pops h fun _ _ h => ends_push h nofun
  | doubleToInt | doubleToLong | doubleToFloat =>
    exact ends_number Stack.popDouble_pops h fun _ _ h => ends_push h nofun

/-- Each form of shuffle pops some values and pushes only these. -/
theorem ends_shuffle {s : Shuffle} (h : f₀.Rearranges f) :
    Ends f₀.Rearranges s.run f fun _ f' => f₀.Rearranges f' := by
  have pop {f : Frame} (h : f₀.Rearranges f) := ends_pop Stack.pop_pops h
  cases s with
  | pop =>
    refine (pop h).bind fun v f₁ h₁ => ?_
    split
    · exact h₁.1
    · exact h₁.1
  | pop2 =>
    refine (pop h).bind fun v₁ f₁ h₁ => ?_
    split
    · refine (pop h₁.1).bind fun v₂ f₂ h₂ => ?_
      split
      · exact h₂.1
      · exact h₂.1
    · exact h₁.1
  | dup =>
    refine (ends_peek h).bind fun v f₁ h₁ => ?_
    dsimp only
    split
    · exact .of_throw_bind h₁.1
    · exact ends_push h₁.1 h₁.2
  | dupX1 =>
    refine (pop h).bind fun v₁ f₁ h₁ => (pop h₁.1).bind fun v₂ f₂ h₂ => ?_
    dsimp only
    split
    · exact .of_throw_bind h₂.1
    · exact ends_pushAll h₂.1 (by simp [h₁.2, h₂.2])
  | dupX2 =>
    refine (pop h).bind fun v₁ f₁ h₁ => (pop h₁.1).bind fun v₂ f₂ h₂ => ?_
    split
    · exact ends_pushAll h₂.1 (by simp [h₁.2, h₂.2])
    · refine (pop h₂.1).bind fun v₃ f₃ h₃ => ends_pushAll h₃.1 ?_
      simp [h₁.2, h₂.2, h₃.2]
  | dup2 =>
    refine (pop h).bind fun v₁ f₁ h₁ => ?_
    split
    · exact ends_pushAll h₁.1 (by simp [h₁.2])
    · refine (pop h₁.1).bind fun v₂ f₂ h₂ => ends_pushAll h₂.1 ?_
      simp [h₁.2, h₂.2]
  | dup2X1 =>
    refine (pop h).bind fun v₁ f₁ h₁ => (pop h₁.1).bind fun v₂ f₂ h₂ => ?_
    split
    · exact ends_pushAll h₂.1 (by simp [h₁.2, h₂.2])
    · refine (pop h₂.1).bind fun v₃ f₃ h₃ => ends_pushAll h₃.1 ?_
      simp [h₁.2, h₂.2, h₃.2]
  | dup2X2 =>
    refine (pop h).bind fun v₁ f₁ h₁ => (pop h₁.1).bind fun v₂ f₂ h₂ => ?_
    split
    · exact ends_pushAll h₂.1 (by simp [h₁.2, h₂.2])
    · refine (pop h₂.1).bind fun v₃ f₃ h₃ => ?_
      split
      · exact ends_pushAll h₃.1 (by simp [h₁.2, h₂.2, h₃.2])
      · split
        · exact ends_pushAll h₃.1 (by simp [h₁.2, h₂.2, h₃.2])
        · refine (pop h₃.1).bind fun v₄ f₄ h₄ => ends_pushAll h₄.1 ?_
          simp [h₁.2, h₂.2, h₃.2, h₄.2]
  | swap =>
    refine (pop h).bind fun v₁ f₁ h₁ => (pop h₁.1).bind fun v₂ f₂ h₂ => ?_
    dsimp only
    split
    · exact .of_throw_bind h₂.1
    · exact ends_pushAll h₂.1 (by simp [h₁.2, h₂.2])

theorem ends_intBinary {op : IntOp} (h : f₀.Rearranges f) :
    Ends f₀.Rearranges (intBinary op) f fun _ f' => f₀.Rearranges f' := by
  refine ends_number Stack.popInt_pops h fun b _ h => ?_
  refine ends_number Stack.popInt_pops h fun a _ h => ?_
  split
  · exact ends_push h nofun
  · exact h

theorem ends_longBinary {op : IntOp} (h : f₀.Rearranges f) :
    Ends f₀.Rearranges (longBinary op) f fun _ f' => f₀.Rearranges f' := by
  -- the count of a shift is popped as an int, the operand of anything else as a long
  unfold longBinary
  dsimp only
  split
  · rw [map_eq_pure_bind, bind_assoc]
    refine ends_number Stack.popInt_pops h fun b _ h => ?_
    rw [pure_bind]
    refine ends_number Stack.popLong_pops h fun a _ h => ?_
    split
    · exact ends_push h nofun
    · exact h
  · refine ends_number Stack.popLong_pops h fun b _ h => ?_
    refine ends_number Stack.popLong_pops h fun a _ h => ?_
    split
    · exact ends_push h nofun
    · exact h

theorem ends_tableSwitch {fallback low high : Int32} {offsets : Array Int32}
    (h : f₀.Rearranges f) :
    Ends f₀.Rearranges (tableSwitch fallback low high offsets) f fun _ f' =>
      f₀.Rearranges f' := by
  refine ends_number Stack.popInt_pops h fun key _ h => ?_
  split
  · exact ends_jump h
  · exact ends_jump h

theorem ends_lookupSwitch {fallback : Int32} {pairs : List (Int32 × Int32)} {cut : Option Nat}
    (h : f₀.Rearranges f) :
    Ends f₀.Rearranges (lookupSwitch fallback pairs cut) f fun _ f' => f₀.Rearranges f' := by
  refine ends_number Stack.popInt_pops h fun key _ h => ?_
  split
  · exact h
  · split
    · exact ends_jump h
    · exact ends_jump h

end

end Frame

namespace Operation

/-- The operation can have been decoded: it pushes no reference of its own making, and its table
has an offset for each key in its range. -/
def Literal : Operation → Prop
  | .push v => v.Within fun _ => False
  | .tableSwitch _ low high offsets =>
    ∀ key, low ≤ key → key ≤ high → (key.toInt - low.toInt).toNat < offsets.size
  | _ => True

/-- An operation on the current frame rearranges it, whether it succeeds or fails. -/
theorem ends_run {f₀ f : Frame} {legacy : Bool} {op : Operation} (hop : op.Literal)
    (h : f₀.Rearranges f) :
    Ends f₀.Rearranges (op.run legacy) f fun _ f' => f₀.Rearranges f' := by
  open ClassTrace.Frame ClassTrace.Stack in
  cases op with
  | nop => exact h
  | push v => exact ends_push h (hop.mono fun _ => False.elim)
  | load family slot => exact ends_load h
  | shuffle s => exact ends_shuffle h
  | intBinary op => exact ends_intBinary h
  | longBinary op => exact ends_longBinary h
  | floatBinary op =>
    exact ends_number popFloat_pops h fun _ _ h =>
      ends_number popFloat_pops h fun _ _ h => ends_push h nofun
  | doubleBinary op =>
    exact ends_number popDouble_pops h fun _ _ h =>
      ends_number popDouble_pops h fun _ _ h => ends_push h nofun
  | negInt => exact ends_number popInt_pops h fun _ _ h => ends_push h nofun
  | negLong => exact ends_number popLong_pops h fun _ _ h => ends_push h nofun
  | negFloat => exact ends_number popFloat_pops h fun _ _ h => ends_push h nofun
  | negDouble => exact ends_number popDouble_pops h fun _ _ h => ends_push h nofun
  | convert c => exact ends_convert h
  | compareLong =>
    exact ends_number popLong_pops h fun _ _ h =>
      ends_number popLong_pops h fun _ _ h => ends_push h nofun
  | compareFloat nanIsGreater =>
    exact ends_number popFloat_pops h fun _ _ h =>
      ends_number popFloat_pops h fun _ _ h => ends_push h nofun
  | compareDouble nanIsGreater =>
    exact ends_number popDouble_pops h fun _ _ h =>
      ends_number popDouble_pops h fun _ _ h => ends_push h nofun
  | ifZero condition offset =>
    exact ends_number popInt_pops h fun _ _ h => ends_jumpIf h
  | ifInts condition offset =>
    exact ends_number popInt_pops h fun _ _ h =>
      ends_number popInt_pops h fun _ _ h => ends_jumpIf h
  | ifSame same offset =>
    exact ends_number popReference_pops h fun _ _ h =>
      ends_number popReference_pops h fun _ _ h => ends_jumpIf h
  | ifNull null offset =>
    exact ends_number popReference_pops h fun _ _ h => ends_jumpIf h
  | goto offset => exact ends_jump h
  | tableSwitch fallback low high offsets => exact ends_tableSwitch h
  | lookupSwitch fallback pairs cut => exact ends_lookupSwitch h

end Operation

end ClassTrace
