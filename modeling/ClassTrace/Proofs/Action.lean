import ClassTrace.Frame.Operation

/-!
How actions end. An action that fails keeps the changes made before it failed, so a judgement
about it speaks of both endings: one condition for results, and one for the states that an error
leaves. Pops are described once here: a successful one takes exactly what it returns off the
stack, and a failing one leaves an end piece of it.
-/
namespace ClassTrace

/-- From the state the action succeeds with `Q`, or fails in a state with `I`. -/
def Ends {ε σ α : Type} (I : σ → Prop) (x : EStateM ε σ α) (s : σ) (Q : α → σ → Prop) : Prop :=
  match x s with
  | .ok a s' => Q a s'
  | .error _ s' => I s'

namespace Ends

variable {ε σ α β : Type} {I : σ → Prop} {s : σ}

theorem of_pure {a : α} {Q : α → σ → Prop} (h : Q a s) :
    Ends I (pure a : EStateM ε σ α) s Q := h

theorem of_throw {e : ε} {Q : α → σ → Prop} (h : I s) :
    Ends I (throw e : EStateM ε σ α) s Q := h

/-- An action after another ends as it does from where the first one has ended. -/
theorem bind {x : EStateM ε σ α} {g : α → EStateM ε σ β} {Q : α → σ → Prop} {P : β → σ → Prop}
    (hx : Ends I x s Q) (hg : ∀ a s', Q a s' → Ends I (g a) s' P) : Ends I (x >>= g) s P := by
  unfold Ends at hx
  change match EStateM.bind x g s with
    | .ok b s' => P b s'
    | .error _ s' => I s'
  cases h : x s with
  | ok a s' =>
    rw [h] at hx
    simp only [EStateM.bind, h]
    exact hg a s' hx
  | error e s' =>
    rw [h] at hx
    simp only [EStateM.bind, h]
    exact hx

/-- Nothing that follows a thrown error is run. -/
theorem of_throw_bind {e : ε} {g : α → EStateM ε σ β} {P : β → σ → Prop} (h : I s) :
    Ends I ((throw e : EStateM ε σ α) >>= g) s P :=
  bind (Q := fun _ _ => False) (of_throw h) fun _ _ hf => hf.elim

theorem mono {x : EStateM ε σ α} {J : σ → Prop} {Q P : α → σ → Prop} (h : Ends I x s Q)
    (hI : ∀ s', I s' → J s') (hQ : ∀ a s', Q a s' → P a s') : Ends J x s P := by
  unfold Ends at h ⊢
  cases hx : x s with
  | ok a s' =>
    rw [hx] at h
    exact hQ a s' h
  | error e s' =>
    rw [hx] at h
    exact hI s' h

theorem of_ok {x : EStateM ε σ α} {Q : α → σ → Prop} {a : α} {s' : σ} (h : Ends I x s Q)
    (hx : x s = .ok a s') : Q a s' := by
  unfold Ends at h
  rwa [hx] at h

theorem of_error {x : EStateM ε σ α} {Q : α → σ → Prop} {e : ε} {s' : σ} (h : Ends I x s Q)
    (hx : x s = .error e s') : I s' := by
  unfold Ends at h
  rwa [hx] at h

end Ends

theorem bind_of_ok {ε σ α β : Type} {x : EStateM ε σ α} {g : α → EStateM ε σ β} {s s' : σ} {a : α}
    (h : x s = .ok a s') : (x >>= g) s = g a s' := by
  change EStateM.bind x g s = _
  simp only [EStateM.bind, h]

theorem bind_of_error {ε σ α β : Type} {x : EStateM ε σ α} {g : α → EStateM ε σ β}
    {s s' : σ} {e : ε} (h : x s = .error e s') : (x >>= g) s = .error e s' := by
  change EStateM.bind x g s = _
  simp only [EStateM.bind, h]

namespace Stack

/-- The action takes `values a` off the stack to return `a`; if it fails, it leaves an end
piece. -/
def Pops {α : Type} (values : α → Stack) (x : StackM α) : Prop :=
  ∀ s, Ends (· <:+ s) x s fun a s' => s = values a ++ s'

theorem pop_pops : Pops (fun v => [v]) pop := by
  intro s
  cases s with
  | nil => exact List.suffix_refl []
  | cons v rest => exact rfl

/-- A pop followed by a test of the value keeps the shape of a pop. -/
theorem pop_then {α : Type} {values : α → Stack} {g : Value → StackM α}
    (hg : ∀ v s, Ends (· <:+ v :: s) (g v) s fun a s' => v :: s = values a ++ s') :
    Pops values (pop >>= g) := by
  intro s
  refine (pop_pops s).bind fun v s' hs => ?_
  subst hs
  exact hg v s'

private theorem refuse {α : Type} {values : α → Stack} {e : Fault} (v : Value) (s : Stack) :
    Ends (· <:+ v :: s) (throw e : StackM α) s fun a s' => v :: s = values a ++ s' :=
  Ends.of_throw (List.suffix_cons v s)

theorem popInt_pops : Pops (fun v => [.int v]) popInt := by
  refine pop_then fun v s => ?_
  cases v with
  | int n => exact Ends.of_pure rfl
  | _ => exact refuse _ s

theorem popLong_pops : Pops (fun v => [.long v]) popLong := by
  refine pop_then fun v s => ?_
  cases v with
  | long n => exact Ends.of_pure rfl
  | _ => exact refuse _ s

theorem popFloat_pops : Pops (fun v => [.float v]) popFloat := by
  refine pop_then fun v s => ?_
  cases v with
  | float x => exact Ends.of_pure rfl
  | _ => exact refuse _ s

theorem popDouble_pops : Pops (fun v => [.double v]) popDouble := by
  refine pop_then fun v s => ?_
  cases v with
  | double x => exact Ends.of_pure rfl
  | _ => exact refuse _ s

theorem popReference_pops : Pops (fun v => [v]) popReference := by
  refine pop_then fun v s => ?_
  split
  · exact Ends.of_pure rfl
  · exact refuse v s

/-- Tagging a popped number gives back the value that was on the stack. -/
theorem Pops.tag {α : Type} {x : StackM α} {make : α → Value} (h : Pops (fun a => [make a]) x) :
    Pops (fun v => [v]) (do return make (← x)) :=
  fun s => (h s).bind fun _ _ hs => Ends.of_pure hs

theorem popTyped_pops (t : FieldType) : Pops (fun v => [v]) (popTyped t) := by
  cases t with
  | primitive p =>
    cases p with
    | long => exact popLong_pops.tag
    | float => exact popFloat_pops.tag
    | double => exact popDouble_pops.tag
    | byte | char | int | short | boolean => exact popInt_pops.tag
  | object name => exact popReference_pops
  | array element => exact popReference_pops

theorem popResult_pops (t : ResultType) : Pops (fun v => [v]) (popResult t) := by
  cases t with
  | void => exact popInt_pops.tag
  | value t => exact popTyped_pops t

theorem mapM_popTyped_pops (types : List FieldType) :
    Pops id (types.mapM popTyped) := by
  induction types with
  | nil => exact fun s => Ends.of_pure rfl
  | cons t rest ih =>
    intro s
    rw [List.mapM_cons]
    refine Ends.bind (Q := fun v s' => s = v :: s') (popTyped_pops t s) fun v s₁ h₁ => ?_
    subst h₁
    have hrest := (ih s₁).mono (fun s' h => h.trans (List.suffix_cons v s₁)) fun _ _ h => h
    refine hrest.bind fun vs s₂ h₂ => Ends.of_pure ?_
    simpa using h₂

/-- Arguments come off the stack with the last one first. -/
theorem popArgs_pops (params : List FieldType) : Pops List.reverse (popArgs params) := by
  intro s
  refine (mapM_popTyped_pops params.reverse s).bind fun vs s' hs => Ends.of_pure ?_
  simpa using hs

end Stack

theorem Family.pop_pops (family : Family) : Stack.Pops (fun v => [v]) family.pop := by
  cases family with
  | int => exact Stack.popInt_pops.tag
  | long => exact Stack.popLong_pops.tag
  | float => exact Stack.popFloat_pops.tag
  | double => exact Stack.popDouble_pops.tag
  | reference => exact Stack.popReference_pops

end ClassTrace
