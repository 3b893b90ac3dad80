/-
# MiniLisp.Proofs.Computation — running what may fail and has a state.

The actions of evaluation and the steps of a session are both computations with a state that
survives a failure.  This is how two of them run in sequence, and what it is for the results of two
of them to agree.
-/

namespace MiniLisp

/-! ## Results that agree -/

/-- Two results of one sort: values that `V` relates, or errors that `E` relates. -/
inductive Agree {α β ε φ : Type} (V : α → β → Prop) (E : ε → φ → Prop) :
    Except ε α → Except φ β → Prop
  | ok {a : α} {b : β} (h : V a b) : Agree V E (.ok a) (.ok b)
  | error {e : ε} {f : φ} (h : E e f) : Agree V E (.error e) (.error f)

theorem Agree.refl {α ε : Type} {V : α → α → Prop} {E : ε → ε → Prop} (hV : ∀ a, V a a)
    (hE : ∀ e, E e e) (x : Except ε α) : Agree V E x x := by
  cases x with
  | ok a => exact .ok (hV a)
  | error e => exact .error (hE e)

/-! ## Sequences -/

variable {ε σ α β : Type}

/-- The second part runs where the first one succeeds, from the state that it leaves. -/
theorem bind_apply (x : ExceptT ε (StateM σ) α) (f : α → ExceptT ε (StateM σ) β) (s : σ) :
    (x >>= f) s = match x s with
      | (.ok a, s) => f a s
      | (.error e, s) => (.error e, s) := by
  have h : (x >>= f) s = ExceptT.bindCont f (x s).1 (x s).2 := rfl
  rw [h]
  rcases x s with ⟨_ | _, _⟩ <;> rfl

/-- Where the first part only may fail, the second one runs from the same state. -/
theorem lift_bind_apply (x : Except ε α) (f : α → ExceptT ε (StateM σ) β) (s : σ) :
    (liftM x >>= f) s = match x with
      | .ok a => f a s
      | .error e => (.error e, s) := by
  cases x <;> rfl

end MiniLisp
