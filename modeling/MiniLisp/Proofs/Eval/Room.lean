/-
# MiniLisp.Proofs.Eval.Room — evaluations that need different room.

Two expressions may mean the same and still need room for different numbers of evaluations at once.
So they are not compared run by run.  A `Budgeted` computation is an action for every amount of
room, and two of them go `Alongside` each other if whatever one does in some room is what the other
does in some more of it.  Such computations can be put in a row, and one may waste a little room.
-/
import MiniLisp.Proofs.Eval.Coincidence
import MiniLisp.Proofs.Session.Depth

namespace MiniLisp

/-! ## Errors -/

namespace EvalError.SameReport

variable {e f : EvalError}

theorem symm (h : e.SameReport f) : f.SameReport e := ⟨h.1.symm, h.2.symm⟩

/-- No other error is of the kind of this one. -/
theorem eq_tooDeep (h : e.SameReport .tooDeep) : e = .tooDeep := by
  obtain ⟨hkind, -⟩ := h
  cases e <;> first | rfl | cases hkind

end EvalError.SameReport

/-! ## Actions that go on alike -/

namespace Action

variable {α β γ δ : Type} {V : α → β → Prop} {W : γ → δ → Prop}

/-- Actions that agree do so in the other order too. -/
theorem Agree.flip {x : Action α} {y : Action β} (h : Action.Agree V EvalError.SameReport x y) :
    Action.Agree (flip V) EvalError.SameReport y x := by
  intro c
  obtain ⟨hsame, hresult⟩ := h c
  refine ⟨hsame.symm, ?_⟩
  generalize (x c).1 = r, (y c).1 = r' at hresult
  cases hresult with
  | ok hab => exact .ok hab
  | error he => exact .error he.symm

/-- To every console `y` does the same as `x` and has a result that agrees, or it goes on where `x`
gives out. -/
def GoesOnAlike (V : α → β → Prop) (x : Action α) (y : Action β) : Prop :=
  ∀ c, ((x c).2 = (y c).2 ∧ MiniLisp.Agree V EvalError.SameReport (x c).1 (y c).1) ∨
    ((x c).1 = .error .tooDeep ∧ (x c).2.Before (y c).2)

namespace GoesOnAlike

theorem throw {y : Action β} (hy : y.Local) :
    GoesOnAlike V (throw EvalError.tooDeep : Action α) y :=
  fun c => .inr ⟨rfl, hy.before c⟩

/-- What agrees can be given more room. -/
theorem of_agree {x : Action α} {y z : Action β} (h : Action.Agree V EvalError.SameReport x y)
    (hgoes : GoesOn Console.Before .tooDeep y z) : GoesOnAlike V x z := by
  intro c
  obtain ⟨hsame, hresult⟩ := h c
  obtain ⟨-, heq | ⟨hgone, hbefore⟩⟩ := hgoes c
  · rw [← heq]
    exact .inl ⟨hsame, hresult⟩
  · rw [hgone] at hresult
    refine .inr ⟨?_, hsame ▸ hbefore⟩
    generalize (x c).1 = r at hresult
    cases hresult with
    | error he => rw [he.eq_tooDeep]

theorem bind {x : Action α} {y : Action β} {f : α → Action γ} {g : β → Action δ}
    (h : GoesOnAlike V x y) (hg : ∀ b, (g b).Local)
    (hfg : ∀ a b, V a b → GoesOnAlike W (f a) (g b)) : GoesOnAlike W (x >>= f) (y >>= g) := by
  intro c
  rw [bind_apply, bind_apply]
  have hc := h c
  rcases hx : x c with ⟨r, c₁⟩
  rcases hy : y c with ⟨r', c₂⟩
  rw [hx, hy] at hc
  rcases hc with ⟨hsame, hresult⟩ | ⟨hgone, hbefore⟩
  · obtain rfl : c₁ = c₂ := hsame
    cases hresult with
    | ok hab => exact hfg _ _ hab c₁
    | error he => exact .inl ⟨rfl, .error he⟩
  · obtain rfl : r = .error .tooDeep := hgone
    -- whatever `y` goes on with comes later
    refine .inr ⟨rfl, ?_⟩
    cases r' with
    | ok b => exact hbefore.trans ((hg b).before c₂)
    | error _ => exact hbefore

end GoesOnAlike

end Action

/-! ## Computations for every amount of room -/

/-- A computation that needs room: an action for every amount of it. -/
@[ext]
structure Budgeted (α : Type) where
  run : Nat → Action α
  run_local : ∀ depth, (run depth).Local

namespace Budgeted

variable {α β γ δ : Type}

/-- A result that takes no room. -/
protected def pure (a : α) : Budgeted α where
  run _ := Pure.pure a
  run_local _ := .silent (Except.ok a)

/-- Two computations in a row, in the same room. -/
def bind (x : Budgeted α) (f : α → Budgeted β) : Budgeted β where
  run depth := x.run depth >>= fun a => (f a).run depth
  run_local depth := (x.run_local depth).bind fun a => (f a).run_local depth

/-- An evaluation. -/
def eval (ts : Tables) (n : Node) (s : Scope) : Budgeted Value where
  run depth := MiniLisp.eval ts depth n s
  run_local depth := Eval.eval_local ts depth n s

theorem eval_follows (ts : Tables) (depth : Nat) :
    Action.locality.Follows (MiniLisp.eval ts depth) (MiniLisp.eval ts depth) :=
  fun n s => ⟨rfl, Eval.eval_local ts depth n s⟩

/-- The evaluation of operands. -/
def evalAll (ts : Tables) (ns : List Node) (s : Scope) : Budgeted (List Value) where
  run depth := Eval.evalAll (MiniLisp.eval ts depth) s ns
  run_local depth := (Action.locality.evalAll_holds (eval_follows ts depth) s ns).2

/-- The body of a procedure, with the arguments. -/
def runProcedure (ts : Tables) (p : Procedure) (captured : Scope) (args : List Value) :
    Budgeted Value where
  run depth := Eval.runProcedure (MiniLisp.eval ts depth) p captured args
  run_local depth := (Action.locality.runProcedure_holds (eval_follows ts depth) p captured args).2

/-- A call, when the value of its operator is known. -/
def apply (ts : Tables) (s : Scope) (operands : List Node) (f : Value) : Budgeted Value where
  run depth := Eval.apply (MiniLisp.eval ts depth) s operands f
  run_local depth := (Action.locality.apply_holds (eval_follows ts depth) s operands f).2

/-- The first operand, and then the others. -/
theorem evalAll_cons_bind (ts : Tables) (n : Node) (ns : List Node) (s : Scope)
    (f : List Value → Budgeted α) :
    (evalAll ts (n :: ns) s).bind f =
      (eval ts n s).bind fun v => (evalAll ts ns s).bind fun vs => f (v :: vs) := by
  ext depth : 2
  simp [bind, eval, evalAll, Eval.evalAll]

theorem evalAll_nil_bind (ts : Tables) (s : Scope) (f : List Value → Budgeted α) :
    (evalAll ts [] s).bind f = f [] := by
  ext depth : 2
  simp [bind, evalAll, Eval.evalAll]

/-- There are as many values as operands. -/
theorem evalAll_bind_congr {ts : Tables} {ns : List Node} {s : Scope}
    {f g : List Value → Budgeted α} (h : ∀ vs, vs.length = ns.length → f vs = g vs) :
    (evalAll ts ns s).bind f = (evalAll ts ns s).bind g := by
  induction ns generalizing f g with
  | nil => rw [evalAll_nil_bind, evalAll_nil_bind, h [] rfl]
  | cons n ns ih =>
      rw [evalAll_cons_bind, evalAll_cons_bind]
      refine congrArg _ (funext fun v => ih fun vs hvs => ?_)
      exact h (v :: vs) (congrArg (· + 1) hvs)

/-! ## Alongside -/

variable {V : α → β → Prop} {W : γ → δ → Prop} {room more : Nat}

/-- Whatever one of the computations does in some room, the other one does with `room` more: to
every console the same, up to where the first gives out. -/
structure Alongside (V : α → β → Prop) (room : Nat) (x : Budgeted α) (y : Budgeted β) : Prop where
  forth : ∀ {d d'}, d + room ≤ d' → Action.GoesOnAlike V (x.run d) (y.run d')
  back : ∀ {d d'}, d + room ≤ d' → Action.GoesOnAlike (flip V) (y.run d) (x.run d')

/-- The computation `y` does what `x` does, but `more` of its room may be wasted. -/
def Delayed (more : Nat) (x y : Budgeted α) : Prop :=
  ∀ d, (d < more ∧ y.run d = throw .tooDeep) ∨ ∃ e, e ≤ d ∧ d ≤ e + more ∧ y.run d = x.run e

namespace Alongside

variable {x : Budgeted α} {y : Budgeted β}

theorem symm (h : Alongside V room x y) : Alongside (flip V) room y x := ⟨h.back, h.forth⟩

theorem mono (h : Alongside V room x y) (hle : room ≤ more) : Alongside V more x y where
  forth hd := h.forth (by omega)
  back hd := h.back (by omega)

theorem bind {f : α → Budgeted γ} {g : β → Budgeted δ} (h : Alongside V room x y)
    (hfg : ∀ a b, V a b → Alongside W room (f a) (g b)) :
    Alongside W room (x.bind f) (y.bind g) where
  forth hd := (h.forth hd).bind (fun b => (g b).run_local _) fun a b hab => (hfg a b hab).forth hd
  back hd := (h.back hd).bind (fun a => (f a).run_local _) fun b a hab => (hfg a b hab).back hd

/-- One side may waste some room. -/
theorem right {z : Budgeted β} (h : Alongside V room x y) (hz : Delayed more y z) :
    Alongside V (room + more) x z where
  forth := by
    intro d d' hd
    rcases hz d' with ⟨hlt, -⟩ | ⟨e, -, hle, hrun⟩
    · omega
    · rw [hrun]
      exact h.forth (by omega)
  back := by
    intro d d' hd
    rcases hz d with ⟨-, hgone⟩ | ⟨e, hle, -, hrun⟩
    · rw [hgone]
      exact .throw (x.run_local d')
    · rw [hrun]
      exact h.back (by omega)

theorem left {z : Budgeted α} (h : Alongside V room x y) (hz : Delayed more x z) :
    Alongside V (room + more) z y :=
  (h.symm.right hz).symm

end Alongside

/-! ## Calls -/

section

variable {ts : Tables} {s : Scope} {v : Value}

/-- A name that is bound takes room for itself. -/
theorem delayed_identifier {x : String} (h : s.lookup? ts x = some v) :
    Delayed 1 (.pure v) (eval ts (.identifier x) s) := by
  have hfind : Eval.find ts s x = .ok v := by rw [Eval.find, h]
  intro d
  cases d with
  | zero => exact .inl ⟨Nat.one_pos, rfl⟩
  | succ d =>
      refine .inr ⟨d, Nat.le_succ d, Nat.le_refl _, ?_⟩
      show (liftM (Eval.find ts s x) : Action Value) = _
      rw [hfind]
      rfl

/-- A call takes room for itself, besides that for its operator. -/
theorem delayed_call {head : Node} (hcallable : v.isCallable = true)
    (h : Delayed more (.pure v) (eval ts head s)) (operands : List Node) :
    Delayed (more + 1) (apply ts s operands v) (eval ts (.call (head :: operands)) s) := by
  intro d
  cases d with
  | zero => exact .inl ⟨Nat.succ_pos more, rfl⟩
  | succ d =>
      have hstep : (eval ts (.call (head :: operands)) s).run (d + 1) = (do
          let f ← (eval ts head s).run d
          if !f.isCallable then throw (.notCallable head f)
          (apply ts s operands f).run d) := rfl
      rcases h d with ⟨hlt, hgone⟩ | ⟨e, -, hle, hhead⟩
      · refine .inl ⟨Nat.succ_lt_succ hlt, ?_⟩
        rw [hstep, hgone]
        rfl
      · refine .inr ⟨d, Nat.le_succ d, by omega, ?_⟩
        rw [hstep, hhead]
        simp [Budgeted.pure, hcallable]

end

end Budgeted

/-- An expression in scopes that mean alike for its names. -/
theorem Eval.eval_alongside {ts : Tables} {base : Scope → Scope → Prop} {n : Node} {s t : Scope}
    (h : Scope.Alike ts base n.identifiers s t) :
    Budgeted.Alongside (Value.Alike ts base) 0 (Budgeted.eval ts n s) (Budgeted.eval ts n t) where
  forth {d _} hd := .of_agree (eval_alike h d) (eval_goesOn ts n t hd)
  back {d _} hd := .of_agree (eval_alike h d).flip (eval_goesOn ts n s hd)

end MiniLisp
