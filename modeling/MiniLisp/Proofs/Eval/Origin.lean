/-
# MiniLisp.Proofs.Eval.Origin — where results come from.

An evaluation takes its result from an inner evaluation or from its scope, or it makes the result
itself.  There is little that it makes: plain data, lists of the values of inner evaluations, a
procedure where the procedure form is at work, and errors of its own.  `Origin` lists these ways
and `origin` says that there are no others, so what is to hold of all results of evaluations is
shown by induction on the room, with one case for each way.
-/
import MiniLisp.Proofs.Eval.Inner
import MiniLisp.Proofs.Eval.Parameters

namespace MiniLisp

/-- A value without parts that is no callable. -/
inductive Value.Plain : Value → Prop
  | int (n : Int) : Plain (.int n)
  | bool (b : Bool) : Plain (.bool b)
  | str (text : String) : Plain (.str text)
  | unit : Plain .unit

/-- An error that is neither for want of room nor about a name that is bound nowhere. -/
def EvalError.Other : EvalError → Prop
  | .tooDeep | .unbound _ => False
  | _ => True

namespace Eval

/-! ## Rows of expressions -/

section

variable {ev : Evaluator} {s : Scope} {ns : List Node} {c c' : Console} {v : Value}
  {R : Except EvalError Value → Prop}

/-- What holds of the error of the first action, and of the result of the second one wherever the
first succeeds, holds of the result of both in a row. -/
theorem result_bind {α β : Type} {R : Except EvalError β → Prop} {x : Action α} {f : α → Action β}
    (herror : ∀ e c', x c = (.error e, c') → R (.error e))
    (hok : ∀ a c', x c = (.ok a, c') → R (f a c').1) : R ((x >>= f) c).1 := by
  rw [bind_apply]
  rcases hx : x c with ⟨e | a, c'⟩
  · exact herror e c' hx
  · exact hok a c' hx

/-- The same where the first only may fail. -/
theorem result_lift_bind {α β : Type} {R : Except EvalError β → Prop} {x : Except EvalError α}
    {f : α → Action β} (herror : ∀ e, x = .error e → R (.error e))
    (hok : ∀ a, x = .ok a → R (f a c).1) : R ((liftM x >>= f) c).1 := by
  rw [lift_bind_apply]
  cases x with
  | error e => exact herror e rfl
  | ok a => exact hok a rfl

/-- What holds of the result of each expression holds of each value in the row, or else of the error
that ends the row. -/
theorem evalAll_origin (h : ∀ before n after vs c', ns = before ++ n :: after →
      evalAll ev s before c = (.ok vs, c') → R (ev n s c').1) :
    (∀ vs c', evalAll ev s ns c = (.ok vs, c') → ∀ v ∈ vs, R (.ok v)) ∧
      ∀ e c', evalAll ev s ns c = (.error e, c') → R (.error e) := by
  induction ns generalizing c with
  | nil =>
      constructor
      · rintro vs c' ⟨⟩
        simp
      · rintro e c' ⟨⟩
  | cons n ns ih =>
      have hn : R (ev n s c).1 := h [] n ns [] c rfl rfl
      rw [evalAll, bind_apply]
      rcases hv : ev n s c with ⟨e | v, c₁⟩
      · rw [hv] at hn
        refine ⟨fun _ _ h => (by cases h), ?_⟩
        rintro e c' ⟨⟩
        exact hn
      · rw [hv] at hn
        obtain ⟨hvalues, herror⟩ := ih (evalAll_tail h hv)
        simp only [bind_apply]
        rcases hvs : evalAll ev s ns c₁ with ⟨e | vs, c₂⟩
        · refine ⟨fun _ _ h => (by cases h), ?_⟩
          rintro e c' ⟨⟩
          exact herror e c₂ hvs
        · refine ⟨?_, fun _ _ h => (by cases h)⟩
          rintro _ c' ⟨⟩
          exact List.forall_mem_cons.mpr ⟨hn, hvalues vs c₂ hvs⟩

/-- A row that is not empty has the result of one of its expressions. -/
theorem evalBody_origin (h : ∀ before n after w c', ns = before ++ n :: after →
      evalBody ev s v before c = (.ok w, c') → R (ev n s c').1) (hns : ns ≠ []) :
    R (evalBody ev s v ns c).1 := by
  induction ns generalizing c v with
  | nil => exact absurd rfl hns
  | cons n ns ih =>
      have hn : R (ev n s c).1 := h [] n ns v c rfl rfl
      rw [evalBody]
      refine result_bind (fun e c' he => ?_) fun w c' hw => ?_
      · rw [he] at hn
        exact hn
      · cases ns with
        | nil =>
            rw [hw] at hn
            exact hn
        | cons m ns =>
            exact ih (evalBody_tail h hw) (List.cons_ne_nil m ns)

end

end Eval

open Eval

/-! ## Origins -/

namespace Evaluation

variable {ts : Tables} {e e' : Evaluation} {d : Nat} {head : Node} {operands : List Node}
  {s : Scope} {c c₁ : Console} {v : Value}

/-- The result of an inner evaluation. -/
def InnerResult (ts : Tables) (e : Evaluation) (r : Except EvalError Value) : Prop :=
  ∃ e', Inner ts e e' ∧ (e'.outcome ts).1 = r

/-- How an evaluation comes to its result. -/
inductive Origin (ts : Tables) (e : Evaluation) : Except EvalError Value → Prop
  /-- There is no room for it. -/
  | noRoom (h : e.depth = 0) : Origin ts e (.error .tooDeep)
  /-- It is a name, and this is what the name means. -/
  | bound {x : String} {v : Value} (hnode : e.node = .identifier x)
      (h : e.scope.lookup? ts x = some v) : Origin ts e (.ok v)
  /-- It is a name that means nothing. -/
  | unbound {x : String} (hnode : e.node = .identifier x) (h : e.scope.lookup? ts x = none) :
      Origin ts e (.error (.unbound x))
  /-- An inner evaluation has this result. -/
  | inner {r : Except EvalError Value} (h : InnerResult ts e r) : Origin ts e r
  | plain {v : Value} (h : v.Plain) : Origin ts e (.ok v)
  /-- Inner evaluations have these values. -/
  | list {vs : List Value} (h : ∀ v ∈ vs, InnerResult ts e (.ok v)) : Origin ts e (.ok (.list vs))
  /-- The operator means the procedure form, and the operands are parameters and a body. -/
  | procedure {head body : Node} {xs : List String}
      (hnode : e.node = .call [head, .call (xs.map .identifier), body])
      (hhead : InnerResult ts e (.ok (.form .procedure))) :
      Origin ts e (.ok (.closure { name := none, params := xs, body := [body] } e.scope))
  | other {err : EvalError} (h : err.Other) : Origin ts e (.error err)

namespace InnerResult

/-- The result of an inner evaluation that starts with `c'`. -/
theorem of_eval {n : Node} {s' : Scope} {c' : Console}
    (h : Inner ts ⟨d + 1, .call (head :: operands), s, c⟩ ⟨d, n, s', c'⟩) :
    InnerResult ts ⟨d + 1, .call (head :: operands), s, c⟩ (eval ts d n s' c').1 :=
  ⟨_, h, rfl⟩

theorem of_eq {n : Node} {s' : Scope} {c' c'' : Console} {r : Except EvalError Value}
    (h : Inner ts ⟨d + 1, .call (head :: operands), s, c⟩ ⟨d, n, s', c'⟩)
    (hr : eval ts d n s' c' = (r, c'')) :
    InnerResult ts ⟨d + 1, .call (head :: operands), s, c⟩ r := by
  have hresult := of_eval h
  rw [hr] at hresult
  exact hresult

end InnerResult

namespace Origin

/-- Operands that are evaluated in a row have the values and the errors of inner evaluations. -/
theorem of_operands (hhead : eval ts d head s c = (.ok v, c₁))
    (hv : v.TakesValues operands.length) :
    (∀ vs c', evalAll (eval ts d) s operands c₁ = (.ok vs, c') →
      ∀ w ∈ vs, InnerResult ts ⟨d + 1, .call (head :: operands), s, c⟩ (.ok w)) ∧
    ∀ err c', evalAll (eval ts d) s operands c₁ = (.error err, c') →
      InnerResult ts ⟨d + 1, .call (head :: operands), s, c⟩ (.error err) := by
  refine evalAll_origin fun before n after vs c' hsplit hbefore => ?_
  subst hsplit
  exact .of_eval (.operand hhead hv hbefore)

theorem checkRange_other {name : String} {n : Int} {err : EvalError}
    (h : checkRange name n = .error err) : err.Other := by
  unfold checkRange at h
  split at h
  · cases h
  · cases h
    trivial

theorem displayText_other {v : Value} {err : EvalError} (h : displayText v = .error err) :
    err.Other := by
  unfold displayText at h
  split at h
  · cases h
  · cases h
    trivial

theorem checkArity_other {name : String} {arity : Option Int} {found : Int} {err : EvalError}
    (h : checkArity name arity found = .error err) : err.Other := by
  unfold checkArity at h
  split at h
  · cases h
  · split at h
    · cases h
    · cases h
      trivial

theorem checkArity_count {name : String} {arity found : Nat}
    (h : checkArity name (some (arity : Int)) found = .ok ()) : found = arity := by
  unfold checkArity at h
  simp only at h
  split at h
  · omega
  · cases h

theorem readLine_other {c c' : Console} {err : EvalError} (h : readLine c = (.error err, c')) :
    err.Other := by
  unfold readLine at h
  split at h
  · cases h
  · cases h
    trivial

/-- Builtins make plain values and errors of their own. -/
theorem runBuiltin_result {R : Except EvalError Value → Prop} (hplain : ∀ v, v.Plain → R (.ok v))
    (hother : ∀ err, err.Other → R (.error err)) (b : Builtin) (args : List Value) (c : Console) :
    R (runBuiltin b args c).1 := by
  unfold runBuiltin
  split
  · refine result_lift_bind (fun err h => ?_) fun n _ => hplain _ (.int n)
    exact hother err (checkRange_other h)
  · refine result_lift_bind (fun err h => ?_) fun n _ => hplain _ (.int n)
    exact hother err (checkRange_other h)
  · exact hplain _ (.bool _)
  · refine result_lift_bind (fun err h => ?_) fun text _ => hplain _ (.str text)
    exact hother err (displayText_other h)
  · refine result_lift_bind (fun err h => ?_) fun text _ => hplain _ .unit
    exact hother err (displayText_other h)
  · refine result_bind (fun err c' h => ?_) fun text _ _ => hplain _ (.str text)
    exact hother err (readLine_other h)
  all_goals exact hother _ trivial

theorem of_builtin (b : Builtin) (args : List Value) (c : Console) :
    Origin ts e (runBuiltin b args c).1 :=
  runBuiltin_result (fun _ => .plain) (fun _ => .other) b args c

/-- The special forms have their results from the expressions they evaluate, but for lists and
procedures. -/
theorem of_form {f : SpecialForm} (hhead : eval ts d head s c = (.ok (.form f), c₁)) :
    Origin ts ⟨d + 1, .call (head :: operands), s, c⟩ (runForm (eval ts d) s f operands c₁).1 := by
  unfold runForm
  split
  · -- a condition and two branches
    next test yes no =>
    refine result_bind (fun err c' h => .inner (.of_eq (.condition hhead) h)) fun v c' h => ?_
    cases v with
    | bool b => exact .inner (.of_eval (.branch hhead h))
    | _ => exact .other trivial
  · -- a name, its value and the expression it is bound in
    next x value body =>
    refine result_bind (fun err c' h => .inner (.of_eq (.bound hhead) h)) fun v c' h => ?_
    exact .inner (.of_eval (.bindingBody hhead h))
  · exact .other trivial
  · -- parameters and a body
    next params body =>
    refine result_lift_bind (fun err h => ?_) fun xs h => ?_
    · obtain rfl | ⟨m, rfl⟩ := parameters_eq_error h
      · exact .other trivial
      · exact .other trivial
    · obtain rfl := parameters_eq_ok_iff.mp h
      exact .procedure rfl (.of_eq .operator hhead)
  · -- elements
    obtain ⟨hvalues, herror⟩ := of_operands hhead .list
    refine result_bind (fun err c' h => .inner (herror err c' h)) fun vs c' h => ?_
    exact .list (hvalues vs c' h)
  · exact .other trivial

theorem of_procedure {p : Procedure} {captured : Scope} {args : List Value} {c₂ : Console}
    (hhead : eval ts d head s c = (.ok (.closure p captured), c₁))
    (hargs : evalAll (eval ts d) s operands c₁ = (.ok args, c₂)) :
    Origin ts ⟨d + 1, .call (head :: operands), s, c⟩
      (runProcedure (eval ts d) p captured args c₂).1 := by
  unfold runProcedure
  refine result_lift_bind (fun err h => ?_) fun s' hbind => ?_
  · unfold Eval.bind at h
    split at h
    · cases h
    · cases h
      exact .other trivial
  · cases hbody : p.body with
    | nil => exact .other trivial
    | cons n ns =>
        refine evalBody_origin (fun before m after w c' hsplit hbefore => ?_) (by simp)
        exact .inner (.of_eval (.procedureBody hhead hargs hbind (hbody.trans hsplit) hbefore))

theorem of_apply (hhead : eval ts d head s c = (.ok v, c₁)) :
    Origin ts ⟨d + 1, .call (head :: operands), s, c⟩ (apply (eval ts d) s operands v c₁).1 := by
  cases v with
  | builtin b =>
      refine result_lift_bind (fun err h => .other (checkArity_other h)) fun _ hcount => ?_
      obtain ⟨-, herror⟩ := of_operands hhead (.builtin (checkArity_count hcount))
      refine result_bind (fun err c' h => .inner (herror err c' h)) fun args c' _ => ?_
      exact of_builtin b args c'
  | form f =>
      refine result_lift_bind (fun err h => .other (checkArity_other h)) fun _ _ => ?_
      exact of_form hhead
  | closure p captured =>
      obtain ⟨-, herror⟩ := of_operands hhead (.closure p captured)
      refine result_bind (fun err c' h => .inner (herror err c' h)) fun args c' hargs => ?_
      exact of_procedure hhead hargs
  | _ => exact .other trivial

end Origin

/-- Every evaluation comes to its result in one of these ways. -/
theorem origin (ts : Tables) (e : Evaluation) : Origin ts e (e.outcome ts).1 := by
  obtain ⟨depth, n, s, c⟩ := e
  unfold outcome
  cases depth with
  | zero => exact .noRoom rfl
  | succ d =>
      cases n with
      | literal t =>
          show Origin ts _ (Eval.literal t)
          cases t with
          | integer k => exact .plain (.int k)
          | string text => exact .plain (.str text)
          | _ => exact .other trivial
      | identifier x =>
          show Origin ts _ (find ts s x)
          unfold find
          cases hx : s.lookup? ts x with
          | some v => exact .bound rfl hx
          | none => exact .unbound rfl hx
      | call ns =>
          cases ns with
          | nil => exact .list (by simp)
          | cons head operands =>
              rw [eval_call]
              refine result_bind (fun err c' h => .inner (.of_eq .operator h)) fun v c' hhead => ?_
              cases v.isCallable with
              | false => exact .other trivial
              | true => exact Origin.of_apply hhead
      | _ => exact .other trivial

end Evaluation

end MiniLisp
