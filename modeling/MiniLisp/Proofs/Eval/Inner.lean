/-
# MiniLisp.Proofs.Eval.Inner — the evaluations that an evaluation is made of.

What becomes of an expression says little of what went on inside, so this names it: `Inner` relates
a call to each evaluation that it starts itself, with the scope and the console it starts there.
That none is missing is `Inner.call_congr`: an evaluator that does as `eval` does on the inner
evaluations of a call is as good as `eval` for the call.
-/
import MiniLisp.Proofs.Eval.Soundness

namespace MiniLisp

/-! ## Calls with their parts left open -/

namespace Eval

variable {ev ev' : Evaluator} {ns : List Node} {s : Scope} {c : Console} {v : Value}

/-- A call whose parts are left to an evaluator. -/
def call (ev : Evaluator) (head : Node) (operands : List Node) (s : Scope) : Action Value := do
  let f ← ev head s
  if !f.isCallable then throw (.notCallable head f)
  apply ev s operands f

theorem eval_call (ts : Tables) (depth : Nat) (head : Node) (operands : List Node) (s : Scope) :
    eval ts (depth + 1) (.call (head :: operands)) s = call (eval ts depth) head operands s := by
  rw [eval, call]

/-- What holds of each expression of a row, at the console that those in front of it leave, holds so
of the rest of the row behind the value of the first. -/
theorem evalAll_tail {P : Node → Console → Prop} {n : Node} {c₁ : Console}
    (h : ∀ before m after vs c', n :: ns = before ++ m :: after →
      evalAll ev s before c = (.ok vs, c') → P m c') (hn : ev n s c = (.ok v, c₁)) :
    ∀ before m after vs c', ns = before ++ m :: after →
      evalAll ev s before c₁ = (.ok vs, c') → P m c' := by
  intro before m after vs c' hsplit hbefore
  refine h (n :: before) m after (v :: vs) c' (by rw [hsplit, List.cons_append]) ?_
  rw [evalAll, bind_apply, hn]
  simp only [bind_apply, hbefore]
  rfl

/-- Evaluators that do the same to each operand, when the operands in front of it have their values,
give the same values. -/
theorem evalAll_congr (h : ∀ before n after vs c', ns = before ++ n :: after →
      evalAll ev' s before c = (.ok vs, c') → ev n s c' = ev' n s c') :
    evalAll ev s ns c = evalAll ev' s ns c := by
  induction ns generalizing c with
  | nil => rfl
  | cons n ns ih =>
      rw [evalAll, evalAll, bind_apply, bind_apply, h [] n ns [] c rfl rfl]
      rcases hn : ev' n s c with ⟨_ | v, c₁⟩
      · rfl
      · have htail : evalAll ev s ns c₁ = evalAll ev' s ns c₁ := ih (evalAll_tail h hn)
        simp only [bind_apply, htail]

/-- The same for the expressions of a body. -/
theorem evalBody_tail {P : Node → Console → Prop} {n : Node} {w : Value} {c₁ : Console}
    (h : ∀ before m after u c', n :: ns = before ++ m :: after →
      evalBody ev s v before c = (.ok u, c') → P m c') (hn : ev n s c = (.ok w, c₁)) :
    ∀ before m after u c', ns = before ++ m :: after →
      evalBody ev s w before c₁ = (.ok u, c') → P m c' := by
  intro before m after u c' hsplit hbefore
  refine h (n :: before) m after u c' (by rw [hsplit, List.cons_append]) ?_
  rw [evalBody, bind_apply, hn]
  exact hbefore

theorem evalBody_congr (h : ∀ before n after w c', ns = before ++ n :: after →
      evalBody ev' s v before c = (.ok w, c') → ev n s c' = ev' n s c') :
    evalBody ev s v ns c = evalBody ev' s v ns c := by
  induction ns generalizing c v with
  | nil => rfl
  | cons n ns ih =>
      rw [evalBody, evalBody, bind_apply, bind_apply, h [] n ns v c rfl rfl]
      rcases hn : ev' n s c with ⟨_ | w, c₁⟩
      · rfl
      · exact ih (evalBody_tail h hn)

end Eval

open Eval

/-! ## Evaluations -/

/-- An expression to evaluate: in a scope, from a console, and with room for so many evaluations at
once. -/
structure Evaluation where
  depth : Nat
  node : Node
  scope : Scope
  console : Console

/-- Values that make a call evaluate all its operands, where it has `count` of them. -/
inductive Value.TakesValues (count : Nat) : Value → Prop
  | builtin {b : Builtin} (h : count = b.arity) : TakesValues count (.builtin b)
  | list : TakesValues count (.form .list)
  | closure (p : Procedure) (s : Scope) : TakesValues count (.closure p s)

namespace Evaluation

variable {ts : Tables} {e e' : Evaluation} {d : Nat} {head : Node} {operands : List Node}
  {s : Scope} {c c₁ c₂ : Console} {v : Value}

/-- What becomes of an evaluation. -/
def outcome (ts : Tables) (e : Evaluation) : Except EvalError Value × Console :=
  eval ts e.depth e.node e.scope e.console

/-! ## Inner evaluations -/

/-- The evaluations that a call starts: its operator, and then what the operator's value asks for.
Each starts from the console that those in front of it leave. -/
inductive Inner (ts : Tables) : Evaluation → Evaluation → Prop
  | operator {d : Nat} {head : Node} {operands : List Node} {s : Scope} {c : Console} :
      Inner ts ⟨d + 1, .call (head :: operands), s, c⟩ ⟨d, head, s, c⟩
  | operand {d : Nat} {head n : Node} {before after : List Node} {s : Scope} {c c₁ c₂ : Console}
      {v : Value} {vs : List Value} (hhead : eval ts d head s c = (.ok v, c₁))
      (hv : v.TakesValues (before ++ n :: after).length)
      (hbefore : evalAll (eval ts d) s before c₁ = (.ok vs, c₂)) :
      Inner ts ⟨d + 1, .call (head :: (before ++ n :: after)), s, c⟩ ⟨d, n, s, c₂⟩
  | condition {d : Nat} {head test yes no : Node} {s : Scope} {c c₁ : Console}
      (hhead : eval ts d head s c = (.ok (.form .choice), c₁)) :
      Inner ts ⟨d + 1, .call [head, test, yes, no], s, c⟩ ⟨d, test, s, c₁⟩
  | branch {d : Nat} {head test yes no : Node} {s : Scope} {c c₁ c₂ : Console} {b : Bool}
      (hhead : eval ts d head s c = (.ok (.form .choice), c₁))
      (htest : eval ts d test s c₁ = (.ok (.bool b), c₂)) :
      Inner ts ⟨d + 1, .call [head, test, yes, no], s, c⟩ ⟨d, if b then yes else no, s, c₂⟩
  | bound {d : Nat} {head value body : Node} {x : String} {s : Scope} {c c₁ : Console}
      (hhead : eval ts d head s c = (.ok (.form .binding), c₁)) :
      Inner ts ⟨d + 1, .call [head, .identifier x, value, body], s, c⟩ ⟨d, value, s, c₁⟩
  | bindingBody {d : Nat} {head value body : Node} {x : String} {s : Scope} {c c₁ c₂ : Console}
      {v : Value} (hhead : eval ts d head s c = (.ok (.form .binding), c₁))
      (hvalue : eval ts d value s c₁ = (.ok v, c₂)) :
      Inner ts ⟨d + 1, .call [head, .identifier x, value, body], s, c⟩ ⟨d, body, .frame x v s, c₂⟩
  | procedureBody {d : Nat} {head n : Node} {operands before after : List Node}
      {s captured s' : Scope} {c c₁ c₂ c₃ : Console} {p : Procedure} {args : List Value} {v : Value}
      (hhead : eval ts d head s c = (.ok (.closure p captured), c₁))
      (hargs : evalAll (eval ts d) s operands c₁ = (.ok args, c₂))
      (hbind : Eval.bind p captured args = .ok s') (hbody : p.body = before ++ n :: after)
      (hbefore : evalBody (eval ts d) s' .unit before c₂ = (.ok v, c₃)) :
      Inner ts ⟨d + 1, .call (head :: operands), s, c⟩ ⟨d, n, s', c₃⟩

/-! ### No evaluation is missing -/

namespace Inner

variable {ev : Evaluator}

/-- The evaluator does as `eval` does on the inner evaluations of a call. -/
abbrev Followed (ts : Tables) (ev : Evaluator) (d : Nat) (head : Node) (operands : List Node)
    (s : Scope) (c : Console) : Prop :=
  ∀ n s' c', Inner ts ⟨d + 1, .call (head :: operands), s, c⟩ ⟨d, n, s', c'⟩ →
    ev n s' c' = eval ts d n s' c'

theorem operands_congr (hev : Followed ts ev d head operands s c)
    (hhead : eval ts d head s c = (.ok v, c₁)) (hv : v.TakesValues operands.length) :
    evalAll ev s operands c₁ = evalAll (eval ts d) s operands c₁ := by
  refine evalAll_congr fun before n after vs c' hsplit hbefore => hev n s c' ?_
  subst hsplit
  exact .operand hhead hv hbefore

theorem runForm_congr (hev : Followed ts ev d head operands s c) {f : SpecialForm}
    (hhead : eval ts d head s c = (.ok (.form f), c₁)) :
    runForm ev s f operands c₁ = runForm (eval ts d) s f operands c₁ := by
  unfold runForm
  split
  · -- a condition and two branches
    next test yes no =>
    rw [bind_apply, bind_apply, hev test s c₁ (.condition hhead)]
    rcases htest : eval ts d test s c₁ with ⟨_ | v, c₂⟩
    · rfl
    · cases v with
      | bool b => exact hev _ s c₂ (.branch hhead htest)
      | _ => rfl
  · -- a name, its value and the expression it is bound in
    next x value body =>
    rw [bind_apply, bind_apply, hev value s c₁ (.bound hhead)]
    rcases hvalue : eval ts d value s c₁ with ⟨_ | v, c₂⟩
    · rfl
    · exact hev _ _ c₂ (.bindingBody hhead hvalue)
  · rfl
  · rfl
  · rw [bind_apply, bind_apply, operands_congr hev hhead .list]
  · rfl

theorem runProcedure_congr (hev : Followed ts ev d head operands s c) {p : Procedure}
    {captured : Scope} {args : List Value}
    (hhead : eval ts d head s c = (.ok (.closure p captured), c₁))
    (hargs : evalAll (eval ts d) s operands c₁ = (.ok args, c₂)) :
    runProcedure ev p captured args c₂ = runProcedure (eval ts d) p captured args c₂ := by
  unfold runProcedure
  cases hbind : Eval.bind p captured args with
  | error e => rfl
  | ok s' =>
      have hbody : evalBody ev s' .unit p.body c₂ = evalBody (eval ts d) s' .unit p.body c₂ :=
        evalBody_congr fun before n after v c' hsplit hbefore =>
          hev n s' c' (.procedureBody hhead hargs hbind hsplit hbefore)
      cases hempty : p.body.isEmpty with
      | true => rfl
      | false => exact hbody

theorem apply_congr (hev : Followed ts ev d head operands s c)
    (hhead : eval ts d head s c = (.ok v, c₁)) :
    apply ev s operands v c₁ = apply (eval ts d) s operands v c₁ := by
  cases v with
  | builtin b =>
      rw [apply, apply, lift_bind_apply, lift_bind_apply]
      unfold checkArity
      by_cases hcount : operands.length = b.arity
      · simp only [hcount, if_true, bind_apply, operands_congr hev hhead (.builtin hcount)]
      · have hcount' : ¬(operands.length : Int) = b.arity := by omega
        simp only [if_neg hcount']
  | form f => rw [apply, apply, lift_bind_apply, lift_bind_apply, runForm_congr hev hhead]
  | closure p captured =>
      simp only [apply, bind_apply, operands_congr hev hhead (.closure p captured)]
      rcases hargs : evalAll (eval ts d) s operands c₁ with ⟨_ | args, c₂⟩
      · rfl
      · exact runProcedure_congr hev hhead hargs
  | _ => rfl

/-- A call has the outcome that its inner evaluations give it. -/
theorem call_congr (hev : Followed ts ev d head operands s c) :
    call ev head operands s c = outcome ts ⟨d + 1, .call (head :: operands), s, c⟩ := by
  unfold outcome
  rw [eval_call, call, call, bind_apply, bind_apply, hev head s c .operator]
  rcases hhead : eval ts d head s c with ⟨_ | v, c₁⟩
  · rfl
  · cases hcallable : v.isCallable with
    | false => simp only [hcallable]; rfl
    | true =>
        simp only [hcallable]
        exact apply_congr hev hhead

end Inner

/-! ## Builtins at work -/

/-- A call that runs a builtin on arguments, from the console that their evaluation leaves. -/
inductive Invokes (ts : Tables) : Evaluation → Builtin → List Value → Console → Prop
  | call {d : Nat} {head : Node} {operands : List Node} {s : Scope} {c c₁ c₂ : Console}
      {b : Builtin} {args : List Value} (hhead : eval ts d head s c = (.ok (.builtin b), c₁))
      (hcount : operands.length = b.arity)
      (hargs : evalAll (eval ts d) s operands c₁ = (.ok args, c₂)) :
      Invokes ts ⟨d + 1, .call (head :: operands), s, c⟩ b args c₂

/-- Such a call ends as the builtin does. -/
theorem Invokes.outcome_eq {b : Builtin} {args : List Value} (h : Invokes ts e b args c) :
    e.outcome ts = runBuiltin b args c := by
  cases h with
  | @call d head operands s c₀ c₁ _ _ _ hhead hcount hargs =>
      have hcheck : checkArity b.name (some b.arity) operands.length = .ok () :=
        if_pos (congrArg Int.ofNat hcount)
      unfold outcome
      rw [eval_call, Eval.call, bind_apply, hhead]
      show apply (eval ts d) s operands (.builtin b) c₁ = _
      rw [apply, lift_bind_apply, hcheck]
      simp only [bind_apply, hargs]

/-! ## Sound evaluations -/

/-- An evaluation as programs start them. -/
structure Sound (e : Evaluation) : Prop where
  written : e.node.Expression
  scope : e.scope.Sound

variable {t : Table}

/-- The value of a sound evaluation is sound. -/
theorem Sound.value (ht : t.Sound) (he : e.Sound) (hv : e.outcome (t :: ts) = (.ok v, c)) :
    v.Sound :=
  (eval_sound ht he.written he.scope e.depth e.console).1 v (congrArg Prod.fst hv)

/-- A part of a call in the scope of the call. -/
theorem Sound.part {n : Node} (he : Sound ⟨d + 1, .call (head :: operands), s, c⟩)
    (hn : n ∈ head :: operands) (c' : Console) : Sound ⟨d, n, s, c'⟩ := by
  obtain ⟨hcall, hs⟩ := he
  cases hcall with
  | call hall => exact ⟨hall n hn, hs⟩

theorem Sound.operands_written (he : Sound ⟨d + 1, .call (head :: operands), s, c⟩) :
    ∀ n ∈ operands, n.Expression :=
  fun _ hn => (he.part (List.mem_cons_of_mem head hn) c).written

/-- A sound evaluation starts sound evaluations. -/
theorem Inner.sound (ht : t.Sound) (h : Inner (t :: ts) e e') (he : e.Sound) : e'.Sound := by
  cases h with
  | operator => exact he.part List.mem_cons_self _
  | operand => exact he.part (by simp) _
  | condition => exact he.part (by simp) _
  | @branch _ _ _ yes no _ _ _ _ b => exact he.part (by cases b <;> simp) _
  | bound => exact he.part (by simp) _
  | @bindingBody d head value body x s c c₁ c₂ v hhead hvalue =>
      have hbody : Sound ⟨d, body, s, c₂⟩ := he.part (by simp) _
      have hpart : Sound ⟨d, value, s, c₁⟩ := he.part (by simp) _
      exact ⟨hbody.written, .frame (hpart.value ht hvalue) hbody.scope⟩
  | @procedureBody d head n operands _ _ s _ _ c _ _ _ p args _ hhead hargs hbind hbody _ =>
      have hoperator : Sound ⟨d, head, s, c⟩ := he.part List.mem_cons_self _
      cases hoperator.value ht hhead with
      | closure hexpression hcaptured =>
          refine ⟨hexpression n (by rw [hbody]; simp), ?_⟩
          exact bind_sound hbind hcaptured (evalAll_sound ht he.operands_written he.scope hargs)

end Evaluation

end MiniLisp
