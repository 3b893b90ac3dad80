/-
# MiniLisp.Proofs.Eval.Effects — relations of actions that evaluation keeps.

All that an evaluation does to a console it does by reading and writing lines, one after the other;
what it computes in between is the same for every console.  So a relation of actions carries over to
evaluations if it holds of each of these two and is kept by putting actions in a row.  The induction
over evaluation is done once, for an evaluation beside another one that has more room: they start
the same actions, up to where the first has no room left.
-/
import MiniLisp.Eval

namespace MiniLisp

/-- A relation of actions that holds of reading and of writing, and is kept in a row. -/
structure Action.Relation where
  Holds : {α : Type} → Action α → Action α → Prop
  protected pure : ∀ {α : Type} (a : α), Holds (pure a) (pure a)
  protected throw : ∀ {α : Type} (e : EvalError), Holds (throw e : Action α) (throw e)
  protected bind : ∀ {α β : Type} {x y : Action α} {f g : α → Action β}, Holds x y →
    (∀ a, Holds (f a) (g a)) → Holds (x >>= f) (y >>= g)
  writeLine : ∀ text, Holds (Eval.writeLine text) (Eval.writeLine text)
  readLine : Holds Eval.readLine Eval.readLine

namespace Action.Relation

open Eval

variable (R : Action.Relation)

/-- What may fail but leaves the console alone. -/
theorem lift {α : Type} (x : Except EvalError α) :
    R.Holds (liftM x : Action α) (liftM x : Action α) := by
  cases x with
  | ok a => exact R.pure a
  | error e => exact R.throw e

theorem runBuiltin_holds (b : Builtin) (args : List Value) :
    R.Holds (runBuiltin b args) (runBuiltin b args) := by
  unfold runBuiltin
  split
  · exact R.bind (R.lift _) fun _ => R.pure _
  · exact R.bind (R.lift _) fun _ => R.pure _
  · exact R.pure _
  · exact R.bind (R.lift _) fun _ => R.pure _
  · exact R.bind (R.lift _) fun text => R.bind (R.writeLine text) fun _ => R.pure _
  · exact R.bind R.readLine fun _ => R.pure _
  all_goals exact R.throw _

/-! ## Parts of calls -/

section

/-- Evaluators that start related actions for every expression in every scope. -/
abbrev Follows (ev ev' : Evaluator) : Prop := ∀ n s, R.Holds (ev n s) (ev' n s)

variable {R} {ev ev' : Evaluator} (hev : R.Follows ev ev')
include hev

theorem evalAll_holds (s : Scope) (ns : List Node) :
    R.Holds (evalAll ev s ns) (evalAll ev' s ns) := by
  induction ns with
  | nil => exact R.pure _
  | cons n ns ih => exact R.bind (hev n s) fun _ => R.bind ih fun _ => R.pure _

theorem evalBody_holds (s : Scope) (v : Value) (ns : List Node) :
    R.Holds (evalBody ev s v ns) (evalBody ev' s v ns) := by
  induction ns generalizing v with
  | nil => exact R.pure v
  | cons n ns ih => exact R.bind (hev n s) ih

theorem runForm_holds (s : Scope) (f : SpecialForm) (operands : List Node) :
    R.Holds (runForm ev s f operands) (runForm ev' s f operands) := by
  unfold runForm
  split
  · -- a condition and two branches
    next condition yes no =>
    refine R.bind (hev condition s) fun v => ?_
    cases v with
    | bool b => exact hev _ s
    | _ => exact R.throw _
  · next x value body => exact R.bind (hev value s) fun v => hev body _
  · exact R.throw _
  · exact R.bind (R.lift _) fun _ => R.pure _
  · exact R.bind (evalAll_holds hev s _) fun _ => R.pure _
  · exact R.throw _

theorem runProcedure_holds (p : Procedure) (captured : Scope) (args : List Value) :
    R.Holds (runProcedure ev p captured args) (runProcedure ev' p captured args) := by
  unfold runProcedure
  refine R.bind (R.lift _) fun s => ?_
  cases p.body.isEmpty with
  | true => exact R.bind (R.throw _) fun _ => evalBody_holds hev s _ _
  | false => exact evalBody_holds hev s _ _

theorem apply_holds (s : Scope) (operands : List Node) (v : Value) :
    R.Holds (apply ev s operands v) (apply ev' s operands v) := by
  cases v with
  | builtin b =>
      exact R.bind (R.lift _) fun _ => R.bind (evalAll_holds hev s _) (R.runBuiltin_holds b)
  | form f => exact R.bind (R.lift _) fun _ => runForm_holds hev s f operands
  | closure p captured => exact R.bind (evalAll_holds hev s _) (runProcedure_holds hev p captured)
  | _ => exact R.throw _

end

/-! ## Evaluation -/

/-- An evaluation is related to the same one with more room, if that is so where the first has no
room at all. -/
theorem eval_holds {ts : Tables} (more : Nat)
    (hnone : ∀ n s, R.Holds (throw .tooDeep) (eval ts more n s)) (depth : Nat) (n : Node)
    (s : Scope) : R.Holds (eval ts depth n s) (eval ts (depth + more) n s) := by
  induction depth generalizing n s with
  | zero =>
      rw [Nat.zero_add]
      exact hnone n s
  | succ depth ih =>
      rw [Nat.succ_add]
      cases n with
      | literal t => exact R.lift _
      | identifier x => exact R.lift _
      | call ns =>
          cases ns with
          | nil => exact R.pure _
          | cons head operands =>
              rw [eval, eval]
              refine R.bind (ih head s) fun f => ?_
              cases f.isCallable with
              | true => exact apply_holds ih s operands f
              | false => exact R.bind (R.throw _) fun _ => apply_holds ih s operands f
      | definition name params body => exact R.throw _
      | program ns => exact R.throw _
      | bare t => exact R.throw _

/-- An evaluation is related to itself. -/
theorem eval_holds_self (ts : Tables) (depth : Nat) (n : Node) (s : Scope) :
    R.Holds (eval ts depth n s) (eval ts depth n s) :=
  R.eval_holds 0 (fun _ _ => R.throw .tooDeep) depth n s

end Action.Relation

end MiniLisp
