/-
# MiniLisp.Proofs.Session.Effects — relations of steps that programs keep.

A program may hold programs as statements, to any depth.  All that the evaluation of a program adds
to that of its statements is to put them in a row, so a relation of steps that is kept in a row and
holds of each statement that is no program carries over to programs.  As with `Action.Relation`, the
two sides may differ in the room they have.
-/
import MiniLisp.Proofs.Session.Step

namespace MiniLisp

/-- A relation of steps that holds of every statement that is no program, with the first limits and
with the second ones, and is kept in a row. -/
structure Step.Relation (limits limits' : Limits) where
  Holds : {α : Type} → Step α → Step α → Prop
  protected pure : ∀ {α : Type} (a : α), Holds (pure a) (pure a)
  protected bind : ∀ {α β : Type} {x y : Step α} {f g : α → Step β}, Holds x y →
    (∀ a, Holds (f a) (g a)) → Holds (x >>= f) (y >>= g)
  record : ∀ e, Holds (Session.record e) (Session.record e)
  single : ∀ n, (∀ ns, n ≠ .program ns) →
    Holds (Session.statement limits n) (Session.statement limits' n)

namespace Step.Relation

open Session

variable {limits limits' : Limits} (R : Step.Relation limits limits')

mutual

theorem statement_holds : (n : Node) → R.Holds (statement limits n) (statement limits' n)
  | .program ns => by
      rw [statement, statement]
      exact R.bind (statements_holds ns) fun _ => R.pure _
  | .literal _ | .identifier _ | .call _ | .definition _ _ _ | .bare _ => R.single _ (by simp)

theorem statements_holds :
    (ns : List Node) → R.Holds (statements limits ns) (statements limits' ns)
  | [] => by
      rw [statements, statements]
      exact R.pure _
  | n :: ns => by
      rw [statements, statements]
      exact R.bind (statement_holds n) fun _ => statements_holds ns

end

/-- Statements are related when they are executed in a row, for either purpose. -/
theorem execute_holds (purpose : Request.Purpose) (source : String) (v : Value) (ns : List Node) :
    R.Holds (Request.execute ⟨purpose, limits, source⟩ v ns)
      (Request.execute ⟨purpose, limits', source⟩ v ns) := by
  cases purpose with
  | run => exact R.bind (R.statements_holds ns) fun _ => R.pure _
  | eval =>
      show R.Holds (values limits v ns) (values limits' v ns)
      induction ns generalizing v with
      | nil => exact R.pure v
      | cons n ns ih =>
          refine R.bind (R.statement_holds n) fun w => ?_
          exact R.bind (R.record _) fun _ => ih w

end Step.Relation

end MiniLisp
