/-
# MiniLisp.Proofs.Session.Locality — programs see the lines that they read, and nothing else.

A step of a session is a conversation with its console, for all tables and records that the session
may have; what it leaves of these belongs to its outcome.  The steps of programs are local
like evaluations: they append to the output, they take input from the front, and neither what was
written before nor what is left to be read makes a difference to them.
-/
import MiniLisp.Proofs.Eval.Locality
import MiniLisp.Proofs.Session.Effects

namespace MiniLisp

namespace Step

variable {α β : Type} {x : Step α}

/-- What a step leaves but for the console: its result, the session's table, the records and the
other tables. -/
abbrev Rest (α : Type) := Except Failure α × Table × List Event × Tables

/-- A step as a conversation, from a session with the table `t`, the records `es` and the other
tables `ts`. -/
def talk (x : Step α) (t : Table) (es : List Event) (ts : Tables) : Conversation (Rest α) := fun c =>
  let (r, s) := x ⟨t, c, es, ts⟩
  ((r, s.table, s.events, s.others), s.console)

/-- A step has failed since there is no more input. -/
def InputEnded (outcome : Rest α) : Prop := outcome.1 = .error (.evaluation .endOfInput)

/-- A step that is local as a conversation, from every session. -/
def Local (x : Step α) : Prop := ∀ t es ts, Conversation.Local InputEnded (x.talk t es ts)

/-- A step that does nothing to the console. -/
theorem local_of_silent
    (h : ∀ t es ts, ∃ r t' es', ∀ c, x ⟨t, c, es, ts⟩ = (r, ⟨t', c, es', ts⟩)) : x.Local := by
  intro t es ts
  obtain ⟨r, t', es', hx⟩ := h t es ts
  have htalk : x.talk t es ts = fun c => ((r, t', es', ts), c) := by
    funext c
    simp only [talk, hx]
  rw [htalk]
  exact .silent _

theorem Local.bind {f : α → Step β} (hx : x.Local) (hf : ∀ a, (f a).Local) : (x >>= f).Local := by
  intro t es ts
  -- how the conversation goes on from the outcome of the first part
  let next : Rest α → Conversation (Rest β)
    | (.ok a, t', es', ts') => (f a).talk t' es' ts'
    | (.error e, rest) => fun c => ((.error e, rest), c)
  have htalk : (x >>= f).talk t es ts = x.talk t es ts >>= next := by
    funext c
    have hbind : (x.talk t es ts >>= next) c =
        next (x.talk t es ts c).1 (x.talk t es ts c).2 := rfl
    rw [hbind]
    simp only [talk, bind_apply]
    rcases x ⟨t, c, es, ts⟩ with ⟨_ | a, s⟩ <;> rfl
  rw [htalk]
  refine .bind (hx t es ts) ?_ ?_
  · rintro ⟨e | a, t', es', ts'⟩
    · exact .silent _
    · exact hf a t' es' ts'
  · rintro ⟨e | a, rest⟩ hended c
    · obtain rfl : e = .evaluation .endOfInput := Except.error.inj hended
      rfl
    · cases hended

/-- A local step leaves a later console. -/
theorem Local.before (h : x.Local) (s : Session) : s.console.Before (x s).2.console :=
  Conversation.Local.before (h s.table s.events s.others) s.console

theorem local_of_perform {act : Tables → Action α} (hact : ∀ ts, (act ts).Local)
    (hx : ∀ s, x s = Session.perform (act s.tables) s) : x.Local := by
  intro t es ts
  let finish : Except EvalError α → Rest α
    | .ok a => (.ok a, t, es, ts)
    | .error e => (.error (.evaluation e), t, es, ts)
  have htalk : x.talk t es ts =
      (show Conversation (Except EvalError α) from act (t :: ts)) >>= fun r c => (finish r, c) := by
    funext c
    have hbind : ((show Conversation (Except EvalError α) from act (t :: ts)) >>=
        fun r c => (finish r, c)) c = (finish (act (t :: ts) c).1, (act (t :: ts) c).2) := rfl
    rw [hbind]
    simp only [talk, hx, Session.perform, Session.tables]
    rcases act (t :: ts) c with ⟨_ | a, c'⟩ <;> rfl
  rw [htalk]
  refine .bind (hact (t :: ts)) (fun r => .silent _) ?_
  rintro _ rfl c
  rfl

end Step

namespace Session

variable {limits : Limits}

theorem install_local (operands : List Node) : (install operands).Local := by
  refine Step.local_of_silent fun t es ts => ?_
  unfold install
  cases procedureOf operands with
  | error e => exact ⟨_, _, _, fun c => rfl⟩
  | ok described =>
      obtain ⟨name, p⟩ := described
      exact ⟨.ok .unit, t.define name (.closure p scope), es ++ [.defined name p.params],
        fun _ => rfl⟩

/-- A statement that is no program is local. -/
theorem statement_local (limits : Limits) {n : Node} (hn : ∀ ns, n ≠ .program ns) :
    (statement limits n).Local := by
  intro t es ts
  by_cases hdefinition : ∃ name params body, n = .definition name params body
  · obtain ⟨name, params, body, rfl⟩ := hdefinition
    have hlookup : (lookup Node.definitionKeyword).Local :=
      Step.local_of_perform (fun ts => (Action.locality.lift (Eval.find ts scope _)).2) fun _ => rfl
    rw [statement]
    refine hlookup.bind (fun v => ?_) t es ts
    cases v with
    | definer => exact install_local _
    | _ => exact Step.local_of_silent fun t es _ => ⟨_, t, es, fun _ => rfl⟩
  · have hother : ∀ name params body, n ≠ .definition name params body :=
      fun name params body heq => hdefinition ⟨name, params, body, heq⟩
    have htalk : (statement limits n).talk t es ts =
        ((definitionCall? t n).elim (evaluate limits n) install).talk t es ts := by
      funext c
      simp only [Step.talk, statement_apply limits _ hn hother]
    rw [htalk]
    cases definitionCall? t n with
    | none =>
        have hevaluate : (evaluate limits n).Local :=
          Step.local_of_perform (fun ts => Eval.eval_local ts limits.depth n scope) fun _ => rfl
        exact hevaluate t es ts
    | some operands => exact install_local operands t es ts

/-- Local steps, each beside itself. -/
def locality (limits : Limits) : Step.Relation limits limits where
  Holds x y := x = y ∧ x.Local
  pure a := ⟨rfl, Step.local_of_silent fun t es _ => ⟨_, t, es, fun _ => rfl⟩⟩
  bind := by
    rintro α β x _ f g ⟨rfl, hx⟩ hfg
    obtain rfl : f = g := funext fun a => (hfg a).1
    exact ⟨rfl, hx.bind fun a => (hfg a).2⟩
  record e := ⟨rfl, Step.local_of_silent fun t es _ => ⟨_, t, es ++ [e], fun _ => rfl⟩⟩
  single _ hn := ⟨rfl, statement_local limits hn⟩

/-- Statements in a row are local. -/
theorem statements_local (limits : Limits) (ns : List Node) : (statements limits ns).Local :=
  ((locality limits).statements_holds ns).2

end Session

/-! ## Programs -/

open Conversation (Exchange)

/-- Evaluation is local in its input and only adds to its output.  Every evaluation, and every run of
a whole program, is an exchange: whether it succeeds or fails, it takes a part of the input from the
front and appends to the output, and what was written before makes no difference to its outcome, to
what it takes and to what it writes.  Where it takes whole lines and does not meet the end of the
input, it does the same in front of every other input, and leaves that. -/
theorem runs_see_their_lines_only :
    (∀ ts depth n s input, ∃ outcome taken rest written, input = taken ++ rest ∧
      Exchange (· = .error .endOfInput) (eval ts depth n s) outcome taken rest written) ∧
    ∀ limits ns table events others input, ∃ outcome taken rest written, input = taken ++ rest ∧
      Exchange Step.InputEnded ((Session.statements limits ns).talk table events others)
        outcome taken rest written :=
  ⟨Eval.eval_local, Session.statements_local⟩

/-- A program's text `(write (readline))`, as a tree. -/
def echo : Node := .call [.identifier "write", .call [.identifier "readline"]]

theorem runs_see_their_lines_only_echo :
    Exchange (· = .error .endOfInput) (eval [.initial] 9 echo (.top 0)) (.ok .unit)
      "ab\n".toList "cd".toList "ab\n" := by
  obtain ⟨outcome, taken, rest, written, hinput, hx⟩ :=
    runs_see_their_lines_only.1 [.initial] 9 echo (.top 0) "ab\ncd".toList
  -- the evaluation itself says which exchange this is
  have hecho : eval [.initial] 9 echo (.top 0) ⟨"ab\ncd".toList, ""⟩ =
      (.ok .unit, ⟨"cd".toList, "ab\n"⟩) := by rfl
  have hrun := hx.run ""
  rw [← hinput, hecho, String.empty_append] at hrun
  obtain ⟨rfl, hconsole⟩ := Prod.mk.inj hrun
  obtain ⟨rfl, rfl⟩ := Console.mk.inj hconsole
  obtain rfl : "ab\n".toList = taken := List.append_cancel_right hinput
  exact hx

end MiniLisp
