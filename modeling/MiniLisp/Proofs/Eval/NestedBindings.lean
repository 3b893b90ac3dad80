/-
# MiniLisp.Proofs.Eval.NestedBindings — a call as bindings in a row.

A procedure that is called where it is written binds its parameters to the values of the operands,
all of them at once.  Binding forms, one in the other, bind the same names to the same values one by
one, so that each value but the first is computed where some of the names are bound already.  If the
later values do not mention these names, nothing but the room that is needed can tell the two apart.
-/
import MiniLisp.Proofs.Eval.Renaming
import MiniLisp.Proofs.Eval.Room

namespace MiniLisp

/-! ## The two expressions -/

namespace Node

/-- The expression that makes a procedure. -/
def procedure (params : List String) (body : Node) : Node :=
  .call [.identifier SpecialForm.procedure.name, .call (params.map .identifier), body]

/-- The call of a procedure that is made for it: each name is bound to the value of its expression.
-/
def bindAtOnce (bs : List (String × Node)) (body : Node) : Node :=
  .call (.procedure (bs.map Prod.fst) body :: bs.map Prod.snd)

/-- Binding forms, one in the other; the first of them is the outermost. -/
def bindInTurn (bs : List (String × Node)) (body : Node) : Node :=
  bs.foldr (fun b body => .binding b.1 b.2 body) body

end Node

/-- Two scopes of which the second is the first one, `s`, behind more bindings of the names `xs`. -/
def Scope.Widened (xs : List String) (s s' t' : Scope) : Prop :=
  s' = s ∧ ∃ more : List (String × Value), (∀ b ∈ more, b.1 ∈ xs) ∧ t' = s.extend more

/-! ## What they do -/

namespace Budgeted

variable {ts : Tables} {s : Scope}

/-- A procedure with a body of one expression, on as many arguments as it has parameters. -/
theorem runProcedure_eq {params : List String} {args : List Value}
    (hcount : args.length = params.length) (body : Node) :
    runProcedure ts { name := none, params, body := [body] } s args =
      eval ts body (s.extend (params.zip args)) := by
  ext depth : 2
  funext c
  have hbind : Eval.bind { name := none, params, body := [body] } s args =
      .ok (s.extend (params.zip args)) := if_pos hcount
  simp only [runProcedure, Eval.runProcedure, hbind, lift_bind_apply]
  simp [eval, Eval.evalBody]

/-- Where its name stands for the form, a binding takes room for two more evaluations. -/
theorem delayed_binding
    (hlet : s.lookup? ts SpecialForm.binding.name = some (.form .binding)) (x : String)
    (value body : Node) :
    Delayed 2 ((eval ts value s).bind fun v => eval ts body (.frame x v s))
      (eval ts (.binding x value body) s) :=
  delayed_call rfl (delayed_identifier hlet) [.identifier x, value, body]

theorem delayed_procedure
    (hlambda : s.lookup? ts SpecialForm.procedure.name = some (.form .procedure))
    (params : List String) (body : Node) :
    Delayed 2 (.pure (.closure { name := none, params, body := [body] } s))
      (eval ts (.procedure params body) s) := by
  have hparams : Eval.parameters SpecialForm.procedure.name (.call (params.map .identifier)) =
      .ok params := Eval.parameters_eq_ok_iff.mpr rfl
  have hmade : apply ts s [.call (params.map .identifier), body] (.form .procedure) =
      .pure (.closure { name := none, params, body := [body] } s) := by
    ext depth : 2
    show (liftM (Eval.parameters _ _) >>= _ : Action Value) = _
    rw [hparams]
    rfl
  rw [← hmade]
  exact delayed_call rfl (delayed_identifier hlambda) _

/-- The call takes room for three more evaluations. -/
theorem delayed_bindAtOnce
    (hlambda : s.lookup? ts SpecialForm.procedure.name = some (.form .procedure))
    (bs : List (String × Node)) (body : Node) :
    Delayed 3 ((evalAll ts (bs.map Prod.snd) s).bind fun vs =>
        eval ts body (s.extend ((bs.map Prod.fst).zip vs)))
      (eval ts (.bindAtOnce bs body) s) := by
  have hrun : (evalAll ts (bs.map Prod.snd) s).bind
        (runProcedure ts { name := none, params := bs.map Prod.fst, body := [body] } s) =
      (evalAll ts (bs.map Prod.snd) s).bind fun vs =>
        eval ts body (s.extend ((bs.map Prod.fst).zip vs)) :=
    evalAll_bind_congr fun vs hvs => runProcedure_eq (by simpa using hvs) body
  rw [← hrun]
  exact delayed_call rfl (delayed_procedure hlambda _ body) _

/-- Operands and then the body, beside binding forms.  On the one side all operands are evaluated in
`s`, on the other side in `s` behind the names that are bound already, `done`.  The bodies are
evaluated in `t` and `t'`, behind what is bound to the operands. -/
theorem evalAll_alongside_bindInTurn {xs : List String} {bs : List (String × Node)} {body : Node}
    (done : List (String × Value)) {t t' : Scope}
    (hnames : ∀ b ∈ bs, b.1 ∈ xs) (hdone : ∀ b ∈ done, b.1 ∈ xs)
    (hlet : s.lookup? ts SpecialForm.binding.name = some (.form .binding))
    (hxs : SpecialForm.binding.name ∉ xs)
    (hfree : ∀ d ∈ done, ∀ b ∈ bs, d.1 ∉ b.2.identifiers)
    (hlater : bs.Pairwise fun b b' => b.1 ∉ b'.2.identifiers)
    (ht' : t' = s.extend done)
    (hscopes : Scope.Alike ts (Scope.Widened xs s) body.identifiers t t') :
    Alongside (Value.Alike ts (Scope.Widened xs s)) (2 * bs.length)
      ((evalAll ts (bs.map Prod.snd) s).bind fun vs =>
        eval ts body (t.extend ((bs.map Prod.fst).zip vs)))
      (eval ts (.bindInTurn bs body) t') := by
  induction bs generalizing done t t' with
  | nil =>
      rw [List.map_nil, List.map_nil, evalAll_nil_bind]
      exact Eval.eval_alongside hscopes
  | cons b bs ih =>
      obtain ⟨hb, hbs⟩ := List.forall_mem_cons.mp hnames
      obtain ⟨hfirst, hrest⟩ := List.pairwise_cons.mp hlater
      -- the names bound already do not matter for the next operand
      have hoperand : Scope.Alike ts (Scope.Widened xs s) b.2.identifiers s t' := by
        refine .of_eq (.base ⟨rfl, done, hdone, ht'⟩) fun x hx => ?_
        rw [ht', Scope.lookup?_extend_of_notMem]
        rintro d hd rfl
        exact hfree d hd b List.mem_cons_self hx
      have hlet' : t'.lookup? ts SpecialForm.binding.name = some (.form .binding) := by
        rw [ht', Scope.lookup?_extend_of_notMem, hlet]
        rintro d hd hname
        exact hxs (hname ▸ hdone d hd)
      rw [List.map_cons, evalAll_cons_bind]
      refine Alongside.right (.bind ((Eval.eval_alongside hoperand).mono (Nat.zero_le _)) ?_)
        (delayed_binding hlet' b.1 b.2 (.bindInTurn bs body))
      intro v w hvw
      have hdone' : ∀ d ∈ done ++ [(b.1, w)], d.1 ∈ xs := by
        intro d hd
        rcases List.mem_append.mp hd with hd | hd
        · exact hdone d hd
        · rw [List.mem_singleton.mp hd]
          exact hb
      have hfree' : ∀ d ∈ done ++ [(b.1, w)], ∀ b' ∈ bs, d.1 ∉ b'.2.identifiers := by
        intro d hd b' hb'
        rcases List.mem_append.mp hd with hd | hd
        · exact hfree d hd b' (List.mem_cons_of_mem b hb')
        · rw [List.mem_singleton.mp hd]
          exact hfirst b' hb'
      have hframe : Scope.frame b.1 w t' = s.extend (done ++ [(b.1, w)]) := by
        rw [ht', Scope.extend, Scope.extend, List.foldl_append]
        rfl
      exact ih _ hbs hdone' hfree' hrest hframe (hscopes.frame b.1 hvw)

end Budgeted

open Budgeted (Alongside)

/-- A procedure that is called where it is written does what binding forms do, one in the other.
Let the names of the two forms stand for them, and let no name be that of the binding form, nor
occur in a later operand; a name may be bound more than once.  Then the two expressions do the same
to every console, and they end with errors of one kind in the same words, or with values that differ
in bindings of these names only, in scopes of procedures that do not see the difference.  They may
need different room.  Where one of them gives out, what it has done is the beginning of what the
other one does. -/
theorem call_is_nested_bindings (ts : Tables) (s : Scope) (bs : List (String × Node)) (body : Node)
    (hlet : s.lookup? ts SpecialForm.binding.name = some (.form .binding))
    (hlambda : s.lookup? ts SpecialForm.procedure.name = some (.form .procedure))
    (hnames : SpecialForm.binding.name ∉ bs.map Prod.fst)
    (hlater : bs.Pairwise fun b b' => b.1 ∉ b'.2.identifiers) :
    Alongside (Value.Alike ts (Scope.Widened (bs.map Prod.fst) s)) (2 * bs.length + 3)
      (Budgeted.eval ts (.bindAtOnce bs body) s) (Budgeted.eval ts (.bindInTurn bs body) s) := by
  refine Alongside.left ?_ (Budgeted.delayed_bindAtOnce hlambda bs body)
  exact Budgeted.evalAll_alongside_bindInTurn [] (fun b hb => List.mem_map_of_mem hb) (by simp)
    hlet hnames (by simp) hlater rfl (.of_eq (.same s) fun _ _ => rfl)

/-- The procedure that adds one to a number. -/
def addOne : Procedure where
  name := none
  params := ["z"]
  body := [.call [.identifier "+", .identifier "z", .literal (.integer 1)]]

/-- Two bindings: the first writes a line, the second makes this procedure. -/
def writeThenMake : List (String × Node) :=
  [("x", .call [.identifier "write", .literal (.string "a")]),
    ("f", .call (.identifier "lambda" :: .call (addOne.params.map .identifier) :: addOne.body))]

theorem call_is_nested_bindings_writeThenMake :
    let s : Scope := .top 0
    s.lookup? [.initial] SpecialForm.binding.name = some (.form .binding) ∧
      s.lookup? [.initial] SpecialForm.procedure.name = some (.form .procedure) ∧
      SpecialForm.binding.name ∉ writeThenMake.map Prod.fst ∧
      writeThenMake.Pairwise (fun b b' => b.1 ∉ b'.2.identifiers) ∧
      (eval [.initial] 11 (.bindInTurn writeThenMake (.identifier "f")) s {}).2.output = "a\n" ∧
      Value.Alike [.initial] (Scope.Widened ["x", "f"] s) (.closure addOne s)
        (.closure addOne (.frame "x" .unit s)) := by
  intro s
  have hlet : s.lookup? [.initial] SpecialForm.binding.name = some (.form .binding) := rfl
  have hlambda : s.lookup? [.initial] SpecialForm.procedure.name = some (.form .procedure) := rfl
  have hnames : SpecialForm.binding.name ∉ writeThenMake.map Prod.fst := by decide
  have hlater : writeThenMake.Pairwise fun b b' => b.1 ∉ b'.2.identifiers := by decide
  have halongside :=
    call_is_nested_bindings [.initial] s writeThenMake (.identifier "f") hlet hlambda hnames hlater
  have hcall : eval [.initial] 4 (.bindAtOnce writeThenMake (.identifier "f")) s {} =
      (.ok (.closure addOne s), ⟨[], "a\n"⟩) := rfl
  have hturn : (eval [.initial] 11 (.bindInTurn writeThenMake (.identifier "f")) s {}).1 =
      .ok (.closure addOne (.frame "x" .unit s)) := rfl
  refine ⟨hlet, hlambda, hnames, hlater, ?_⟩
  rcases halongside.forth (Nat.le_refl 11) {} with ⟨hsame, hresult⟩ | ⟨hgone, -⟩
  · have hcallRun : (Budgeted.eval [.initial] (.bindAtOnce writeThenMake (.identifier "f")) s).run 4
        {} = _ := hcall
    have hturnRun : ((Budgeted.eval [.initial] (.bindInTurn writeThenMake (.identifier "f")) s).run
        11 {}).1 = _ := hturn
    rw [hcallRun, hturnRun] at hresult
    rw [hcallRun] at hsame
    refine ⟨congrArg Console.output hsame.symm, ?_⟩
    cases hresult with | ok h => exact h
  · exact absurd (hgone.symm.trans (congrArg Prod.fst hcall)) (by simp)

end MiniLisp
