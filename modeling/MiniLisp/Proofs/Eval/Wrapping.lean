/-
# MiniLisp.Proofs.Eval.Wrapping — a function inside a procedure that hands its arguments on.

Builtins and procedures are eager: they receive values, so it should not matter where the values
come from.  A wrapper of such a function is a procedure that calls it with its own parameters.  A
builtin checks the number of operands before they are evaluated, and a procedure does so afterwards;
when the number is right, nothing can tell the wrapper from the function, but for the room that it
takes.
-/
import MiniLisp.Proofs.Eval.NestedBindings

namespace MiniLisp

/-- A function of `count` arguments: a builtin of this arity, or a procedure with as many
parameters. -/
inductive Value.Eager (count : Nat) : Value → Prop
  | builtin {b : Builtin} (h : b.arity = count) : Eager count (.builtin b)
  | closure {p : Procedure} {s : Scope} (h : p.params.length = count) : Eager count (.closure p s)

/-- A procedure that calls `f` with its parameters. -/
def Node.wrapper (f : String) (params : List String) : Node :=
  .procedure params (.call (.identifier f :: params.map .identifier))

namespace Budgeted

variable {α : Type} {ts : Tables} {s : Scope} {v : Value} {room : Nat}

/-! ## One computation on both sides -/

/-- A computation that goes on with more room where it gave out goes alongside itself. -/
theorem alongside_self {x : Budgeted α}
    (h : ∀ d d', d ≤ d' → GoesOn Console.Before .tooDeep (x.run d) (x.run d')) :
    Alongside (· = ·) room x x := by
  have hself : ∀ d, Action.Agree (· = ·) EvalError.SameReport (x.run d) (x.run d) :=
    fun d => .refl (fun _ => rfl) (fun _ => ⟨rfl, rfl⟩) _
  constructor
  · intro d d' hd
    exact .of_agree (hself d) (h d d' (by omega))
  · intro d d' hd
    exact .of_agree (hself d).flip (h d d' (by omega))

theorem eval_self (ts : Tables) (n : Node) (s : Scope) :
    Alongside (· = ·) room (eval ts n s) (eval ts n s) :=
  alongside_self fun _ _ hd => Eval.eval_goesOn ts n s hd

/-- The same operands, and then what goes alike for as many values. -/
theorem evalAll_bind_alongside {β : Type} {W : α → β → Prop} {ns : List Node}
    {f : List Value → Budgeted α} {g : List Value → Budgeted β}
    (h : ∀ vs, vs.length = ns.length → Alongside W room (f vs) (g vs)) :
    Alongside W room ((evalAll ts ns s).bind f) ((evalAll ts ns s).bind g) := by
  induction ns generalizing f g with
  | nil =>
      rw [evalAll_nil_bind, evalAll_nil_bind]
      exact h [] rfl
  | cons n ns ih =>
      rw [evalAll_cons_bind, evalAll_cons_bind]
      refine (eval_self ts n s).bind ?_
      rintro v _ rfl
      exact ih fun vs hvs => h (v :: vs) (congrArg (· + 1) hvs)

/-! ## Functions and their arguments -/

/-- What a function does with its arguments. -/
def receive (ts : Tables) : Value → List Value → Budgeted Value
  | .builtin b, args =>
    { run := fun _ => Eval.runBuiltin b args
      run_local := fun _ => (Action.locality.runBuiltin_holds b args).2 }
  | .closure p captured, args => runProcedure ts p captured args
  | v, _ =>
    { run := fun _ => throw (.notApplicable v)
      run_local := fun _ => (Action.locality.throw _).2 }

theorem receive_self (hv : v.Eager room) (args : List Value) {more : Nat} :
    Alongside (· = ·) more (receive ts v args) (receive ts v args) := by
  refine alongside_self fun d d' hd => ?_
  cases hv with
  | builtin => exact Action.outlasting.runBuiltin_holds _ args
  | closure =>
      have hev : Action.outlasting.Follows (MiniLisp.eval ts d) (MiniLisp.eval ts d') :=
        fun n s => Eval.eval_goesOn ts n s hd
      exact Action.outlasting.runProcedure_holds hev _ _ args

/-- A function evaluates its operands from left to right, when there are as many as it takes. -/
theorem apply_eager {operands : List Node} (hv : v.Eager operands.length) :
    apply ts s operands v = (evalAll ts operands s).bind (receive ts v) := by
  cases hv with
  | @builtin b hcount =>
      have hcheck : Eval.checkArity b.name (some b.arity) operands.length = .ok () := by
        rw [Eval.checkArity, hcount, if_pos rfl]
      ext depth : 2
      funext c
      simp only [apply, Eval.apply, hcheck, lift_bind_apply]
      rfl
  | closure => rfl

/-- Names in a row take room for one evaluation, if there are any. -/
theorem delayed_names {xs : List String} {vs : List Value}
    (h : List.Forall₂ (fun x v => s.lookup? ts x = some v) xs vs) :
    Delayed 1 (.pure vs) (evalAll ts (xs.map .identifier) s) := by
  intro d
  cases d with
  | zero =>
      cases h with
      | nil => exact .inr ⟨0, Nat.le_refl 0, Nat.zero_le _, rfl⟩
      | cons => exact .inl ⟨Nat.one_pos, rfl⟩
  | succ d =>
      refine .inr ⟨d, Nat.le_succ d, Nat.le_refl _, ?_⟩
      show Eval.evalAll (MiniLisp.eval ts (d + 1)) s (xs.map .identifier) = Pure.pure vs
      induction h with
      | nil => rfl
      | @cons x v xs vs hx _ ih =>
          have hfind : Eval.find ts s x = .ok v := by rw [Eval.find, hx]
          rw [List.map_cons, Eval.evalAll, ih, MiniLisp.eval, hfind]
          rfl

/-- Names in a row stand for their values. -/
theorem names_bind_alongside {xs : List String} {vs : List Value} {f : List Value → Budgeted α}
    (h : List.Forall₂ (fun x v => s.lookup? ts x = some v) xs vs)
    (hf : ∀ ws, Alongside (· = ·) 1 (f ws) (f ws)) :
    Alongside (· = ·) 1 ((evalAll ts (xs.map .identifier) s).bind f) (f vs) := by
  have hvalues : Alongside (· = ·) 1 (evalAll ts (xs.map .identifier) s) (.pure vs) :=
    Alongside.left (alongside_self fun _ _ _ => .refl Console.Before.refl) (delayed_names h)
  show Alongside (· = ·) 1 _ ((Budgeted.pure vs).bind f)
  refine hvalues.bind ?_
  rintro ws _ rfl
  exact hf ws

/-- The body of a wrapper hands the arguments on. -/
theorem wrapperBody_alongside {f : String} {params : List String} {args : List Value}
    (hf : s.lookup? ts f = some v) (hv : v.Eager params.length) (hparams : params.Nodup)
    (hfresh : f ∉ params) (hcount : args.length = params.length) :
    Alongside (· = ·) 3
      (eval ts (.call (.identifier f :: params.map .identifier)) (s.extend (params.zip args)))
      (receive ts v args) := by
  have hf' : (s.extend (params.zip args)).lookup? ts f = some v := by
    rw [Scope.lookup?_extend_of_notMem, hf]
    rintro b hb rfl
    exact hfresh (List.of_mem_zip hb).1
  have hcallable : v.isCallable = true := by cases hv <;> rfl
  have hcall := delayed_call hcallable (delayed_identifier hf') (params.map .identifier)
  rw [apply_eager (by rwa [List.length_map])] at hcall
  -- the names of the parameters have the arguments for their values
  have hnames := Scope.lookups_extend ts hparams hcount s
  exact (names_bind_alongside hnames fun ws => receive_self hv ws).left hcall

end Budgeted

open Budgeted (Alongside)

/-- Wrapping a function changes nothing.  Let the name of the procedure form stand for it, let `f`
be bound to a builtin or a procedure of as many arguments as there are parameters, and let the
parameters be different from each other and from `f`.  Then the call of a wrapper that is made for
it does the same to every console as the call of `f`, with any operands, and they end with the same
value, or with errors of one kind in the same words.  They may need different room.  Where one of
them gives out, what it has done is the beginning of what the other one does. -/
theorem wrapper_calls_alike (ts : Tables) (s : Scope) (f : String) (v : Value)
    (params : List String) (operands : List Node)
    (hlambda : s.lookup? ts SpecialForm.procedure.name = some (.form .procedure))
    (hf : s.lookup? ts f = some v) (hv : v.Eager params.length) (hparams : params.Nodup)
    (hfresh : f ∉ params) (hcount : operands.length = params.length) :
    Alongside (· = ·) 8 (Budgeted.eval ts (.call (.wrapper f params :: operands)) s)
      (Budgeted.eval ts (.call (.identifier f :: operands)) s) := by
  have hwrapped := Budgeted.delayed_bindAtOnce hlambda (params.zip operands)
    (.call (.identifier f :: params.map .identifier))
  rw [Node.bindAtOnce, List.map_fst_zip hcount.ge, List.map_snd_zip hcount.le] at hwrapped
  have hcallable : v.isCallable = true := by cases hv <;> rfl
  have hcall := Budgeted.delayed_call hcallable (Budgeted.delayed_identifier hf) operands
  rw [Budgeted.apply_eager (by rwa [hcount])] at hcall
  refine Alongside.right (Alongside.left ?_ hwrapped) hcall
  exact Budgeted.evalAll_bind_alongside fun args hargs =>
    Budgeted.wrapperBody_alongside hf hv hparams hfresh (hargs.trans hcount)

/-- The operands of a sum: the first writes a line and has no number for its value. -/
def writeAndOne : List Node :=
  [.call [.identifier "write", .literal (.string "a")], .literal (.integer 1)]

theorem wrapper_calls_alike_writeAndOne :
    let s : Scope := .top 0
    s.lookup? [.initial] SpecialForm.procedure.name = some (.form .procedure) ∧
      s.lookup? [.initial] "+" = some (.builtin .add) ∧
      ["x", "lambda"].Nodup ∧ "+" ∉ ["x", "lambda"] ∧
      (eval [.initial] 5 (.call (.wrapper "+" ["x", "lambda"] :: writeAndOne)) s {}).2.output =
        "a\n" ∧
      ∀ d, 13 ≤ d → (eval [.initial] d (.call (.identifier "+" :: writeAndOne)) s {}).2.output =
        "a\n" := by
  intro s
  have hlambda : s.lookup? [.initial] SpecialForm.procedure.name = some (.form .procedure) := rfl
  have hf : s.lookup? [.initial] "+" = some (.builtin .add) := rfl
  have hparams : ["x", "lambda"].Nodup := by decide
  have hfresh : "+" ∉ ["x", "lambda"] := by decide
  have halongside := wrapper_calls_alike [.initial] s "+" (.builtin .add) ["x", "lambda"]
    writeAndOne hlambda hf (.builtin rfl) hparams hfresh rfl
  have hwrapped : eval [.initial] 5 (.call (.wrapper "+" ["x", "lambda"] :: writeAndOne)) s {} =
      (.error (.notIntegers .add .unit (.int 1)), ⟨[], "a\n"⟩) := rfl
  refine ⟨hlambda, hf, hparams, hfresh, congrArg (·.2.output) hwrapped, fun d hd => ?_⟩
  have hrun : (Budgeted.eval [.initial] (.call (.wrapper "+" ["x", "lambda"] :: writeAndOne))
      s).run 5 {} = _ := hwrapped
  rcases halongside.forth hd {} with ⟨hsame, -⟩ | ⟨hgone, -⟩
  · rw [hrun] at hsame
    exact congrArg Console.output hsame.symm
  · rw [hrun] at hgone
    cases hgone

end MiniLisp
