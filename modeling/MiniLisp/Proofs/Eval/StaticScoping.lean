/-
# MiniLisp.Proofs.Eval.StaticScoping — names that are bound where they are written are found.

A regular expression asks its scope for its free names, and for nothing else.  So if a regular scope
binds them, no evaluation in it ever meets a name that means nothing: what is evaluated inside is a
part of the expression, in the scope behind the names that are bound by then, or the body of a
closed procedure behind its arguments.  The values are regular again, which keeps all this going
when they are bound, put in lists and called later.
-/
import MiniLisp.Proofs.Eval.Origin
import MiniLisp.Proofs.Eval.Regular

namespace MiniLisp

/-! ## Results -/

/-- A regular value, or an error that is not about a name that is bound nowhere. -/
def WellScoped (ts : Tables) : Except EvalError Value → Prop
  | .ok v => v.Regular ts
  | .error e => Failure.kindOfEvaluation e ≠ .unbound

/-- A regular expression in a regular scope that binds its free names. -/
structure Node.Closed (ts : Tables) (n : Node) (s : Scope) : Prop where
  expression : n.Regular
  scope : s.Regular ts
  free : ∀ x ∈ n.freeNames, s.contains ts x = true

variable {ts : Tables} {s : Scope} {c : Console} {v : Value}

theorem EvalError.Other.wellScoped {e : EvalError} (h : e.Other) : WellScoped ts (.error e) := by
  cases e with
  | unbound => exact h.elim
  | _ => nofun

theorem Value.Plain.regular (h : v.Plain) : v.Regular ts := by
  constructor
  · intro p captured hp
    cases h <;> cases List.mem_singleton.mp hp
  · intro f _ hform
    cases h <;> cases List.mem_singleton.mp hform

namespace Eval

open Evaluation.Origin (checkArity_other runBuiltin_result)

theorem runBuiltin_wellScoped (b : Builtin) (args : List Value) (c : Console) :
    WellScoped ts (runBuiltin b args c).1 :=
  runBuiltin_result (fun _ h => h.regular) (fun _ h => h.wellScoped) b args c

/-- A value in scope, and then what is in scope for every regular value. -/
theorem bind_wellScoped {x : Action Value} {f : Value → Action Value}
    (hx : WellScoped ts (x c).1) (hf : ∀ v c', v.Regular ts → WellScoped ts (f v c').1) :
    WellScoped ts ((x >>= f) c).1 := by
  refine result_bind (fun e c' he => ?_) fun v c' hv => ?_
  · rwa [he] at hx
  · rw [hv] at hx
    exact hf v c' hx

theorem literal_wellScoped (t : Token) : WellScoped ts (literal t) := by
  cases t with
  | integer n => exact (Value.Plain.int n).regular
  | string text => exact (Value.Plain.str text).regular
  | _ => nofun

theorem find_wellScoped (hs : s.Regular ts) {x : String} (hx : ¬Reserved x)
    (hbound : s.contains ts x = true) : WellScoped ts (find ts s x) := by
  rw [Scope.contains_eq] at hbound
  obtain ⟨v, hv⟩ := Option.isSome_iff_exists.mp hbound
  rw [find, hv]
  exact hs.lookup? hx hv

/-! ## Calls -/

/-- Evaluators that give closed expressions results in scope. -/
abbrev KeepsScope (ts : Tables) (ev : Evaluator) : Prop :=
  ∀ {n s}, n.Closed ts s → ∀ c, WellScoped ts (ev n s c).1

section

variable {ev : Evaluator} (hev : KeepsScope ts ev) {operands : List Node}
include hev

/-- Operands in a row: each value is regular, or else the error is in scope. -/
theorem operands_wellScoped (hoperands : ∀ n ∈ operands, n.Closed ts s) (c : Console) :
    (∀ vs c', evalAll ev s operands c = (.ok vs, c') → ∀ v ∈ vs, v.Regular ts) ∧
      ∀ e c', evalAll ev s operands c = (.error e, c') → WellScoped ts (.error e) := by
  refine evalAll_origin (R := WellScoped ts) fun before n after vs c' hsplit _ => ?_
  exact hev (hoperands n (by simp [hsplit])) c'

theorem choice_wellScoped (hoperands : ∀ n ∈ operands, n.Closed ts s) (c : Console) :
    WellScoped ts (runForm ev s .choice operands c).1 := by
  match operands with
  | [condition, yes, no] =>
      refine bind_wellScoped (hev (hoperands condition (by simp)) c) fun v c' _ => ?_
      cases v with
      | bool b =>
          cases b with
          | true => exact hev (hoperands yes (by simp)) c'
          | false => exact hev (hoperands no (by simp)) c'
      | _ => nofun
  | [] | [_] | [_, _] | _ :: _ :: _ :: _ :: _ => nofun

/-- The body of a closed procedure is evaluated behind the arguments. -/
theorem runProcedure_wellScoped {p : Procedure} {captured : Scope} {args : List Value}
    (hcaptured : captured.Regular ts) (hp : p.Closed ts captured)
    (hargs : ∀ v ∈ args, v.Regular ts) (c : Console) :
    WellScoped ts (runProcedure ev p captured args c).1 := by
  refine result_lift_bind (fun e h => ?_) fun s' hbind => ?_
  · unfold Eval.bind at h
    split at h
    · cases h
    · cases h
      nofun
  · obtain ⟨hcount, rfl⟩ : args.length = p.params.length ∧
        captured.extend (p.params.zip args) = s' := by
      unfold Eval.bind at hbind
      split at hbind
      · next hcount => exact ⟨hcount, Except.ok.inj hbind⟩
      · cases hbind
    have hbody : ∀ n ∈ p.body, n.Closed ts (captured.extend (p.params.zip args)) := by
      refine fun n hn => ⟨hp.body n hn, hcaptured.extend hp.params hargs, fun x hx => ?_⟩
      rw [Scope.contains_extend, List.map_fst_zip hcount.ge]
      exact hp.free n hn x hx
    cases hempty : p.body with
    | nil => nofun
    | cons n ns =>
        refine evalBody_origin (fun before m after w c' hsplit _ => ?_) (by simp)
        exact hev (hbody m (by simp [hempty, hsplit])) c'

/-- A call, when the value of its operator is known and regular. -/
theorem apply_wellScoped (hv : v.Regular ts) (hoperands : ∀ n ∈ operands, n.Closed ts s)
    (c : Console) : WellScoped ts (apply ev s operands v c).1 := by
  obtain ⟨hvalues, herror⟩ := operands_wellScoped hev hoperands c
  cases v with
  | builtin b =>
      refine result_lift_bind (fun e h => (checkArity_other h).wellScoped) fun _ _ => ?_
      exact result_bind herror fun args c' _ => runBuiltin_wellScoped b args c'
  | form f =>
      refine result_lift_bind (fun e h => (checkArity_other h).wellScoped) fun _ _ => ?_
      cases f with
      | choice => exact choice_wellScoped hev hoperands c
      | list =>
          exact result_bind herror fun vs c' hvs => Value.regular_list (hvalues vs c' hvs)
      | binding => exact absurd List.mem_cons_self (hv.others .binding (.inl rfl))
      | procedure => exact absurd List.mem_cons_self (hv.others .procedure (.inr rfl))
  | closure p captured =>
      obtain ⟨hcaptured, hp⟩ := hv.closures List.mem_cons_self
      refine result_bind herror fun args c' hargs => ?_
      exact runProcedure_wellScoped hev hcaptured hp (hvalues args c' hargs) c'
  | _ => nofun

end

/-! ## Expressions -/

theorem call_closed {ns : List Node} (hns : ∀ n ∈ ns, n.Regular)
    (h : (Node.call ns).Closed ts s) : ∀ n ∈ ns, n.Closed ts s :=
  fun n hn => ⟨hns n hn, h.scope, fun x hx => h.free x (Node.mem_freeNames_call hns hn hx)⟩

/-- The value of a binding, and its body behind any regular value. -/
theorem binding_closed {x : String} {value body : Node} (hx : ¬Reserved x)
    (hvalue : value.Regular) (hbody : body.Regular) (h : (Node.binding x value body).Closed ts s) :
    value.Closed ts s ∧ ∀ v : Value, v.Regular ts → body.Closed ts (.frame x v s) := by
  refine ⟨⟨hvalue, h.scope, fun y hy => ?_⟩, fun v hv => ⟨hbody, h.scope.frame hx hv, ?_⟩⟩
  · exact h.free y (Node.mem_freeNames_binding.mpr (.inl hy))
  · intro y hy
    rw [Scope.contains_frame]
    by_cases hxy : x = y
    · exact .inl hxy
    · exact .inr (h.free y (Node.mem_freeNames_binding.mpr (.inr ⟨hy, Ne.symm hxy⟩)))

/-- The procedure that an expression makes is closed in the scope of the expression. -/
theorem procedure_closed {xs : List String} {body : Node} (hxs : ∀ x ∈ xs, ¬Reserved x)
    (hbody : body.Regular) (h : (Node.procedure xs body).Closed ts s) :
    Procedure.Closed ts s { name := none, params := xs, body := [body] } := by
  refine ⟨hxs, by simpa using hbody, fun n hn y hy => ?_⟩
  obtain rfl := List.mem_singleton.mp hn
  by_cases hxy : y ∈ xs
  · exact .inl hxy
  · exact .inr (h.free y (Node.mem_freeNames_procedure.mpr ⟨hy, hxy⟩))

/-- With any room, the result of a closed expression is in scope. -/
theorem eval_wellScoped (ts : Tables) (depth : Nat) : KeepsScope ts (eval ts depth) := by
  -- all that goes on inside has less room, the bodies of procedures too
  induction depth with
  | zero => nofun
  | succ depth ih =>
      intro n s h c
      have horder : s.InOrder ts := (Scope.regular_iff.mp h.scope).1
      cases h.expression with
      | literal t => exact literal_wellScoped t
      | identifier hx => exact find_wellScoped h.scope hx (h.free _ (List.mem_singleton_self _))
      | @call ns hns =>
          cases ns with
          | nil =>
              show (Value.list []).Regular ts
              exact Value.regular_list (by simp)
          | cons head operands =>
              have hparts := call_closed hns h
              rw [eval_call]
              refine bind_wellScoped (ih (hparts head List.mem_cons_self) c) fun v c' hv => ?_
              cases v.isCallable with
              | false => nofun
              | true =>
                  have hoperands : ∀ n ∈ operands, n.Closed ts s :=
                    fun n hn => hparts n (List.mem_cons_of_mem head hn)
                  exact apply_wellScoped ih hv hoperands c'
      | @binding x value body hx hvalue hbody =>
          -- the name of the form is no regular expression, but what it stands for is known
          cases depth with
          | zero => nofun
          | succ depth =>
              obtain ⟨hvalue, hbody⟩ := binding_closed hx hvalue hbody h
              rw [eval_binding horder.binding]
              exact bind_wellScoped (ih hvalue c) fun v c' hv => ih (hbody v hv) c'
      | @procedure xs body hxs hbody =>
          have hclosed := procedure_closed hxs hbody h
          rcases Budgeted.delayed_procedure horder.procedure xs body (depth + 1) with
            ⟨-, hgone⟩ | ⟨_, -, -, hmade⟩
          · have hgone : eval ts (depth + 1) (.procedure xs body) s = throw .tooDeep := hgone
            rw [hgone]
            nofun
          · have hmade : eval ts (depth + 1) (.procedure xs body) s = pure (.closure _ s) := hmade
            rw [hmade]
            exact Value.regular_closure h.scope hclosed

end Eval

/-- Static scoping is sound.  A regular expression, in a regular scope that binds its free names,
never fails for a name that is bound nowhere, whatever room there is and whatever there is to read.
Its value is regular, so every procedure in it was made in a regular scope, has parameters that may
be bound and a regular body, and each free name of the body is a parameter or bound in that scope.
-/
theorem regular_expressions_find_names (ts : Tables) (n : Node) (s : Scope) (hn : n.Regular)
    (hs : s.Regular ts) (hfree : ∀ x ∈ n.freeNames, s.contains ts x = true) (depth : Nat)
    (c : Console) :
    (∀ e, (eval ts depth n s c).1 = .error e → Failure.kindOfEvaluation e ≠ .unbound) ∧
    ∀ v, (eval ts depth n s c).1 = .ok v → v.Regular ts := by
  have hresult := Eval.eval_wellScoped ts depth ⟨hn, hs, hfree⟩ c
  constructor
  · intro e he
    rwa [he] at hresult
  · intro v hv
    rwa [hv] at hresult

/-! ## At top level -/

/-- The names that every program starts with: forms have their own names, and there are no
procedures. -/
theorem Table.initial_forms {x : String} {v w : Value} (h : initial.lookup? x = some v)
    (hw : w ∈ v.leaves) : (∀ f, w = .form f → x = f.name) ∧ ∀ p s, w ≠ .closure p s := by
  have hmem : (x, v) ∈ defaults := mem_of_get? h
  rcases native_of_mem_defaults hmem with ⟨b, hb⟩ | ⟨f, hf⟩ | hdefiner
  · obtain rfl : v = .builtin b := hb
    obtain rfl := List.mem_singleton.mp hw
    exact ⟨nofun, nofun⟩
  · obtain rfl : v = .form f := hf
    obtain rfl := List.mem_singleton.mp hw
    refine ⟨?_, nofun⟩
    rintro _ ⟨⟩
    cases f <;> simpa [defaults] using hmem
  · obtain rfl : v = .definer := hdefiner
    obtain rfl := List.mem_singleton.mp hw
    exact ⟨nofun, nofun⟩

/-- The scope of statements is regular, if names are bound as every program starts or to closed
procedures made at top level, and the two names of forms are not bound anew. -/
theorem Scope.regular_top {t : Table} (h : ∀ x, t.lookup? x = Table.initial.lookup? x ∨
    ¬Reserved x ∧ ∃ p, t.lookup? x = some (.closure p (.top 0)) ∧ p.Closed [t] (.top 0)) :
    (Scope.top 0).Regular [t] := by
  have hreserved : ∀ {x}, Reserved x → t.lookup? x = Table.initial.lookup? x :=
    fun hx => (h _).resolve_right fun hother => hother.1 hx
  -- a leaf of what is bound is such a procedure, or it was there from the start
  have hleaf : ∀ {x v w}, (Scope.top 0).Binds [t] x v → w ∈ v.leaves →
      (∃ p, w = .closure p (.top 0) ∧ p.Closed [t] (.top 0)) ∨
        (∀ f, w = .form f → x = f.name) ∧ ∀ p s, w ≠ .closure p s := by
    intro x v w hv hw
    cases hv with
    | frame hframe => cases hframe
    | table htable =>
        have hlookup : t.lookup? x = some v := htable
        obtain hsame | ⟨-, p, hp, hclosed⟩ := h x
        · rw [hsame] at hlookup
          exact .inr (Table.initial_forms hlookup hw)
        · obtain rfl := Option.some.inj (hp.symm.trans hlookup)
          exact .inl ⟨p, List.mem_singleton.mp hw, hclosed⟩
  refine regular_of_invariant (P := (· = .top 0)) ?_ ?_ rfl
  · rintro _ rfl
    refine ⟨hreserved (.inl rfl), hreserved (.inr rfl), fun hv hx f hf hform => ?_, fun hv hp => ?_⟩
    · obtain ⟨p, hclosure, -⟩ | ⟨hname, -⟩ := hleaf hv hform
      · cases hclosure
      · rcases hf with rfl | rfl
        · exact hx (.inl (hname _ rfl))
        · exact hx (.inr (hname _ rfl))
    · obtain ⟨p, hclosure, hclosed⟩ | ⟨-, hnone⟩ := hleaf hv hp
      · cases hclosure
        exact hclosed
      · exact absurd rfl (hnone _ _)
  · rintro _ x v p captured rfl hv hp
    obtain ⟨p, hclosure, -⟩ | ⟨-, hnone⟩ := hleaf hv hp
    · cases hclosure
      rfl
    · exact absurd rfl (hnone _ _)

/-- The procedure that counts down: `(defun down (n) (if (< n 1) () (down (- n 1))))`. -/
def countdown : Procedure where
  name := some "down"
  params := ["n"]
  body := [.call [.identifier "if",
    .call [.identifier "<", .identifier "n", .literal (.integer 1)], .call [],
    .call [.identifier "down",
      .call [.identifier "-", .identifier "n", .literal (.integer 1)]]]]

/-- The table where it is defined. -/
def countdownTable : Table := Table.initial.define "down" (.closure countdown (.top 0))

/-- The expression `(let k 1 (list (lambda (x) (down (- x k))) (down 2)))`. -/
def stepDown : Node :=
  .binding "k" (.literal (.integer 1)) (.call [.identifier "list",
    .procedure ["x"] (.call [.identifier "down",
      .call [.identifier "-", .identifier "x", .identifier "k"]]),
    .call [.identifier "down", .literal (.integer 2)]])

theorem countdown_closed : countdown.Closed [countdownTable] (.top 0) := by
  refine ⟨by decide, ?_, by decide⟩
  simp only [countdown, List.mem_singleton, forall_eq]
  refine .call ?_
  simp only [List.forall_mem_cons]
  refine ⟨.identifier (by decide), .call ?_, .call nofun, .call ?_, nofun⟩
  · simp only [List.forall_mem_cons]
    exact ⟨.identifier (by decide), .identifier (by decide), .literal _, nofun⟩
  · simp only [List.forall_mem_cons]
    refine ⟨.identifier (by decide), .call ?_, nofun⟩
    simp only [List.forall_mem_cons]
    exact ⟨.identifier (by decide), .identifier (by decide), .literal _, nofun⟩

theorem countdownTable_regular : (Scope.top 0).Regular [countdownTable] := by
  refine Scope.regular_top fun x => ?_
  rw [countdownTable, Table.lookup?_define]
  by_cases hx : x = "down"
  · rw [if_pos hx]
    exact .inr ⟨by rw [hx]; decide, countdown, rfl, countdown_closed⟩
  · rw [if_neg hx]
    exact .inl rfl

theorem regular_expressions_find_names_stepDown :
    let s : Scope := .top 0
    let step : Procedure :=
      { name := none, params := ["x"], body := [.call [.identifier "down",
        .call [.identifier "-", .identifier "x", .identifier "k"]]] }
    stepDown.Regular ∧ s.Regular [countdownTable] ∧
      (∀ x ∈ stepDown.freeNames, s.contains [countdownTable] x = true) ∧
      (Scope.frame "k" (.int 1) s).Regular [countdownTable] ∧
      step.Closed [countdownTable] (.frame "k" (.int 1) s) := by
  intro s step
  have hregular : stepDown.Regular := by
    refine .binding (by decide) (.literal _) (.call ?_)
    simp only [List.forall_mem_cons]
    refine ⟨.identifier (by decide), .procedure (by decide) (.call ?_), .call ?_, nofun⟩
    · simp only [List.forall_mem_cons]
      refine ⟨.identifier (by decide), .call ?_, nofun⟩
      simp only [List.forall_mem_cons]
      exact ⟨.identifier (by decide), .identifier (by decide), .identifier (by decide), nofun⟩
    · simp only [List.forall_mem_cons]
      exact ⟨.identifier (by decide), .literal _, nofun⟩
  have hfree : ∀ x ∈ stepDown.freeNames, s.contains [countdownTable] x = true := by decide
  obtain ⟨-, hvalue⟩ := regular_expressions_find_names [countdownTable] stepDown s hregular
    countdownTable_regular hfree 12 {}
  have hclosure := (hvalue (.list [.closure step (.frame "k" (.int 1) s), .list []]) rfl).closures
    List.mem_cons_self
  exact ⟨hregular, countdownTable_regular, hfree, hclosure⟩

end MiniLisp
