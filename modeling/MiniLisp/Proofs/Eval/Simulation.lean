/-
# MiniLisp.Proofs.Eval.Simulation — two evaluations side by side.

Much of what can be said of evaluation compares two runs: in two scopes, against two tables, of two
expressions.  A `Simulation` is a choice of what may differ, as relations of values, of errors, and
of expressions in their scopes, together with the few facts that each way to make or to take apart a
value, a scope or an error asks of them.  The induction over evaluation is done once, in
`Simulation.eval`: in every simulation related expressions do the same to every console and have
related results.  A property of a single run is a simulation of the run with itself.
-/
import Mathlib.Data.List.Forall2
import MiniLisp.Eval
import MiniLisp.Proofs.Computation

namespace MiniLisp

/-! ## Actions that agree -/

/-- Two actions that do the same to every console and have results that agree. -/
def Action.Agree {α β : Type} (V : α → β → Prop) (E : EvalError → EvalError → Prop) (x : Action α)
    (y : Action β) : Prop :=
  ∀ c, (x c).2 = (y c).2 ∧ MiniLisp.Agree V E (x c).1 (y c).1

namespace Action

variable {α β γ δ : Type} {V : α → β → Prop} {W : γ → δ → Prop} {E : EvalError → EvalError → Prop}

namespace Agree

theorem refl {V : α → α → Prop} (hV : ∀ a, V a a) (hE : ∀ e, E e e) (x : Action α) :
    Action.Agree V E x x :=
  fun _ => ⟨rfl, .refl hV hE _⟩

theorem pure {a : α} {b : β} (h : V a b) : Action.Agree V E (pure a) (pure b) :=
  fun _ => ⟨rfl, .ok h⟩

theorem throw {e f : EvalError} (h : E e f) :
    Action.Agree V E (throw e : Action α) (throw f : Action β) :=
  fun _ => ⟨rfl, .error h⟩

theorem lift {x : Except EvalError α} {y : Except EvalError β} (h : MiniLisp.Agree V E x y) :
    Action.Agree V E (liftM x) (liftM y) :=
  fun _ => ⟨rfl, h⟩

theorem bind {x : Action α} {y : Action β} {f : α → Action γ} {g : β → Action δ}
    (h : Action.Agree V E x y) (hfg : ∀ a b, V a b → Action.Agree W E (f a) (g b)) :
    Action.Agree W E (x >>= f) (y >>= g) := by
  intro c
  obtain ⟨hc, hr⟩ := h c
  rw [bind_apply, bind_apply]
  rcases hx : x c with ⟨r, c₁⟩
  rcases hy : y c with ⟨r', c₂⟩
  rw [hx, hy] at hc hr
  obtain rfl : c₁ = c₂ := hc
  cases hr with
  | ok hab => exact hfg _ _ hab c₁
  | error he => exact ⟨rfl, .error he⟩

end Agree

end Action

/-! ## One layer of a value, an expression, an error -/

/-- Values of one form.  Plain ones are the same, items of lists are related by `V`, and of two
procedures nothing is said. -/
inductive Value.Congr (V : Value → Value → Prop) : Value → Value → Prop
  | int (n : Int) : Congr V (.int n) (.int n)
  | bool (b : Bool) : Congr V (.bool b) (.bool b)
  | str (text : String) : Congr V (.str text) (.str text)
  | list {vs ws : List Value} (h : List.Forall₂ V vs ws) : Congr V (.list vs) (.list ws)
  | unit : Congr V .unit .unit
  | builtin (b : Builtin) : Congr V (.builtin b) (.builtin b)
  | form (f : SpecialForm) : Congr V (.form f) (.form f)
  | definer : Congr V .definer .definer
  | closure (p q : Procedure) (s t : Scope) : Congr V (.closure p s) (.closure q t)

/-- Expressions of one form, with parts of calls related by `N`. -/
inductive Node.Congr (N : Node → Node → Prop) : Node → Node → Prop
  | literal (t u : Token) : Congr N (.literal t) (.literal u)
  | identifier (x y : String) : Congr N (.identifier x) (.identifier y)
  | call {ns ms : List Node} (h : List.Forall₂ N ns ms) : Congr N (.call ns) (.call ms)
  | definition (x y : String) (xs ys : List String) (ns ms : List Node) :
      Congr N (.definition x xs ns) (.definition y ys ms)
  | program (ns ms : List Node) : Congr N (.program ns) (.program ms)
  | bare (t u : Token) : Congr N (.bare t) (.bare u)

theorem Node.map_identifier_inj {xs ys : List String}
    (h : xs.map Node.identifier = ys.map Node.identifier) : xs = ys :=
  List.map_injective_iff.mpr (fun _ _ h => Node.identifier.inj h) h

/-- The errors that calls raise by themselves: the same cause, with the values related by `V`, the
expressions by `N` and the procedures by `P`. -/
inductive EvalError.Congr (V : Value → Value → Prop) (N : Node → Node → Prop)
    (P : Procedure → Procedure → Prop) : EvalError → EvalError → Prop
  | notCallable {n m : Node} {v w : Value} (hn : N n m) (hv : V v w) :
      Congr V N P (.notCallable n v) (.notCallable m w)
  | operandCount (name : String) (arity found : Int) :
      Congr V N P (.operandCount name arity found) (.operandCount name arity found)
  | argumentCount {p q : Procedure} (h : P p q) (found : Nat) :
      Congr V N P (.argumentCount p found) (.argumentCount q found)
  | emptyBody {p q : Procedure} (h : P p q) : Congr V N P (.emptyBody p) (.emptyBody q)
  | notIntegers (b : Builtin) {v v' w w' : Value} (hv : V v v') (hw : V w w') :
      Congr V N P (.notIntegers b v w) (.notIntegers b v' w')
  | notCondition {v w : Value} (h : V v w) : Congr V N P (.notCondition v) (.notCondition w)
  | notBindable {n m : Node} (h : N n m) : Congr V N P (.notBindable n) (.notBindable m)
  | notParameterList (owner : String) {n m : Node} (h : N n m) :
      Congr V N P (.notParameterList owner n) (.notParameterList owner m)
  | notParameter (owner : String) {n m : Node} (h : N n m) :
      Congr V N P (.notParameter owner n) (.notParameter owner m)
  | notPrintable {v w : Value} (h : V v w) : Congr V N P (.notPrintable v) (.notPrintable w)
  | overflow (name : String) : Congr V N P (.overflow name) (.overflow name)
  | nestedDefinition : Congr V N P .nestedDefinition .nestedDefinition
  | endOfInput : Congr V N P .endOfInput .endOfInput
  | tooDeep : Congr V N P .tooDeep .tooDeep

/-- Where only equals are related, only equal errors are. -/
theorem EvalError.Congr.eq {V : Value → Value → Prop} {N : Node → Node → Prop}
    {P : Procedure → Procedure → Prop} (hV : ∀ {v w}, V v w → v = w) (hN : ∀ {n m}, N n m → n = m)
    (hP : ∀ {p q}, P p q → p = q) {e f : EvalError} (h : Congr V N P e f) : e = f := by
  cases h with
  | notCallable hn hv => rw [hN hn, hV hv]
  | argumentCount h _ => rw [hP h]
  | emptyBody h => rw [hP h]
  | notIntegers b hv hw => rw [hV hv, hV hw]
  | notCondition h => rw [hV h]
  | notBindable h => rw [hN h]
  | notParameterList owner h => rw [hN h]
  | notParameter owner h => rw [hN h]
  | notPrintable h => rw [hV h]
  | _ => rfl

/-- Values of one form can be called, or none of them can. -/
theorem Value.Congr.isCallable_eq {V : Value → Value → Prop} {v w : Value} (h : Congr V v w) :
    v.isCallable = w.isCallable := by
  cases h <;> rfl

theorem Value.Congr.isInt_eq {V : Value → Value → Prop} {v w : Value} (h : Congr V v w) :
    v.isInt = w.isInt := by
  cases h <;> rfl

theorem Value.exists_eq_int {v : Value} (h : v.isInt = true) : ∃ n, v = .int n := by
  cases v with
  | int n => exact ⟨n, rfl⟩
  | _ => cases h

/-! ## Simulations -/

/-- What may differ between two evaluations, against the tables `ts` and `us`, that go alike. -/
structure Simulation (ts us : Tables) where
  /-- Values that play the same part. -/
  Val : Value → Value → Prop
  /-- Errors that may stand for each other. -/
  Err : EvalError → EvalError → Prop
  /-- Expressions, each in its scope, that go alike. -/
  At : Node → Scope → Node → Scope → Prop
  /-- Nothing but lists and procedures may differ. -/
  val_congr : ∀ {v w}, Val v w → Value.Congr Val v w
  int : ∀ {n}, minInt ≤ n → n ≤ maxInt → Val (.int n) (.int n)
  bool : ∀ b, Val (.bool b) (.bool b)
  str : ∀ text, Val (.str text) (.str text)
  unit : Val .unit .unit
  list : ∀ {vs ws}, List.Forall₂ Val vs ws → Val (.list vs) (.list ws)
  /-- The parts of calls go alike in the scopes of the calls. -/
  at_congr : ∀ {n m s t}, At n s m t → Node.Congr (At · s · t) n m
  /-- Constants, names and whatever else has no parts to evaluate. -/
  atom : ∀ {n m s t}, At n s m t → (∀ head operands, n ≠ .call (head :: operands)) →
    ∀ depth, Action.Agree Val Err (eval ts (depth + 1) n s) (eval us (depth + 1) m t)
  /-- The last part of a binding form, when the name has its value. -/
  binding : ∀ {x y n m s t v w}, At (.identifier x) s (.identifier y) t → At n s m t → Val v w →
    At n (.frame x v s) m (.frame y w t)
  /-- What the procedure form makes. -/
  procedure : ∀ {xs ys n m s t},
    At (.call (xs.map .identifier)) s (.call (ys.map .identifier)) t → At n s m t →
    Val (.closure { name := none, params := xs, body := [n] } s)
      (.closure { name := none, params := ys, body := [m] } t)
  params_length : ∀ {p q s t}, Val (.closure p s) (.closure q t) →
    p.params.length = q.params.length
  /-- The body of a procedure, when the parameters have their arguments. -/
  body : ∀ {p q s t vs ws}, Val (.closure p s) (.closure q t) → List.Forall₂ Val vs ws →
    vs.length = p.params.length →
    List.Forall₂
      (fun n m => At n (s.extend (p.params.zip vs)) m (t.extend (q.params.zip ws))) p.body q.body
  /-- What calls raise about values, expressions and procedures that go alike. -/
  err : ∀ {e f}, EvalError.Congr Val (fun n m => ∃ s t, At n s m t)
    (fun p q => ∃ s t, Val (.closure p s) (.closure q t)) e f → Err e f

namespace Simulation

open Eval

variable {ts us : Tables} (S : Simulation ts us)

/-- Results of evaluation that go alike. -/
abbrev Results (x y : Action Value) : Prop := Action.Agree S.Val S.Err x y

/-! ### Builtins -/

mutual

/-- Values that go alike have the same text, or parts without one that go alike. -/
theorem display_agree : (v : Value) → {w : Value} → S.Val v w →
    Agree (· = ·) S.Val v.display w.display
  | .int _, _, h | .bool _, _, h | .str _, _, h => by
      cases S.val_congr h
      exact .ok rfl
  | .unit, _, h | .builtin _, _, h | .form _, _, h | .definer, _, h | .closure _ _, _, h => by
      cases S.val_congr h
      exact .error h
  | .list vs, _, h => by
      cases S.val_congr h with
      | @list _ ws hvs =>
          have hall := displayAll_agree vs hvs
          rw [Value.display, Value.display]
          generalize Value.displayAll vs = x, Value.displayAll ws = y at hall ⊢
          cases hall with
          | ok heq => exact .ok (congrArg Text.parenthesized heq)
          | error hpart => exact .error hpart

theorem displayAll_agree : (vs : List Value) → {ws : List Value} → List.Forall₂ S.Val vs ws →
    Agree (· = ·) S.Val (Value.displayAll vs) (Value.displayAll ws)
  | [], _, .nil => .ok rfl
  | v :: vs, w :: ws, .cons h hs => by
      have hv := display_agree v h
      have hall := displayAll_agree vs hs
      rw [Value.displayAll, Value.displayAll]
      generalize v.display = x, w.display = y at hv ⊢
      generalize Value.displayAll vs = xs, Value.displayAll ws = ys at hall ⊢
      cases hv with
      | error hpart => exact .error hpart
      | ok heq =>
          cases hall with
          | error hpart => exact .error hpart
          | ok heqs => exact .ok (by rw [heq, heqs])

end

theorem displayText_agree {v w : Value} (h : S.Val v w) :
    Agree (· = ·) S.Err (displayText v) (displayText w) := by
  have hd := S.display_agree v h
  unfold displayText
  generalize v.display = x, w.display = y at hd ⊢
  cases hd with
  | ok heq => exact .ok heq
  | error hpart => exact .error (S.err (.notPrintable hpart))

theorem checkRange_agree (name : String) (n : Int) :
    Agree (fun a b => a = b ∧ minInt ≤ a ∧ a ≤ maxInt) S.Err (checkRange name n)
      (checkRange name n) := by
  unfold checkRange
  split
  · next h => exact .ok ⟨rfl, h⟩
  · exact .error (S.err (.overflow name))

theorem writeLine_agree {text : String} :
    Action.Agree (· = ·) S.Err (writeLine text) (writeLine text) :=
  fun _ => ⟨rfl, .ok rfl⟩

theorem readLine_agree : Action.Agree (· = ·) S.Err readLine readLine := by
  intro c
  refine ⟨rfl, ?_⟩
  unfold readLine
  split
  · exact .ok rfl
  · exact .error (S.err .endOfInput)

theorem runBuiltin_notIntegers {b : Builtin} {v w : Value} (hb : b.arity = 2)
    (h : ¬(v.isInt = true ∧ w.isInt = true)) :
    runBuiltin b [v, w] = throw (.notIntegers b v w) := by
  cases b with
  | add | subtract | less =>
      unfold runBuiltin
      split <;> simp_all [Value.isInt]
  | toText | write | readLine => cases hb

/-- The builtins on numbers. -/
theorem runBuiltin_numeric_agree {b : Builtin} {v v' w w' : Value} (hb : b.arity = 2)
    (hv : S.Val v v') (hw : S.Val w w') :
    S.Results (runBuiltin b [v, w]) (runBuiltin b [v', w']) := by
  by_cases h : v.isInt = true ∧ w.isInt = true
  · obtain ⟨m, rfl⟩ := Value.exists_eq_int h.1
    obtain ⟨n, rfl⟩ := Value.exists_eq_int h.2
    cases S.val_congr hv
    cases S.val_congr hw
    cases b with
    | add | subtract =>
        refine .bind (.lift (S.checkRange_agree _ _)) fun k l hkl => ?_
        obtain ⟨rfl, hmin, hmax⟩ := hkl
        exact .pure (S.int hmin hmax)
    | less => exact .pure (S.bool _)
    | toText | write | readLine => cases hb
  · -- then neither are the values on the other side two numbers
    have h' : ¬(v'.isInt = true ∧ w'.isInt = true) := by
      rw [← (S.val_congr hv).isInt_eq, ← (S.val_congr hw).isInt_eq]
      exact h
    rw [runBuiltin_notIntegers hb h, runBuiltin_notIntegers hb h']
    exact .throw (S.err (.notIntegers b hv hw))

/-- Builtins on as many arguments as they take. -/
theorem runBuiltin_agree {b : Builtin} {vs ws : List Value} (h : List.Forall₂ S.Val vs ws)
    (harity : vs.length = b.arity) : S.Results (runBuiltin b vs) (runBuiltin b ws) := by
  match h with
  | .nil =>
      cases b with
      | readLine => exact .bind S.readLine_agree fun _ _ heq => heq ▸ .pure (S.str _)
      | _ => cases harity
  | .cons hv .nil =>
      cases b with
      | toText =>
          exact .bind (.lift (S.displayText_agree hv)) fun _ _ heq => heq ▸ .pure (S.str _)
      | write =>
          refine .bind (.lift (S.displayText_agree hv)) fun text text' heq => ?_
          obtain rfl : text = text' := heq
          exact .bind S.writeLine_agree fun _ _ _ => .pure S.unit
      | _ => cases harity
  | .cons hv (.cons hw .nil) => exact S.runBuiltin_numeric_agree harity.symm hv hw
  | .cons _ (.cons _ (.cons _ _)) =>
      have hle : b.arity ≤ 2 := by cases b <;> decide
      simp only [List.length_cons] at harity
      omega

/-! ### Operands -/

section Operands

/-- Evaluators under which related expressions go alike. -/
def Follows (ev ev' : Evaluator) : Prop :=
  ∀ {n s m t}, S.At n s m t → S.Results (ev n s) (ev' m t)

variable {ev ev' : Evaluator} {s t : Scope} {ns ms : List Node}

/-- Operands are evaluated from left to right, and there are as many values as operands. -/
theorem evalAll_agree (hev : S.Follows ev ev') (h : List.Forall₂ (S.At · s · t) ns ms) :
    Action.Agree (fun vs ws => List.Forall₂ S.Val vs ws ∧ vs.length = ns.length) S.Err
      (evalAll ev s ns) (evalAll ev' t ms) := by
  induction h with
  | nil => exact .pure ⟨.nil, rfl⟩
  | cons hn _ ih =>
      refine .bind (hev hn) fun v w hvw => ?_
      refine .bind ih fun vs ws hvs => .pure ⟨.cons hvw hvs.1, ?_⟩
      rw [List.length_cons, List.length_cons, hvs.2]

theorem evalBody_agree (hev : S.Follows ev ev') (h : List.Forall₂ (S.At · s · t) ns ms)
    {v w : Value} (hv : S.Val v w) :
    S.Results (evalBody ev s v ns) (evalBody ev' t w ms) := by
  induction h generalizing v w with
  | nil => exact .pure hv
  | cons hn _ ih => exact .bind (hev hn) fun v' w' h' => ih h'

/-- After the check, the number of operands is the arity. -/
theorem checkArity_agree (name : String) (arity : Option Nat) (found : Nat) :
    Agree (fun _ _ => arity = none ∨ arity = some found) S.Err
      (checkArity name (arity.map Int.ofNat) found)
      (checkArity name (arity.map Int.ofNat) found) := by
  unfold checkArity
  cases arity with
  | none => exact .ok (.inl rfl)
  | some k =>
      simp only [Option.map_some]
      split
      · next h => exact .ok (.inr (congrArg some (Int.ofNat.inj h).symm))
      · exact .error (S.err (.operandCount _ _ _))

/-! ### Special forms -/

theorem identifiers_agree (owner : String) (h : List.Forall₂ (S.At · s · t) ns ms) :
    Agree (fun xs ys => ns = xs.map .identifier ∧ ms = ys.map .identifier) S.Err
      (identifiers owner ns) (identifiers owner ms) := by
  induction h with
  | nil => exact .ok ⟨rfl, rfl⟩
  | @cons n m ns ms hn _ ih =>
      cases S.at_congr hn with
      | identifier x y =>
          simp only [identifiers]
          generalize identifiers owner ns = r, identifiers owner ms = r' at ih
          cases ih with
          | ok hxs => exact .ok ⟨by rw [hxs.1]; rfl, by rw [hxs.2]; rfl⟩
          | error he => exact .error he
      | _ => exact .error (S.err (.notParameter owner ⟨s, t, hn⟩))

theorem parameters_agree (owner : String) {n m : Node} (h : S.At n s m t) :
    Agree (fun xs ys => n = .call (xs.map .identifier) ∧ m = .call (ys.map .identifier)) S.Err
      (parameters owner n) (parameters owner m) := by
  cases S.at_congr h with
  | @call ns ms hns =>
      have hall := S.identifiers_agree owner hns
      simp only [parameters]
      generalize identifiers owner ns = r, identifiers owner ms = r' at hall ⊢
      cases hall with
      | ok hxs => exact .ok ⟨by rw [hxs.1], by rw [hxs.2]⟩
      | error he => exact .error he
  | _ => exact .error (S.err (.notParameterList owner ⟨s, t, h⟩))

theorem choice_agree (hev : S.Follows ev ev') {c c' yes yes' no no' : Node} (hc : S.At c s c' t)
    (hyes : S.At yes s yes' t) (hno : S.At no s no' t) :
    S.Results (runForm ev s .choice [c, yes, no]) (runForm ev' t .choice [c', yes', no']) := by
  refine .bind (hev hc) fun v w hvw => ?_
  cases S.val_congr hvw with
  | bool b =>
      cases b with
      | true => exact hev hyes
      | false => exact hev hno
  | _ => exact .throw (S.err (.notCondition hvw))

theorem binding_agree (hev : S.Follows ev ev') {n n' value value' body body' : Node}
    (hn : S.At n s n' t) (hvalue : S.At value s value' t) (hbody : S.At body s body' t) :
    S.Results (runForm ev s .binding [n, value, body])
      (runForm ev' t .binding [n', value', body']) := by
  -- anything but a name is rejected before the value is computed
  cases S.at_congr hn with
  | identifier x y =>
      exact .bind (hev hvalue) fun v w hvw => hev (S.binding hn hbody hvw)
  | _ => exact .throw (S.err (.notBindable ⟨s, t, hn⟩))

theorem procedure_agree {params params' body body' : Node} (hparams : S.At params s params' t)
    (hbody : S.At body s body' t) :
    S.Results (runForm ev s .procedure [params, body])
      (runForm ev' t .procedure [params', body']) := by
  refine .bind (.lift (S.parameters_agree _ hparams)) fun xs ys hxs => ?_
  obtain ⟨rfl, rfl⟩ := hxs
  exact .pure (S.procedure hparams hbody)

/-- The number of operands has been checked, so each form has the operands it takes apart. -/
theorem runForm_agree (hev : S.Follows ev ev') {f : SpecialForm}
    (h : List.Forall₂ (S.At · s · t) ns ms)
    (harity : f.arity = none ∨ f.arity = some ns.length) :
    S.Results (runForm ev s f ns) (runForm ev' t f ms) := by
  cases f with
  | choice =>
      match h, harity with
      | .cons hc (.cons hyes (.cons hno .nil)), _ => exact S.choice_agree hev hc hyes hno
  | binding =>
      match h, harity with
      | .cons hn (.cons hvalue (.cons hbody .nil)), _ => exact S.binding_agree hev hn hvalue hbody
  | procedure =>
      match h, harity with
      | .cons hparams (.cons hbody .nil), _ => exact S.procedure_agree hparams hbody
  | list => exact .bind (S.evalAll_agree hev h) fun vs ws hvs => .pure (S.list hvs.1)

/-! ### Procedures -/

/-- Binding arguments leads to scopes in which the bodies go alike, or fails for their number. -/
theorem bind_agree {p q : Procedure} (hp : S.Val (.closure p s) (.closure q t))
    {vs ws : List Value} (h : List.Forall₂ S.Val vs ws) :
    Agree (fun s' t' => List.Forall₂ (S.At · s' · t') p.body q.body) S.Err
      (Eval.bind p s vs) (Eval.bind q t ws) := by
  have hparams := S.params_length hp
  have hargs := h.length_eq
  unfold Eval.bind
  by_cases hcount : vs.length = p.params.length
  · rw [if_pos hcount, if_pos (by omega)]
    exact .ok (S.body hp h hcount)
  · rw [if_neg hcount, if_neg (by omega), ← hargs]
    exact .error (S.err (.argumentCount ⟨s, t, hp⟩ _))

theorem runProcedure_agree (hev : S.Follows ev ev') {p q : Procedure}
    (hp : S.Val (.closure p s) (.closure q t)) {vs ws : List Value}
    (h : List.Forall₂ S.Val vs ws) :
    S.Results (runProcedure ev p s vs) (runProcedure ev' q t ws) := by
  unfold runProcedure
  refine .bind (.lift (S.bind_agree hp h)) fun s' t' hbody => ?_
  -- a procedure without a body fails here, so the unit is never its value
  cases hb : p.body with
  | nil =>
      rw [hb] at hbody
      rw [List.forall₂_nil_left_iff.mp hbody]
      exact .throw (S.err (.emptyBody ⟨s, t, hp⟩))
  | cons n ns =>
      rw [hb] at hbody
      obtain ⟨m, ms, -, -, hq⟩ := List.forall₂_cons_left_iff.mp hbody
      rw [hq] at hbody ⊢
      exact S.evalBody_agree hev hbody S.unit

/-! ### Calls and expressions -/

theorem apply_agree (hev : S.Follows ev ev') {v w : Value} (hv : S.Val v w)
    (hcallable : v.isCallable = true) (h : List.Forall₂ (S.At · s · t) ns ms) :
    S.Results (apply ev s ns v) (apply ev' t ms w) := by
  have hlength := h.length_eq
  cases S.val_congr hv with
  | builtin b =>
      unfold apply
      rw [← hlength]
      refine .bind (.lift (S.checkArity_agree _ (some b.arity) _)) fun _ _ harity => ?_
      refine .bind (S.evalAll_agree hev h) fun vs ws hvs => S.runBuiltin_agree hvs.1 ?_
      have hcount : b.arity = ns.length := by simpa using harity
      rw [hvs.2, hcount]
  | form f =>
      unfold apply
      rw [← hlength]
      refine .bind (.lift (S.checkArity_agree _ _ _)) fun _ _ harity => ?_
      exact S.runForm_agree hev h harity
  | definer => exact .throw (S.err .nestedDefinition)
  | closure p q s' t' =>
      -- the bodies run in the scopes the procedures were made in, not in `s` and `t`
      exact .bind (S.evalAll_agree hev h) fun vs ws hvs => S.runProcedure_agree hev hv hvs.1
  | _ => cases hcallable

end Operands

/-- In a simulation related expressions do the same to every console, and their results agree. -/
theorem eval_agree {n m : Node} {s t : Scope} (h : S.At n s m t) (depth : Nat) :
    S.Results (eval ts depth n s) (eval us depth m t) := by
  -- as in `eval` itself: the parts of a call, and the bodies it runs, have one evaluation less
  induction depth generalizing n m s t with
  | zero => exact .throw (S.err .tooDeep)
  | succ depth ih =>
      by_cases hcall : ∃ head operands, n = .call (head :: operands)
      · obtain ⟨head, operands, rfl⟩ := hcall
        cases S.at_congr h with
        | call hns =>
            cases hns with
            | @cons _ head' _ operands' hhead hoperands =>
                rw [eval, eval]
                refine .bind (ih hhead) fun v w hvw => ?_
                have hev : S.Follows (eval ts depth) (eval us depth) := fun h => ih h
                have hsame := (S.val_congr hvw).isCallable_eq
                cases hcallable : v.isCallable with
                | true =>
                    simp only [← hsame, hcallable]
                    exact S.apply_agree hev hvw hcallable hoperands
                | false =>
                    simp only [← hsame, hcallable]
                    exact .throw (S.err (.notCallable ⟨s, t, hhead⟩ hvw))
      · exact S.atom h (fun head operands heq => hcall ⟨head, operands, heq⟩) depth

end Simulation

end MiniLisp
