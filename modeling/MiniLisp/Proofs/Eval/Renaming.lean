/-
# MiniLisp.Proofs.Eval.Renaming — the name of a binding does not matter.

A name that a binding form binds can be replaced by any name that does not occur in the expression
it is bound in.  Which occurrences of a name are bound is not settled by the text, since the forms
that bind are values that can be bound to other names; here all occurrences are replaced, also those
that bind the name anew.  The two evaluations do the same to the console, and end with errors of one
kind or with values that are the same up to this renaming.
-/
import MiniLisp.Proofs.Eval.Simulation
import MiniLisp.Proofs.Value.Renamed

namespace MiniLisp

/-- Errors of one kind. -/
def EvalError.SameKind (e f : EvalError) : Prop :=
  Failure.kindOfEvaluation e = Failure.kindOfEvaluation f

theorem EvalError.SameKind.refl (e : EvalError) : e.SameKind e := rfl

theorem EvalError.Congr.sameKind {V : Value → Value → Prop} {N : Node → Node → Prop}
    {P : Procedure → Procedure → Prop} {e f : EvalError} (h : Congr V N P e f) : e.SameKind f := by
  cases h <;> rfl

namespace Eval

variable {ts : Tables} {ρ : Renaming} {outer : Scope}

/-! ## Expressions -/

/-- Expressions that go alike: one expression in scopes that are kept, or an expression and the
renamed one in renamed scopes. -/
inductive Renames (ρ : Renaming) (outer : Scope) : Node → Scope → Node → Scope → Prop
  | kept {n : Node} {s t : Scope} (scopes : Scope.Kept ρ outer s t) : Renames ρ outer n s n t
  | renamed {n : Node} {s t : Scope} (fresh : ρ.new ∉ n.identifiers)
      (scopes : Scope.Renamed ρ outer s t) : Renames ρ outer n s (n.rename ρ) t

theorem Renames.congr {n m : Node} {s t : Scope} (h : Renames ρ outer n s m t) :
    Node.Congr (Renames ρ outer · s · t) n m := by
  cases h with
  | kept scopes =>
      cases n with
      | call ns => exact .call (List.forall₂_same.mpr fun n _ => .kept scopes)
      | _ => constructor
  | renamed fresh scopes =>
      cases n with
      | call ns =>
          rw [Node.rename, Node.renameAll_eq_map]
          refine .call (List.forall₂_map_right_iff.mpr (List.forall₂_same.mpr fun n hn => ?_))
          exact .renamed (fun hx => fresh (Node.mem_identifiersAll hn hx)) scopes
      | _ => constructor

theorem find_renamed {x y : String} {s t : Scope}
    (h : Option.Rel (Value.Renamed ρ outer) (s.lookup? ts x) (t.lookup? ts y)) :
    Agree (Value.Renamed ρ outer) EvalError.SameKind (find ts s x) (find ts t y) := by
  unfold find
  generalize s.lookup? ts x = r, t.lookup? ts y = r' at h ⊢
  cases h with
  | some h => exact .ok h
  | none => exact .error rfl

theorem Renames.atom_agree {n m : Node} {s t : Scope} (h : Renames ρ outer n s m t)
    (hcall : ∀ head operands, n ≠ .call (head :: operands)) (depth : Nat) :
    Action.Agree (Value.Renamed ρ outer) EvalError.SameKind (eval ts (depth + 1) n s)
      (eval ts (depth + 1) m t) := by
  cases h with
  | kept scopes =>
      cases n with
      | identifier x => exact .lift (find_renamed (scopes.lookup? ts x))
      | literal tok => exact .refl Value.Renamed.refl EvalError.SameKind.refl _
      | call ns =>
          cases ns with
          | nil => exact .pure (.refl _)
          | cons head operands => exact absurd rfl (hcall head operands)
      | _ => exact .throw rfl
  | renamed fresh scopes =>
      cases n with
      | identifier x =>
          have hx : x ≠ ρ.new := fun heq => fresh (by simp [Node.identifiers, heq])
          exact .lift (find_renamed (scopes.lookup? ts hx))
      | literal tok => exact .refl Value.Renamed.refl EvalError.SameKind.refl _
      | call ns =>
          cases ns with
          | nil => exact .pure (.refl _)
          | cons head operands => exact absurd rfl (hcall head operands)
      | _ => exact .throw rfl

/-- In scopes that are kept the expressions are the same. -/
theorem Renames.eq_of_kept (hρ : ρ.old ≠ ρ.new) {n m : Node} {s t : Scope}
    (h : Renames ρ outer n s m t) (scopes : Scope.Kept ρ outer s t) : n = m := by
  cases h with
  | kept => rfl
  | renamed _ scopes' => exact absurd scopes (scopes'.not_kept hρ)

/-- In renamed scopes the expressions are renamed. -/
theorem Renames.of_renamed (hρ : ρ.old ≠ ρ.new) {n m : Node} {s t : Scope}
    (h : Renames ρ outer n s m t) (scopes : Scope.Renamed ρ outer s t) :
    ρ.new ∉ n.identifiers ∧ m = n.rename ρ := by
  cases h with
  | kept scopes' => exact absurd scopes' (scopes.not_kept hρ)
  | renamed fresh => exact ⟨fresh, rfl⟩

/-! ## The simulation -/

/-- The bodies of procedures that are the same up to the renaming go alike. -/
theorem renames_body {p q : Procedure} {s t : Scope}
    (h : Value.Renamed ρ outer (.closure p s) (.closure q t)) {vs ws : List Value}
    (hargs : List.Forall₂ (Value.Renamed ρ outer) vs ws) :
    List.Forall₂
      (fun n m => Renames ρ outer n (s.extend (p.params.zip vs)) m (t.extend (q.params.zip ws)))
      p.body q.body := by
  have hkept : ∀ {t'}, Scope.Kept ρ outer s t' → List.Forall₂
      (fun n m => Renames ρ outer n (s.extend (p.params.zip vs)) m (t'.extend (p.params.zip ws)))
      p.body p.body :=
    fun scopes => List.forall₂_same.mpr fun n _ => .kept (scopes.extend p.params hargs)
  cases h with
  | refl => exact hkept (.same s)
  | kept _ scopes => exact hkept scopes
  | renamed _ fresh scopes =>
      obtain ⟨hparams, hbody⟩ : ρ.new ∉ p.params ∧ ρ.new ∉ Node.identifiersAll p.body := by
        simpa using fresh
      rw [Procedure.rename, Node.renameAll_eq_map, List.forall₂_map_right_iff, List.forall₂_same]
      intro n hn
      exact .renamed (fun hx => hbody (Node.mem_identifiersAll hn hx)) (scopes.extend hparams hargs)

/-- Evaluations up to the renaming of one binding, where the new name is not the old one. -/
def renameInvariance (ts : Tables) (hρ : ρ.old ≠ ρ.new) (outer : Scope) : Simulation ts ts where
  Val := Value.Renamed ρ outer
  Err := EvalError.SameKind
  At := Renames ρ outer
  val_congr := by
    intro v w h
    cases h with
    | refl =>
        cases v with
        | list vs => exact .list (List.forall₂_same.mpr fun v _ => .refl v)
        | _ => constructor
    | list h => exact .list h
    | renamed => constructor
    | kept => constructor
  int _ _ := .refl _
  bool b := .refl _
  str text := .refl _
  unit := .refl _
  list h := .list h
  at_congr := Renames.congr
  atom h hcall depth := h.atom_agree hcall depth
  binding := by
    intro x y n m s t v w hx hn hv
    cases hn with
    | kept scopes =>
        cases hx.eq_of_kept hρ scopes
        exact .kept (.frame hv scopes)
    | renamed fresh scopes =>
        obtain ⟨hfresh, hname⟩ := hx.of_renamed hρ scopes
        cases hname
        have hx : x ≠ ρ.new := fun heq => hfresh (by simp [Node.identifiers, heq])
        exact .renamed fresh (.frame hx hv scopes)
  procedure := by
    intro xs ys n m s t hxs hn
    cases hn with
    | kept scopes =>
        obtain rfl := Node.map_identifier_inj (Node.call.inj (hxs.eq_of_kept hρ scopes))
        exact .kept rfl scopes
    | renamed fresh scopes =>
        obtain ⟨hfresh, hnames⟩ := hxs.of_renamed hρ scopes
        rw [Node.rename_names] at hnames
        obtain rfl := Node.map_identifier_inj (Node.call.inj hnames)
        -- the new name is in none of the two parts of the text
        refine .renamed (p := { name := none, params := xs, body := [n] }) rfl ?_ scopes
        have hparams : ρ.new ∉ xs := fun hx => hfresh
          (Node.mem_identifiersAll (List.mem_map_of_mem hx) (by simp [Node.identifiers]))
        simp [hparams, fresh, Node.identifiersAll]
  params_length := by
    intro p q s t h
    cases h with
    | renamed => simp [Procedure.rename]
    | _ => rfl
  body h hargs _ := renames_body h hargs
  err h := h.sameKind

end Eval

/-! ## Binding forms -/

/-- The expression that binds a name to a value in another expression. -/
def Node.binding (x : String) (value body : Node) : Node :=
  .call [.identifier SpecialForm.binding.name, .identifier x, value, body]

/-- Where its name stands for the form, a binding evaluates the value, and the body in the scope with
one more frame. -/
theorem eval_binding {ts : Tables} {s : Scope}
    (hlet : s.lookup? ts SpecialForm.binding.name = some (.form .binding)) (x : String)
    (value body : Node) (depth : Nat) :
    eval ts (depth + 2) (.binding x value body) s = (do
      let v ← eval ts (depth + 1) value s
      eval ts (depth + 1) body (.frame x v s)) := by
  have hfind : Eval.find ts s SpecialForm.binding.name = .ok (.form .binding) := by
    rw [Eval.find, hlet]
  rw [Node.binding, eval, eval, hfind]
  rfl

/-- The name of a binding can be replaced by any name that does not occur in the expression it is
bound in.  Wherever the name of the binding form stands for the form, the binding and the renamed
binding do the same to every console, and they end with errors of one kind or with values that are
the same up to the renaming in procedures. -/
theorem binding_renames (ts : Tables) (s : Scope) (x y : String) (value body : Node) (depth : Nat)
    (hlet : s.lookup? ts SpecialForm.binding.name = some (.form .binding))
    (hy : y ∉ body.identifiers) :
    Action.Agree (Value.Renamed ⟨x, y⟩ s) EvalError.SameKind
      (eval ts depth (.binding x value body) s)
      (eval ts depth (.binding y value (body.rename ⟨x, y⟩)) s) := by
  by_cases hxy : x = y
  · subst hxy
    rw [Node.rename_self]
    exact .refl Value.Renamed.refl EvalError.SameKind.refl _
  match depth with
  | 0 | 1 => exact .throw rfl
  | depth + 2 =>
      rw [eval_binding hlet, eval_binding hlet]
      -- the value is the same on both sides, since it is evaluated outside of the binding
      refine .bind (V := (· = ·)) (.refl (fun _ => rfl) EvalError.SameKind.refl _) ?_
      rintro v _ rfl
      exact (Eval.renameInvariance ts hxy s).eval_agree (.renamed hy (.bound v)) (depth + 1)

/-- A procedure that adds a number to what the name of the conditional form is bound to. -/
def addIf : Procedure where
  name := none
  params := ["z"]
  body := [.call [.identifier "+", .identifier "if", .identifier "z"]]

/-- The expression that makes it. -/
def addIfNode : Node :=
  .call (.identifier "lambda" :: .call (addIf.params.map .identifier) :: addIf.body)

theorem binding_renames_addIf :
    let s : Scope := .frame "n" .unit (.top 0)
    s.lookup? [.initial] SpecialForm.binding.name = some (.form .binding) ∧
      "n" ∉ addIfNode.identifiers ∧
      Value.Renamed ⟨"if", "n"⟩ s (.closure addIf (.frame "if" (.int 1) s))
        (.closure (addIf.rename ⟨"if", "n"⟩) (.frame "n" (.int 1) s)) := by
  intro s
  have hlet : s.lookup? [.initial] SpecialForm.binding.name = some (.form .binding) := rfl
  have hnew : "n" ∉ addIfNode.identifiers := by decide
  refine ⟨hlet, hnew, ?_⟩
  obtain ⟨-, hvalues⟩ :=
    binding_renames [.initial] s "if" "n" (.literal (.integer 1)) addIfNode 4 hlet hnew {}
  cases hvalues with | ok h => exact h

end MiniLisp
