/-
# MiniLisp.Proofs.Eval.Termination — without procedures every evaluation ends.

Operators are computed, so a special form can be the value of a condition, or be bound under another
name and be called later; and nothing in an expression tells that it will not call a procedure.  But
only the procedure form makes procedures.  If neither a procedure nor this form stands behind a name
of the expression, then none ever comes up in its evaluation, and all that it evaluates is part of
the expression.  So the expression's height bounds the evaluations that are active at once.
-/
import Mathlib.Logic.Relation
import MiniLisp.Proofs.Eval.Origin
import MiniLisp.Proofs.Session.Depth
import MiniLisp.Proofs.Value.Alike

namespace MiniLisp

/-! ## Heights of expressions -/

namespace Node

mutual

/-- How many expressions stand in one another, where the tree is highest. -/
def height : Node → Nat
  | .call children => heightAll children + 1
  | _ => 1

/-- The height of the highest tree; 0 where there is none. -/
def heightAll : List Node → Nat
  | [] => 0
  | n :: ns => max n.height (heightAll ns)

end

theorem height_pos (n : Node) : 0 < n.height := by
  cases n with
  | call children => exact Nat.succ_pos _
  | _ => exact Nat.one_pos

theorem height_le_heightAll {n : Node} {ns : List Node} (h : n ∈ ns) :
    n.height ≤ heightAll ns := by
  induction ns with
  | nil => cases h
  | cons m ns ih =>
      rw [heightAll]
      rcases List.mem_cons.mp h with rfl | h
      · exact Nat.le_max_left _ _
      · exact (ih h).trans (Nat.le_max_right _ _)

/-- A part of a call is less high than the call. -/
theorem height_lt_call {n : Node} {ns : List Node} (h : n ∈ ns) :
    n.height < (Node.call ns).height :=
  Nat.lt_succ_of_le (height_le_heightAll h)

end Node

/-! ## Inert values -/

namespace Value

/-- A value is part of another one: it is the other one itself, or part of an element. -/
inductive PartOf (w : Value) : Value → Prop
  | self : PartOf w w
  | element {v : Value} {vs : List Value} (hv : v ∈ vs) (h : PartOf w v) : PartOf w (.list vs)

/-- Procedures, and the form that makes them. -/
inductive Procedural : Value → Prop
  | closure (p : Procedure) (s : Scope) : Procedural (.closure p s)
  | form : Procedural (.form .procedure)

/-- No part of the value is a procedure or the form that makes procedures. -/
def Inert (v : Value) : Prop := ∀ w : Value, w.PartOf v → ¬w.Procedural

theorem Inert.not_procedural {v : Value} (h : v.Inert) : ¬v.Procedural := h v .self

theorem inert_of_ne_list {v : Value} (hlist : ∀ vs, v ≠ .list vs) (h : ¬v.Procedural) :
    v.Inert := by
  intro w hw
  cases hw with
  | self => exact h
  | element => exact absurd rfl (hlist _)

theorem Plain.inert {v : Value} (h : v.Plain) : v.Inert := by
  refine inert_of_ne_list ?_ ?_
  · rintro vs rfl
    cases h
  · intro hprocedural
    cases hprocedural <;> cases h

theorem inert_list {vs : List Value} (h : ∀ v ∈ vs, v.Inert) : (Value.list vs).Inert := by
  intro w hw
  cases hw with
  | self => nofun
  | element hv hpart => exact h _ hv w hpart

end Value

namespace Evaluation

variable {ts : Tables} {e e' : Evaluation}

/-- The names in the expression are bound to inert values, if to any. -/
def Inert (ts : Tables) (e : Evaluation) : Prop :=
  ∀ x ∈ e.node.identifiers, ∀ v, e.scope.lookup? ts x = some v → v.Inert

/-- An evaluation has more room than those that it starts. -/
theorem Inner.depth_eq (h : Inner ts e e') : e.depth = e'.depth + 1 := by
  cases h <;> rfl

/-- A part of a call, in the scope of the call: its names are among those of the call. -/
theorem Inert.part {d : Nat} {ns : List Node} {n : Node} {s : Scope} {c c' : Console}
    (h : Inert ts ⟨d + 1, .call ns, s, c⟩) (hn : n ∈ ns) :
    Inert ts ⟨d, n, s, c'⟩ ∧ n.height < (Node.call ns).height :=
  ⟨fun x hx => h x (Node.mem_identifiersAll hn hx), Node.height_lt_call hn⟩

/-- If inert evaluations have inert values, they start inert evaluations only, of parts. -/
theorem Inner.inert_of_values (he : e.Inert ts) (h : Inner ts e e')
    (hvalues : ∀ e'', Inner ts e e'' → e''.Inert ts → ∀ v, (e''.outcome ts).1 = .ok v → v.Inert) :
    e'.Inert ts ∧ e'.node.height < e.node.height := by
  cases h with
  | operator => exact he.part List.mem_cons_self
  | operand => exact he.part (by simp)
  | condition => exact he.part (by simp)
  | @branch _ _ _ yes no _ _ _ _ b =>
      cases b with
      | true => exact he.part (by simp)
      | false => exact he.part (by simp)
  | bound => exact he.part (by simp)
  | @bindingBody d head value body x s c c₁ c₂ v hhead hvalue =>
      have hpart : Inert ts ⟨d, value, s, c₁⟩ := (he.part (by simp)).1
      have hv : v.Inert := hvalues _ (.bound hhead) hpart v (congrArg Prod.fst hvalue)
      obtain ⟨hbody, hheight⟩ : Inert ts ⟨d, body, s, c₂⟩ ∧ _ := he.part (by simp)
      refine ⟨?_, hheight⟩
      intro y hy w hw
      rw [Scope.lookup?_frame] at hw
      split at hw
      · cases hw
        exact hv
      · exact hbody y hy w hw
  | @procedureBody d head n operands before after s captured s' c c₁ c₂ c₃ p args v hhead =>
      -- the operator would have to have a procedure for its value
      have hpart : Inert ts ⟨d, head, s, c⟩ := (he.part List.mem_cons_self).1
      have hclosure : (Value.closure p captured).Inert :=
        hvalues _ .operator hpart _ (congrArg Prod.fst hhead)
      exact absurd (.closure p captured) hclosure.not_procedural

/-- An inert evaluation has an inert value. -/
theorem Inert.value (he : e.Inert ts) : ∀ v, (e.outcome ts).1 = .ok v → v.Inert := by
  induction hdepth : e.depth using Nat.strong_induction_on generalizing e with
  | _ d ih =>
      have hinner : ∀ e', Inner ts e e' → e'.Inert ts →
          ∀ v, (e'.outcome ts).1 = .ok v → v.Inert := by
        intro e' h he'
        have := h.depth_eq
        exact ih e'.depth (by omega) he' rfl
      have hresult : ∀ v, InnerResult ts e (.ok v) → v.Inert := by
        rintro v ⟨e', h, hv⟩
        exact hinner e' h (h.inert_of_values he hinner).1 v hv
      intro v hv
      have horigin := e.origin ts
      rw [hv] at horigin
      cases horigin with
      | bound hnode h => exact he _ (by rw [hnode]; exact List.mem_singleton_self _) v h
      | inner h => exact hresult v h
      | plain h => exact h.inert
      | list h => exact Value.inert_list fun w hw => hresult w (h w hw)
      | procedure _ hhead => exact absurd .form (hresult _ hhead).not_procedural

/-- An inert evaluation starts inert evaluations only, of parts of its expression. -/
theorem Inner.inert (h : Inner ts e e') (he : e.Inert ts) :
    e'.Inert ts ∧ e'.node.height < e.node.height :=
  h.inert_of_values he fun _ _ he'' => he''.value

/-- Whatever goes on in an inert evaluation, the room that is used up is height that is lost. -/
theorem Inert.within (he : e.Inert ts) (h : Relation.ReflTransGen (Inner ts) e e') :
    e'.Inert ts ∧ e.depth + e'.node.height ≤ e'.depth + e.node.height := by
  induction h with
  | refl => exact ⟨he, le_rfl⟩
  | @tail e₁ e₂ _ hstep ih =>
      obtain ⟨he₁, hle⟩ := ih
      obtain ⟨he₂, hheight⟩ := hstep.inert he₁
      have hdepth := hstep.depth_eq
      exact ⟨he₂, by omega⟩

/-- With room for its height an inert evaluation does not give out. -/
theorem Inert.ne_tooDeep (he : e.Inert ts) (hroom : e.node.height ≤ e.depth) :
    (e.outcome ts).1 ≠ .error .tooDeep := by
  induction hdepth : e.depth using Nat.strong_induction_on generalizing e with
  | _ d ih =>
      intro hgone
      have horigin := e.origin ts
      rw [hgone] at horigin
      cases horigin with
      | noRoom h =>
          have := e.node.height_pos
          omega
      | inner h =>
          obtain ⟨e', hinner, hr⟩ := h
          obtain ⟨he', hheight⟩ := hinner.inert he
          have hless := hinner.depth_eq
          exact ih e'.depth (by omega) he' (by omega) rfl hr
      | other h => exact h

end Evaluation

/-! ## The theorem -/

/-- Without procedures every evaluation ends.  Let no name in an expression be bound to a value that
is or contains a procedure or the form that makes procedures.  Then the evaluations that are active
at once, from that of the expression to any that goes on inside it, are never more than the
expression is high, whatever room there is and whatever there is to read.  So with room for the
height the evaluation does not give out, and more room makes no difference; and with any room a
value of the expression does not contain a procedure or the form either. -/
theorem evaluation_without_procedures_ends (ts : Tables) (n : Node) (s : Scope)
    (hnames : ∀ x ∈ n.identifiers, ∀ v, s.lookup? ts x = some v → v.Inert) (c : Console) :
    (∀ d e, Relation.ReflTransGen (Evaluation.Inner ts) ⟨d, n, s, c⟩ e →
      d - e.depth + 1 ≤ n.height) ∧
    (∀ d, n.height ≤ d → (eval ts d n s c).1 ≠ .error .tooDeep ∧
      eval ts d n s c = eval ts n.height n s c) ∧
    ∀ d v, (eval ts d n s c).1 = .ok v → v.Inert := by
  have hinert : ∀ d, Evaluation.Inert ts ⟨d, n, s, c⟩ := fun d => hnames
  have hends : ∀ d, n.height ≤ d → (eval ts d n s c).1 ≠ .error .tooDeep :=
    fun d hd => (hinert d).ne_tooDeep hd
  refine ⟨?_, ?_, fun d => (hinert d).value⟩
  · intro d e he
    have hwithin : d + e.node.height ≤ e.depth + n.height := ((hinert d).within he).2
    have hroot := n.height_pos
    have hpart := e.node.height_pos
    omega
  · intro d hd
    refine ⟨hends d hd, ?_⟩
    rcases (Eval.eval_goesOn ts n s hd c).2 with hsame | ⟨hgone, -⟩
    · exact hsame.symm
    · exact absurd hgone (hends n.height le_rfl)

/-- But for one, the names that every program starts with are bound to inert values. -/
theorem Table.initial_inert {x : String} {v : Value} (hx : x ≠ SpecialForm.procedure.name)
    (h : initial.lookup? x = some v) : v.Inert := by
  have hmem : (x, v) ∈ defaults := mem_of_get? h
  rcases native_of_mem_defaults hmem with ⟨b, hb⟩ | ⟨f, hf⟩ | hdefiner
  · obtain rfl : v = .builtin b := hb
    exact Value.inert_of_ne_list (by simp) (by rintro ⟨⟩)
  · obtain rfl : v = .form f := hf
    refine Value.inert_of_ne_list (by simp) ?_
    rintro ⟨⟩
    exact hx (by simpa [defaults] using hmem)
  · obtain rfl : v = .definer := hdefiner
    exact Value.inert_of_ne_list (by simp) (by rintro ⟨⟩)

/-- An expression that binds the form for conditions to another name, calls it by that name, and has
a list with the form for its value: `(let pick if (pick (< 1 2) (list pick) ()))`. -/
def pickNode : Node :=
  .call [.identifier "let", .identifier "pick", .identifier "if",
    .call [.identifier "pick",
      .call [.identifier "<", .literal (.integer 1), .literal (.integer 2)],
      .call [.identifier "list", .identifier "pick"], .call []]]

theorem evaluation_without_procedures_ends_pick :
    (eval [.initial] 3 pickNode (.top 0) {}).1 = .error .tooDeep ∧
      ∀ d, 4 ≤ d → (eval [.initial] d pickNode (.top 0) {}).1 = .ok (.list [.form .choice]) := by
  have hnames : ∀ x ∈ pickNode.identifiers, ∀ v,
      (Scope.top 0).lookup? [.initial] x = some v → v.Inert := by
    intro x hx v hv
    refine Table.initial_inert ?_ hv
    rintro rfl
    exact absurd hx (by decide)
  obtain ⟨-, hends, -⟩ := evaluation_without_procedures_ends [.initial] pickNode (.top 0) hnames {}
  refine ⟨rfl, fun d hd => ?_⟩
  rw [(hends d hd).2]
  rfl

end MiniLisp
