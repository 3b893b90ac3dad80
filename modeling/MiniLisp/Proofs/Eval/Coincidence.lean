/-
# MiniLisp.Proofs.Eval.Coincidence — a scope matters for the written names only.

Two scopes that mean the same for every name that occurs in an expression give it the same effects
and, up to the scopes of procedures it makes, the same result.  The two runs do not stay in equal
scopes: a binding form, or a procedure made by one part and called by another, carries the
difference along.  So the simulation relates scopes that mean alike for the names of what is
evaluated in them, and values that are alike.
-/
import MiniLisp.Proofs.Eval.Simulation
import MiniLisp.Proofs.Value.Alike

namespace MiniLisp

/-- Errors of one kind that say the same. -/
def EvalError.SameReport (e f : EvalError) : Prop :=
  Failure.kindOfEvaluation e = Failure.kindOfEvaluation f ∧ e.message = f.message

/-- Calls report values that are alike in the same words. -/
theorem EvalError.Congr.sameReport {ts : Tables} {base : Scope → Scope → Prop}
    {N : Node → Node → Prop} {P : Procedure → Procedure → Prop} (hN : ∀ {n m}, N n m → n = m)
    (hP : ∀ {p q}, P p q → p = q) {e f : EvalError}
    (h : EvalError.Congr (Value.Alike ts base) N P e f) : e.SameReport f := by
  refine ⟨by cases h <;> rfl, ?_⟩
  -- messages speak of a value by its type and its description, and both are blind to scopes
  cases h with
  | notCallable hn hv =>
      unfold EvalError.message
      simp only [hN hn, hv.typeName_eq]
  | argumentCount h _ => rw [hP h]
  | emptyBody h => rw [hP h]
  | notIntegers b hv hw =>
      unfold EvalError.message
      simp only [hv.typeName_eq, hw.typeName_eq, hv.describe_eq, hw.describe_eq]
  | notCondition h =>
      unfold EvalError.message
      simp only [h.typeName_eq, h.describe_eq]
  | notBindable h => rw [hN h]
  | notParameterList owner h => rw [hN h]
  | notParameter owner h => rw [hN h]
  | notPrintable h =>
      unfold EvalError.message
      simp only [h.typeName_eq, h.describe_eq]
  | _ => rfl

namespace Eval

variable {ts : Tables} {base : Scope → Scope → Prop}

theorem find_agree {x : String} {s t : Scope}
    (h : Option.Rel (Value.Alike ts base) (s.lookup? ts x) (t.lookup? ts x)) :
    Agree (Value.Alike ts base) EvalError.SameReport (find ts s x) (find ts t x) := by
  unfold find
  generalize s.lookup? ts x = r, t.lookup? ts x = r' at h ⊢
  cases h with
  | some h => exact .ok h
  | none => exact .error ⟨rfl, rfl⟩

/-- Evaluations of one expression in scopes that mean alike for its names. -/
def coincidence (ts : Tables) (base : Scope → Scope → Prop) : Simulation ts ts where
  Val := Value.Alike ts base
  Err := EvalError.SameReport
  At n s m t := n = m ∧ Scope.Alike ts base n.identifiers s t
  val_congr := by
    intro v w h
    cases h with
    | refl =>
        cases v with
        | list vs => exact .list (List.forall₂_same.mpr fun v _ => .refl v)
        | _ => constructor
    | list h => exact .list h
    | closure => constructor
  int _ _ := .refl _
  bool b := .refl _
  str text := .refl _
  unit := .refl _
  list h := .list h
  at_congr := by
    rintro n _ s t ⟨rfl, h⟩
    cases n with
    | call ns =>
        refine .call (List.forall₂_same.mpr fun n hn => ⟨rfl, h.mono fun x hx => ?_⟩)
        exact Node.mem_identifiersAll hn hx
    | _ => constructor
  atom := by
    rintro n _ s t ⟨rfl, h⟩ hcall depth
    cases n with
    | identifier x => exact .lift (find_agree (h.lookups x (List.mem_singleton.mpr rfl)))
    | literal tok => exact .refl .refl (fun _ => ⟨rfl, rfl⟩) _
    | call ns =>
        cases ns with
        | nil => exact .pure (.refl _)
        | cons head operands => exact absurd rfl (hcall head operands)
    | _ => exact .throw ⟨rfl, rfl⟩
  binding := by
    rintro x y n _ s t v w ⟨hx, -⟩ ⟨rfl, h⟩ hv
    cases hx
    exact ⟨rfl, h.frame x hv⟩
  procedure := by
    rintro xs ys n _ s t ⟨hxs, -⟩ ⟨rfl, h⟩
    obtain rfl : xs = ys := Node.map_identifier_inj (Node.call.inj hxs)
    -- the names in the body are among those of the whole expression
    refine .closure rfl h.grown fun x hx => h.lookups x ?_
    simpa [Node.identifiersAll] using hx
  params_length := by
    intro p q s t h
    cases h <;> rfl
  body := by
    intro p q s t vs ws h hargs _
    -- a procedure that was there before is the same on both sides, with the scope it captured
    have hpq : p = q ∧ Scope.Alike ts base (Node.identifiersAll p.body) s t := by
      cases h with
      | refl => exact ⟨rfl, .of_eq (.same s) fun x _ => rfl⟩
      | closure _ grown lookups => exact ⟨rfl, grown, lookups⟩
    obtain ⟨rfl, hscope⟩ := hpq
    refine List.forall₂_same.mpr fun n hn => ⟨rfl, ?_⟩
    exact (hscope.mono fun x hx => Node.mem_identifiersAll hn hx).extend p.params hargs
  err := by
    intro e f h
    refine EvalError.Congr.sameReport ?_ ?_ h
    · rintro n m ⟨s, t, hnm, -⟩
      exact hnm
    · rintro p q ⟨s, t, hpq⟩
      cases hpq <;> rfl

/-- An expression in scopes that mean alike for its names. -/
theorem eval_alike {n : Node} {s t : Scope} (h : Scope.Alike ts base n.identifiers s t)
    (depth : Nat) :
    Action.Agree (Value.Alike ts base) EvalError.SameReport (eval ts depth n s)
      (eval ts depth n t) :=
  (coincidence ts base).eval_agree ⟨rfl, h⟩ depth

end Eval

open Eval

/-- The two scopes that a pair of evaluations starts in. -/
def Scope.Pair (s t s' t' : Scope) : Prop := s' = s ∧ t' = t

/-- A scope influences evaluation through the names that are written in the expression, and in no
other way.  Two scopes that mean the same for each of them, or nothing in both, lead to the same
console and to values that are alike above the two, or to errors of one kind in the same words.  So
bindings of other names, put in front of a scope where the expression is evaluated, change nothing,
not even for the procedures that it calls. -/
theorem evaluation_reads_written_names (ts : Tables) (n : Node) (depth : Nat) :
    (∀ s t : Scope, (∀ x ∈ n.identifiers, s.lookup? ts x = t.lookup? ts x) →
      Action.Agree (Value.Alike ts (Scope.Pair s t)) EvalError.SameReport (eval ts depth n s)
        (eval ts depth n t)) ∧
    ∀ (s : Scope) (bs : List (String × Value)), (∀ b ∈ bs, b.1 ∉ n.identifiers) →
      Action.Agree (Value.Alike ts (Scope.Pair (s.extend bs) s)) EvalError.SameReport
        (eval ts depth n (s.extend bs)) (eval ts depth n s) := by
  constructor
  · intro s t hlookups
    exact eval_alike (.of_eq (.base ⟨rfl, rfl⟩) hlookups) depth
  · intro s bs hbs
    refine eval_alike (.of_eq (.base ⟨rfl, rfl⟩) fun x hx => ?_) depth
    refine Scope.lookup?_extend_of_notMem ts fun b hb heq => ?_
    exact hbs b hb (heq ▸ hx)

/-- The procedure that adds a number to a name. -/
def adder : Procedure where
  name := none
  params := ["x"]
  body := [.call [.identifier "+", .identifier "x", .identifier "y"]]

/-- The expression that makes it. -/
def adderNode : Node :=
  .call (.identifier "lambda" :: .call (adder.params.map .identifier) :: adder.body)

theorem evaluation_reads_written_names_adder :
    let s : Scope := .frame "y" (.int 1) (.frame "z" .unit (.top 0))
    let t : Scope := .frame "y" (.int 1) (.top 0)
    Value.Alike [.initial] (Scope.Pair s t) (.closure adder s) (.closure adder t) ∧
      Value.Alike [.initial] (Scope.Pair (.frame "z" .unit t) t)
        (.closure adder (.frame "z" .unit t)) (.closure adder t) := by
  intro s t
  have hlookups : ∀ x ∈ adderNode.identifiers,
      s.lookup? [.initial] x = t.lookup? [.initial] x := by
    intro x hx
    have hz : "z" ≠ x := by
      rintro rfl
      exact absurd hx (by decide)
    simp only [s, t, Scope.lookup?, if_neg hz]
  obtain ⟨hscopes, hbindings⟩ := evaluation_reads_written_names [.initial] adderNode 2
  obtain ⟨-, hst⟩ := hscopes s t hlookups {}
  obtain ⟨-, hz⟩ := hbindings t [("z", .unit)] (by decide) {}
  constructor
  · cases hst with | ok h => exact h
  · cases hz with | ok h => exact h

end MiniLisp
