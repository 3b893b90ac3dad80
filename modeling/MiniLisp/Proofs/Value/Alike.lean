/-
# MiniLisp.Proofs.Value.Alike — values that differ in scopes only.

Procedures made by the same expression in two scopes are not equal, and no program can tell them
apart as long as the scopes mean alike for every name in the body.  `Value.Alike` is equality up to
such scopes.  They may not differ anyhow: `base` gives the pairs of scopes that two evaluations
start in, and `Scope.Grown` says that two scopes are made from such a pair, or from one scope, by
the same frames around values that are alike.  So a procedure that was there before has its own
scope on both sides, and the difference is in the procedures that the evaluations make.
-/
import Mathlib.Data.List.Forall2
import MiniLisp.Failure
import MiniLisp.Proofs.Value.Lookup

namespace MiniLisp

/-! ## Written names -/

namespace Node

mutual

/-- The names that occur in a tree, wherever they occur. -/
def identifiers : Node → List String
  | .literal _ | .bare _ => []
  | .identifier x => [x]
  | .call children => identifiersAll children
  | .definition name params body => name :: (params ++ identifiersAll body)
  | .program statements => identifiersAll statements

/-- The names that occur in some trees. -/
def identifiersAll : List Node → List String
  | [] => []
  | n :: ns => n.identifiers ++ identifiersAll ns

end

theorem identifiersAll_append (ns ms : List Node) :
    identifiersAll (ns ++ ms) = identifiersAll ns ++ identifiersAll ms := by
  induction ns with
  | nil => rfl
  | cons n ns ih => simp only [List.cons_append, identifiersAll, ih, List.append_assoc]

theorem mem_identifiersAll {x : String} {n : Node} {ns : List Node} (hn : n ∈ ns)
    (hx : x ∈ n.identifiers) : x ∈ identifiersAll ns := by
  induction ns with
  | nil => cases hn
  | cons m ns ih =>
      rw [identifiersAll, List.mem_append]
      rcases List.mem_cons.mp hn with rfl | hn
      · exact .inl hx
      · exact .inr (ih hn)

end Node

/-! ## Values and scopes that are alike -/

mutual

/-- Values that are equal up to the scopes of procedures without a name.  Such scopes grow alike and
mean alike for every name in the body. -/
inductive Value.Alike (ts : Tables) (base : Scope → Scope → Prop) : Value → Value → Prop
  | refl (v : Value) : Value.Alike ts base v v
  | list {vs ws : List Value} (h : List.Forall₂ (Value.Alike ts base) vs ws) :
      Value.Alike ts base (.list vs) (.list ws)
  | closure {p : Procedure} {s t : Scope} (anonymous : p.name = none)
      (grown : Scope.Grown ts base s t)
      (lookups : ∀ x ∈ Node.identifiersAll p.body,
        Option.Rel (Value.Alike ts base) (s.lookup? ts x) (t.lookup? ts x)) :
      Value.Alike ts base (.closure p s) (.closure p t)

/-- Scopes that are made by the same frames, around values that are alike, from one scope or from a
pair of `base`. -/
inductive Scope.Grown (ts : Tables) (base : Scope → Scope → Prop) : Scope → Scope → Prop
  | same (s : Scope) : Scope.Grown ts base s s
  | base {s t : Scope} (h : base s t) : Scope.Grown ts base s t
  | frame {x : String} {v w : Value} {s t : Scope} (hv : Value.Alike ts base v w)
      (h : Scope.Grown ts base s t) : Scope.Grown ts base (.frame x v s) (.frame x w t)

end

/-- A relation of scopes that is kept by a frame, where `f` gives the name on the other side, is kept
when parameters are bound to arguments. -/
theorem Scope.extend_related {V : Value → Value → Prop} {R : Scope → Scope → Prop}
    (f : String → String) (params : List String)
    (hframe : ∀ x ∈ params, ∀ v w s t, V v w → R s t → R (.frame x v s) (.frame (f x) w t))
    {vs ws : List Value} (hvs : List.Forall₂ V vs ws) {s t : Scope} (h : R s t) :
    R (s.extend (params.zip vs)) (t.extend ((params.map f).zip ws)) := by
  -- the first parameter is the outermost of the new frames
  induction hvs generalizing params s t with
  | nil =>
      rw [List.zip_nil_right, List.zip_nil_right]
      exact h
  | @cons v w _ _ hv _ ih =>
      cases params with
      | nil => exact h
      | cons x params =>
          refine ih params (fun y hy => hframe y (List.mem_cons_of_mem x hy)) ?_
          exact hframe x List.mem_cons_self v w s t hv h

/-- Scopes that grow alike and mean alike for the names `xs`. -/
structure Scope.Alike (ts : Tables) (base : Scope → Scope → Prop) (xs : List String) (s t : Scope) :
    Prop where
  grown : Scope.Grown ts base s t
  lookups : ∀ x ∈ xs, Option.Rel (Value.Alike ts base) (s.lookup? ts x) (t.lookup? ts x)

namespace Scope.Alike

variable {ts : Tables} {base : Scope → Scope → Prop} {xs ys : List String} {s t : Scope}

theorem mono (h : Scope.Alike ts base ys s t) (hxs : ∀ x ∈ xs, x ∈ ys) :
    Scope.Alike ts base xs s t :=
  ⟨h.grown, fun x hx => h.lookups x (hxs x hx)⟩

theorem of_eq (hgrown : Scope.Grown ts base s t)
    (h : ∀ x ∈ xs, s.lookup? ts x = t.lookup? ts x) : Scope.Alike ts base xs s t := by
  refine ⟨hgrown, fun x hx => ?_⟩
  rw [h x hx]
  cases t.lookup? ts x with
  | none => exact .none
  | some v => exact .some (.refl v)

/-- One more binding of the same name to values that are alike. -/
theorem frame (h : Scope.Alike ts base xs s t) (x : String) {v w : Value}
    (hv : v.Alike ts base w) : Scope.Alike ts base xs (.frame x v s) (.frame x w t) := by
  refine ⟨.frame hv h.grown, fun y hy => ?_⟩
  rw [lookup?_frame, lookup?_frame]
  by_cases hxy : x = y
  · rw [if_pos hxy, if_pos hxy]
    exact .some hv
  · rw [if_neg hxy, if_neg hxy]
    exact h.lookups y hy

/-- The same parameters bound to arguments that are alike. -/
theorem extend (h : Scope.Alike ts base xs s t) (params : List String) {vs ws : List Value}
    (hvs : List.Forall₂ (Value.Alike ts base) vs ws) :
    Scope.Alike ts base xs (s.extend (params.zip vs)) (t.extend (params.zip ws)) := by
  have hextend := Scope.extend_related id params (R := Scope.Alike ts base xs)
    (fun x _ _ _ _ _ hv h => h.frame x hv) hvs h
  rwa [List.map_id] at hextend

end Scope.Alike

/-! ## Messages -/

namespace Value.Alike

variable {ts : Tables} {base : Scope → Scope → Prop}

theorem typeName_eq {v w : Value} (h : v.Alike ts base w) : v.typeName = w.typeName := by
  cases h <;> rfl

mutual

/-- Values that are alike are written alike. -/
theorem describe_eq : (v : Value) → {w : Value} → v.Alike ts base w → v.describe = w.describe
  | .list vs, _, h => by
      cases h with
      | refl => rfl
      | list hvs => exact congrArg Text.tuple (describeAll_eq vs hvs)
  | .closure p s, _, h => by
      cases h <;> rfl
  | .int _, _, h | .bool _, _, h | .str _, _, h | .unit, _, h | .builtin _, _, h
  | .form _, _, h | .definer, _, h => by
      cases h
      rfl

theorem describeAll_eq : (vs : List Value) → {ws : List Value} →
    List.Forall₂ (Value.Alike ts base) vs ws → describeAll vs = describeAll ws
  | [], _, .nil => rfl
  | v :: vs, w :: ws, .cons h hs => by
      rw [describeAll, describeAll, describe_eq v h, describeAll_eq vs hs]

end

end Value.Alike

end MiniLisp
