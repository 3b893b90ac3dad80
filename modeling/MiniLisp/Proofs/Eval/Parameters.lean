/-
# MiniLisp.Proofs.Eval.Parameters — which nodes are parameter lists.

A parameter list is a call of nothing but names.  The procedure form and the definition form both
read one, and where they fail the error is about the node that is out of place.
-/
import MiniLisp.Eval

namespace MiniLisp

namespace Eval

variable {owner : String} {n : Node} {e : EvalError} {xs : List String}

theorem identifiers_eq_ok_iff {ns : List Node} :
    identifiers owner ns = .ok xs ↔ ns = xs.map .identifier := by
  constructor
  · intro h
    induction ns generalizing xs with
    | nil =>
        cases h
        rfl
    | cons n ns ih =>
        cases n with
        | identifier x =>
            simp only [identifiers] at h
            split at h
            · next hns =>
                cases h
                rw [ih hns, List.map_cons]
            · cases h
        | _ => cases h
  · rintro rfl
    induction xs with
    | nil => rfl
    | cons x xs ih => simp only [List.map_cons, identifiers, ih]

theorem parameters_eq_ok_iff : parameters owner n = .ok xs ↔ n = .call (xs.map .identifier) := by
  cases n with
  | call children => simp [parameters, identifiers_eq_ok_iff]
  | _ => simp [parameters]

theorem identifiers_eq_error {ns : List Node} (h : identifiers owner ns = .error e) :
    ∃ m ∈ ns, e = .notParameter owner m := by
  induction ns with
  | nil => cases h
  | cons n ns ih =>
      cases n with
      | identifier x =>
          simp only [identifiers] at h
          split at h
          · cases h
          · next hns =>
              cases h
              obtain ⟨m, hm, hnode⟩ := ih hns
              exact ⟨m, List.mem_cons_of_mem _ hm, hnode⟩
      | _ =>
          cases h
          exact ⟨_, List.mem_cons_self, rfl⟩

/-- The node is no list, or one of its parts is no name. -/
theorem parameters_eq_error (h : parameters owner n = .error e) :
    e = .notParameterList owner n ∨ ∃ m, e = .notParameter owner m := by
  cases n with
  | call children =>
      obtain ⟨m, -, hnode⟩ := identifiers_eq_error h
      exact .inr ⟨m, hnode⟩
  | _ =>
      cases h
      exact .inl rfl

end Eval

end MiniLisp
