/-
# MiniLisp.Proofs.Value.Renamed — values up to the name of one binding.

A `Renaming` puts one name in place of another wherever it is written.  Where a binding is renamed
together with the expression that it is made for, the evaluations meet two kinds of procedures.
Those that the expression makes are renamed: their parameters, their bodies, and the frames that
they capture down to the binding itself.  Those that were there before keep their text and their
scopes, but they can be handed renamed procedures, so the values in their frames may differ.

The two kinds of scopes have nothing in common, because a renamed scope has the old name on one side
where it has the new name on the other.
-/
import MiniLisp.Proofs.Value.Alike

namespace MiniLisp

/-! ## Renaming -/

/-- One name to be put in place of another. -/
structure Renaming where
  old : String
  new : String

/-- The name that stands for a name. -/
def Renaming.name (ρ : Renaming) (z : String) : String := if z = ρ.old then ρ.new else z

/-- Different names stay different, unless one of them is the new name. -/
theorem Renaming.name_inj {ρ : Renaming} {z z' : String} (hz : z ≠ ρ.new) (hz' : z' ≠ ρ.new) :
    ρ.name z = ρ.name z' ↔ z = z' := by
  unfold name
  by_cases hold : z = ρ.old
  · by_cases hold' : z' = ρ.old
    · simp [hold, hold']
    · rw [if_pos hold, if_neg hold']
      constructor
      · rintro rfl
        exact absurd rfl hz'
      · rintro rfl
        exact absurd hold hold'
  · by_cases hold' : z' = ρ.old
    · rw [if_neg hold, if_pos hold']
      constructor
      · rintro rfl
        exact absurd rfl hz
      · rintro rfl
        exact absurd hold' hold
    · rw [if_neg hold, if_neg hold']

/-- A name in its own place. -/
theorem Renaming.name_self (x z : String) : Renaming.name ⟨x, x⟩ z = z := by
  unfold name
  split
  · next h => exact h.symm
  · rfl

namespace Node

mutual

/-- The tree with a name replaced wherever it occurs. -/
def rename (ρ : Renaming) : Node → Node
  | .literal t => .literal t
  | .identifier z => .identifier (ρ.name z)
  | .call children => .call (renameAll ρ children)
  | .definition name params body =>
    .definition (ρ.name name) (params.map ρ.name) (renameAll ρ body)
  | .program statements => .program (renameAll ρ statements)
  | .bare t => .bare t

/-- Each tree with the name replaced. -/
def renameAll (ρ : Renaming) : List Node → List Node
  | [] => []
  | n :: ns => n.rename ρ :: renameAll ρ ns

end

theorem renameAll_eq_map (ρ : Renaming) (ns : List Node) : renameAll ρ ns = ns.map (rename ρ) := by
  induction ns with
  | nil => rfl
  | cons n ns ih => rw [renameAll, ih, List.map_cons]

/-- A list of names is renamed name by name. -/
theorem rename_names (ρ : Renaming) (xs : List String) :
    (Node.call (xs.map .identifier)).rename ρ = .call ((xs.map ρ.name).map .identifier) := by
  rw [rename, renameAll_eq_map, List.map_map, List.map_map]
  rfl

mutual

/-- Putting a name in its own place changes nothing. -/
theorem rename_self (x : String) : (n : Node) → n.rename ⟨x, x⟩ = n
  | .literal _ | .bare _ => rfl
  | .identifier z => by rw [rename, Renaming.name_self]
  | .call children => by rw [rename, renameAll_self x children]
  | .definition name params body => by
      have hparams : params.map (Renaming.name ⟨x, x⟩) = params := by
        rw [List.map_congr_left fun z _ => Renaming.name_self x z, List.map_id']
      rw [rename, Renaming.name_self, hparams, renameAll_self x body]
  | .program statements => by rw [rename, renameAll_self x statements]

theorem renameAll_self (x : String) : (ns : List Node) → renameAll ⟨x, x⟩ ns = ns
  | [] => rfl
  | n :: ns => by rw [renameAll, rename_self x n, renameAll_self x ns]

end

end Node

/-- The text of a procedure with a name replaced in its parameters and its body. -/
def Procedure.rename (ρ : Renaming) (p : Procedure) : Procedure :=
  { p with params := p.params.map ρ.name, body := Node.renameAll ρ p.body }

/-! ## Values and scopes -/

mutual

/-- Values that are equal up to the renaming of one binding, which was made above the scope `outer`.
Only procedures without a name can differ, and lists of them. -/
inductive Value.Renamed (ρ : Renaming) (outer : Scope) : Value → Value → Prop
  | refl (v : Value) : Value.Renamed ρ outer v v
  | list {vs ws : List Value} (h : List.Forall₂ (Value.Renamed ρ outer) vs ws) :
      Value.Renamed ρ outer (.list vs) (.list ws)
  /-- Procedures that the renamed expression makes. -/
  | renamed {p : Procedure} {s t : Scope} (anonymous : p.name = none)
      (fresh : ρ.new ∉ p.params ++ Node.identifiersAll p.body) (scopes : Scope.Renamed ρ outer s t) :
      Value.Renamed ρ outer (.closure p s) (.closure (p.rename ρ) t)
  /-- Procedures that other expressions make, which were handed renamed values. -/
  | kept {p : Procedure} {s t : Scope} (anonymous : p.name = none)
      (scopes : Scope.Kept ρ outer s t) : Value.Renamed ρ outer (.closure p s) (.closure p t)

/-- Scopes of the renamed expression: the binding under its two names, and above it renamed
frames. -/
inductive Scope.Renamed (ρ : Renaming) (outer : Scope) : Scope → Scope → Prop
  | bound (v : Value) : Scope.Renamed ρ outer (.frame ρ.old v outer) (.frame ρ.new v outer)
  | frame {z : String} {v w : Value} {s t : Scope} (fresh : z ≠ ρ.new)
      (hv : Value.Renamed ρ outer v w) (scopes : Scope.Renamed ρ outer s t) :
      Scope.Renamed ρ outer (.frame z v s) (.frame (ρ.name z) w t)

/-- Scopes of other expressions: one scope, and above it frames of the same names. -/
inductive Scope.Kept (ρ : Renaming) (outer : Scope) : Scope → Scope → Prop
  | same (s : Scope) : Scope.Kept ρ outer s s
  | frame {z : String} {v w : Value} {s t : Scope} (hv : Value.Renamed ρ outer v w)
      (scopes : Scope.Kept ρ outer s t) : Scope.Kept ρ outer (.frame z v s) (.frame z w t)

end

namespace Scope

variable {ts : Tables} {ρ : Renaming} {outer s t : Scope}

/-- Frames that are kept have one name, and are kept below. -/
theorem Kept.of_frames {x y : String} {v w : Value}
    (h : Scope.Kept ρ outer (.frame x v s) (.frame y w t)) : x = y ∧ Scope.Kept ρ outer s t := by
  generalize hs : Scope.frame x v s = s', ht : Scope.frame y w t = t' at h
  cases h with
  | same =>
      cases hs
      cases ht
      exact ⟨rfl, .same _⟩
  | frame _ scopes =>
      cases hs
      cases ht
      exact ⟨rfl, scopes⟩

/-- At the binding itself the names differ. -/
theorem Renamed.not_kept (hρ : ρ.old ≠ ρ.new) :
    {s t : Scope} → Scope.Renamed ρ outer s t → ¬Scope.Kept ρ outer s t
  | _, _, .bound _, hkept => hρ hkept.of_frames.1
  | _, _, .frame _ _ scopes, hkept => scopes.not_kept hρ hkept.of_frames.2

/-! ### Looking names up -/

/-- A name that is kept means the same up to the renaming. -/
theorem Kept.lookup? (ts : Tables) (x : String) : {s t : Scope} → Scope.Kept ρ outer s t →
    Option.Rel (Value.Renamed ρ outer) (s.lookup? ts x) (t.lookup? ts x)
  | s, _, .same _ => by
      cases s.lookup? ts x with
      | none => exact .none
      | some v => exact .some (.refl v)
  | _, _, @Scope.Kept.frame _ _ z _ _ _ _ hv scopes => by
      rw [lookup?_frame, lookup?_frame]
      split
      · exact .some hv
      · exact scopes.lookup? ts x

/-- A name means up to the renaming what the name that stands for it means. -/
theorem Renamed.lookup? (ts : Tables) {x : String} (hx : x ≠ ρ.new) :
    {s t : Scope} → Scope.Renamed ρ outer s t →
    Option.Rel (Value.Renamed ρ outer) (s.lookup? ts x) (t.lookup? ts (ρ.name x))
  | _, _, .bound v => by
      rw [lookup?_frame, lookup?_frame, Renaming.name]
      by_cases hold : x = ρ.old
      · rw [if_pos hold.symm, if_pos hold, if_pos rfl]
        exact .some (.refl v)
      · -- below the binding it is the same scope
        rw [if_neg (Ne.symm hold), if_neg hold, if_neg (Ne.symm hx)]
        exact (Kept.same outer).lookup? ts x
  | _, _, @Scope.Renamed.frame _ _ z _ _ _ _ fresh hv scopes => by
      rw [lookup?_frame, lookup?_frame]
      by_cases hz : z = x
      · rw [if_pos hz, if_pos (congrArg ρ.name hz)]
        exact .some hv
      · rw [if_neg hz, if_neg fun h => hz ((Renaming.name_inj fresh hx).mp h)]
        exact scopes.lookup? ts hx

/-! ### Arguments -/

theorem Kept.extend (h : Scope.Kept ρ outer s t) (params : List String) {vs ws : List Value}
    (hvs : List.Forall₂ (Value.Renamed ρ outer) vs ws) :
    Scope.Kept ρ outer (s.extend (params.zip vs)) (t.extend (params.zip ws)) := by
  have hextend := Scope.extend_related id params (R := Scope.Kept ρ outer)
    (fun _ _ _ _ _ _ hv h => .frame hv h) hvs h
  rwa [List.map_id] at hextend

theorem Renamed.extend (h : Scope.Renamed ρ outer s t) {params : List String}
    (fresh : ρ.new ∉ params) {vs ws : List Value}
    (hvs : List.Forall₂ (Value.Renamed ρ outer) vs ws) :
    Scope.Renamed ρ outer (s.extend (params.zip vs)) (t.extend ((params.map ρ.name).zip ws)) := by
  refine Scope.extend_related ρ.name params (R := Scope.Renamed ρ outer) ?_ hvs h
  intro z hz v w s t hv h
  exact .frame (fun heq => fresh (heq ▸ hz)) hv h

end Scope

end MiniLisp
