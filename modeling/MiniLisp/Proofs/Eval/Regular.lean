/-
# MiniLisp.Proofs.Eval.Regular — expressions in which one sees what binds what.

The two forms that bind names are values, so in general the text of an expression does not tell
which names it binds.  It does where these forms are never handed around: a regular expression uses
their names for complete forms only, and in a regular scope these names stand for the forms and no
other name leads to them.  Then the free names of an expression are those that it asks its scope
for.

Scopes are cyclic through their tables.  So regular scopes are not defined by recursion: a scope is
regular if every scope that can be reached from it is in order, and `Scope.regular_iff` is the
recursion.
-/
import MiniLisp.Proofs.Eval.NestedBindings
import MiniLisp.Proofs.Value.Printing

namespace MiniLisp

/-! ## Expressions -/

/-- A form that binds names. -/
def SpecialForm.Binds (f : SpecialForm) : Prop := f = .binding ∨ f = .procedure

/-- The name of a form that binds names. -/
def Reserved (x : String) : Prop := x = SpecialForm.binding.name ∨ x = SpecialForm.procedure.name

instance : DecidablePred Reserved := fun x => inferInstanceAs (Decidable (x = _ ∨ x = _))

namespace Node

/-- An expression in which the forms that bind names occur as operators of complete forms only, and
their names are not bound. -/
inductive Regular : Node → Prop
  | literal (t : Token) : Regular (.literal t)
  | identifier {x : String} (h : ¬Reserved x) : Regular (.identifier x)
  | call {ns : List Node} (h : ∀ n ∈ ns, Regular n) : Regular (.call ns)
  | binding {x : String} {value body : Node} (hx : ¬Reserved x) (hvalue : Regular value)
      (hbody : Regular body) : Regular (.binding x value body)
  | procedure {xs : List String} {body : Node} (hxs : ∀ x ∈ xs, ¬Reserved x)
      (hbody : Regular body) : Regular (.procedure xs body)

mutual

/-- The names that an expression does not bind itself.  A binding form binds its name in the last
part only, and the procedure form binds the parameters in the body. -/
def freeNames : Node → List String
  | .identifier x => [x]
  | .call [.identifier f, n, value, body] =>
    if f = SpecialForm.binding.name then
      value.freeNames ++ body.freeNames.filter (· ∉ n.identifiers)
    else f :: (n.freeNames ++ value.freeNames ++ body.freeNames)
  | .call [.identifier f, params, body] =>
    if f = SpecialForm.procedure.name then body.freeNames.filter (· ∉ params.identifiers)
    else f :: (params.freeNames ++ body.freeNames)
  | .call ns => freeNamesAll ns
  | _ => []
termination_by structural n => n

/-- The free names of each expression. -/
def freeNamesAll : List Node → List String
  | [] => []
  | n :: ns => n.freeNames ++ freeNamesAll ns
termination_by structural ns => ns

end

theorem mem_freeNames_binding {x y : String} {value body : Node} :
    y ∈ (binding x value body).freeNames ↔ y ∈ value.freeNames ∨ y ∈ body.freeNames ∧ y ≠ x := by
  simp [binding, freeNames, identifiers]

theorem identifiersAll_names (xs : List String) : identifiersAll (xs.map .identifier) = xs := by
  induction xs with
  | nil => rfl
  | cons x xs ih => rw [List.map_cons, identifiersAll, ih, identifiers, List.singleton_append]

theorem mem_freeNames_procedure {xs : List String} {y : String} {body : Node} :
    y ∈ (procedure xs body).freeNames ↔ y ∈ body.freeNames ∧ y ∉ xs := by
  simp [procedure, freeNames, identifiers, identifiersAll_names]

theorem mem_freeNamesAll {n : Node} {ns : List Node} {y : String} (hn : n ∈ ns)
    (hy : y ∈ n.freeNames) : y ∈ freeNamesAll ns := by
  induction ns with
  | nil => cases hn
  | cons m ns ih =>
      rw [freeNamesAll, List.mem_append]
      rcases List.mem_cons.mp hn with rfl | hn
      · exact .inl hy
      · exact .inr (ih hn)

/-- A call of regular expressions is none of the two forms, so what is free in a part is free in the
call. -/
theorem mem_freeNames_call {n : Node} {ns : List Node} {y : String} (h : ∀ n ∈ ns, n.Regular)
    (hn : n ∈ ns) (hy : y ∈ n.freeNames) : y ∈ (call ns).freeNames := by
  have hall : y ∈ freeNamesAll ns := mem_freeNamesAll hn hy
  unfold freeNames
  split
  · exact absurd ‹_› (by simp)
  · next f m value body hcall =>
    cases hcall
    have hhead := h (.identifier f) (by simp)
    cases hhead with
    | identifier hf =>
        rw [if_neg fun heq => hf (.inl heq)]
        simpa [freeNamesAll, freeNames] using hall
  · next f params body hcall =>
    cases hcall
    have hhead := h (.identifier f) (by simp)
    cases hhead with
    | identifier hf =>
        rw [if_neg fun heq => hf (.inr heq)]
        simpa [freeNamesAll, freeNames] using hall
  · next ms _ _ hcall =>
    cases hcall
    exact hall
  · next hother => exact absurd rfl (hother ns)

end Node

/-! ## Scopes -/

/-- A binding of a scope: a frame, or an entry of the table at the end. -/
inductive Scope.Binds (ts : Tables) (s : Scope) (x : String) (v : Value) : Prop
  | frame (h : (x, v) ∈ s.frames)
  | table (h : ts.lookup? s.root x = some v)

/-- A scope that another one leads to: itself, or through a procedure that is bound in it, maybe as
an element of a list, and then on from the scope that the procedure was made in. -/
inductive Scope.Reaches (ts : Tables) : Scope → Scope → Prop
  | refl (s : Scope) : Reaches ts s s
  | captured {s captured u : Scope} {x : String} {v : Value} {p : Procedure}
      (hv : s.Binds ts x v) (hp : .closure p captured ∈ v.leaves) (h : Reaches ts captured u) :
      Reaches ts s u

/-- A procedure whose body is regular, with parameters that may be bound, in a scope that binds
whatever else is free in the body. -/
structure Procedure.Closed (ts : Tables) (captured : Scope) (p : Procedure) : Prop where
  params : ∀ x ∈ p.params, ¬Reserved x
  body : ∀ n ∈ p.body, n.Regular
  free : ∀ n ∈ p.body, ∀ x ∈ n.freeNames, x ∈ p.params ∨ captured.contains ts x = true

/-- What a regular scope asks of its own bindings: the two names stand for the forms, no other name
leads to one of them, and procedures are closed. -/
structure Scope.InOrder (ts : Tables) (s : Scope) : Prop where
  binding : s.lookup? ts SpecialForm.binding.name = some (.form .binding)
  procedure : s.lookup? ts SpecialForm.procedure.name = some (.form .procedure)
  others : ∀ {x v}, s.Binds ts x v → ¬Reserved x → ∀ f : SpecialForm, f.Binds → .form f ∉ v.leaves
  closed : ∀ {x v p captured}, s.Binds ts x v → .closure p captured ∈ v.leaves →
    p.Closed ts captured

/-- A scope from which only scopes in order can be reached. -/
def Scope.Regular (ts : Tables) (s : Scope) : Prop := ∀ u, s.Reaches ts u → u.InOrder ts

/-- A value that a name may be bound to in a regular scope. -/
structure Value.Regular (ts : Tables) (v : Value) : Prop where
  closures : ∀ {p captured}, .closure p captured ∈ v.leaves →
    captured.Regular ts ∧ p.Closed ts captured
  others : ∀ f : SpecialForm, f.Binds → .form f ∉ v.leaves

namespace Scope

variable {ts : Tables} {s : Scope} {x y : String} {v w : Value}

/-- A regular scope is in order, and procedures that are bound in it were made in regular scopes. -/
theorem regular_iff : s.Regular ts ↔ s.InOrder ts ∧ ∀ x v p captured, s.Binds ts x v →
    .closure p captured ∈ v.leaves → captured.Regular ts := by
  constructor
  · intro h
    refine ⟨h s (.refl s), fun x v p captured hv hp u hu => ?_⟩
    exact h u (.captured hv hp hu)
  · rintro ⟨horder, hcaptured⟩ u hu
    cases hu with
    | refl => exact horder
    | captured hv hp h => exact hcaptured _ _ _ _ hv hp u h

/-- Scopes in order that lead to each other only are regular. -/
theorem regular_of_invariant {P : Scope → Prop} (horder : ∀ u, P u → u.InOrder ts)
    (hcaptured : ∀ u x v p captured, P u → u.Binds ts x v → .closure p captured ∈ v.leaves →
      P captured) (hs : P s) : s.Regular ts := by
  intro u hu
  induction hu with
  | refl s => exact horder s hs
  | captured hv hp _ ih => exact ih (hcaptured _ _ _ _ _ hs hv hp)

theorem binds_frame (h : (frame x v s).Binds ts y w) : (y = x ∧ w = v) ∨ s.Binds ts y w := by
  cases h with
  | frame h =>
      rcases List.mem_cons.mp h with h | h
      · exact .inl (Prod.mk.inj h)
      · exact .inr (.frame h)
  | table h => exact .inr (.table h)

theorem binds_of_lookup? : {s : Scope} → s.lookup? ts x = some v → s.Binds ts x v
  | top _, h => .table h
  | frame y w outer, h => by
      rw [lookup?_frame] at h
      split at h
      · next hy =>
          cases h
          exact .frame (hy ▸ List.mem_cons_self)
      · cases binds_of_lookup? h with
        | frame h => exact .frame (List.mem_cons_of_mem _ h)
        | table h => exact .table h

/-- Any other name than the two means a regular value, if anything. -/
theorem Regular.lookup? (hs : s.Regular ts) (hx : ¬Reserved x) (h : s.lookup? ts x = some v) :
    v.Regular ts := by
  obtain ⟨horder, hcaptured⟩ := regular_iff.mp hs
  have hv := binds_of_lookup? h
  exact ⟨fun hp => ⟨hcaptured _ _ _ _ hv hp, horder.closed hv hp⟩, horder.others hv hx⟩

/-- A regular value in front of a regular scope. -/
theorem Regular.frame (hs : s.Regular ts) (hx : ¬Reserved x) (hv : v.Regular ts) :
    (frame x v s).Regular ts := by
  obtain ⟨horder, hcaptured⟩ := regular_iff.mp hs
  have hother : ∀ z, Reserved z → (Scope.frame x v s).lookup? ts z = s.lookup? ts z := by
    intro z hz
    rw [lookup?_frame, if_neg]
    rintro rfl
    exact hx hz
  refine regular_iff.mpr ⟨⟨?_, ?_, ?_, ?_⟩, ?_⟩
  · rw [hother _ (.inl rfl)]
    exact horder.binding
  · rw [hother _ (.inr rfl)]
    exact horder.procedure
  · intro z w hw hz
    obtain ⟨rfl, rfl⟩ | hw := binds_frame hw
    · exact hv.others
    · exact horder.others hw hz
  · intro z w p captured hw hp
    obtain ⟨rfl, rfl⟩ | hw := binds_frame hw
    · exact (hv.closures hp).2
    · exact horder.closed hw hp
  · intro z w p captured hw hp
    obtain ⟨rfl, rfl⟩ | hw := binds_frame hw
    · exact (hv.closures hp).1
    · exact hcaptured _ _ _ _ hw hp

/-- Parameters that are bound to regular arguments. -/
theorem Regular.extend (hs : s.Regular ts) {params : List String} {args : List Value}
    (hparams : ∀ x ∈ params, ¬Reserved x) (hargs : ∀ v ∈ args, v.Regular ts) :
    (s.extend (params.zip args)).Regular ts := by
  refine extend_induction (P := (·.Regular ts)) (fun b hb u hu => ?_) hs
  obtain ⟨hparam, harg⟩ := List.of_mem_zip hb
  exact hu.frame (hparams b.1 hparam) (hargs b.2 harg)

end Scope

/-! ## Values -/

namespace Value

variable {ts : Tables}

theorem mem_leavesAll {w : Value} {vs : List Value} (h : w ∈ leavesAll vs) :
    ∃ v ∈ vs, w ∈ v.leaves := by
  induction vs with
  | nil => cases h
  | cons v vs ih =>
      rw [leavesAll, List.mem_append] at h
      rcases h with h | h
      · exact ⟨v, List.mem_cons_self, h⟩
      · obtain ⟨u, hu, hw⟩ := ih h
        exact ⟨u, List.mem_cons_of_mem v hu, hw⟩

theorem regular_list {vs : List Value} (h : ∀ v ∈ vs, v.Regular ts) : (list vs).Regular ts := by
  constructor
  · intro p captured hp
    obtain ⟨v, hv, hp⟩ := mem_leavesAll hp
    exact (h v hv).closures hp
  · intro f hf hform
    obtain ⟨v, hv, hform⟩ := mem_leavesAll hform
    exact (h v hv).others f hf hform

/-- A procedure that is closed in a regular scope. -/
theorem regular_closure {p : Procedure} {captured : Scope} (hs : captured.Regular ts)
    (hp : p.Closed ts captured) : (closure p captured).Regular ts := by
  constructor
  · intro q u hq
    obtain ⟨rfl, rfl⟩ := Value.closure.inj (List.mem_singleton.mp hq)
    exact ⟨hs, hp⟩
  · intro f _ hform
    cases List.mem_singleton.mp hform

end Value

end MiniLisp
