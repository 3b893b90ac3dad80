/-
# MiniLisp.Proofs.Session.DefinitionCalls — two ways to define a procedure.

A definition is a node of its own, and it can also be written as a call of the definition form.  As
long as the definition keyword means this form, or nothing at all, the two are the same statement:
both hand the same operands to the form, or both fail on the keyword.  They part where the keyword
is bound to something else, which the call then calls.
-/
import MiniLisp.Proofs.Node.DefinitionCalls
import MiniLisp.Proofs.Session.Atomicity

namespace MiniLisp

namespace Session

variable (limits : Limits) {s : Session} (name : String) (params : List String) (body : List Node)

/-- With the definition form to install it, a definition is installed, written in either way. -/
theorem statement_definition_of_definer
    (h : s.table.lookup? Node.definitionKeyword = some .definer) :
    statement limits (.definition name params body) s =
        install (Node.definitionOperands name params body) s ∧
      statement limits (Node.definitionCall name params body) s =
        install (Node.definitionOperands name params body) s := by
  constructor
  · rw [statement, bind_apply, lookup_apply, h]
  · have hcall : definitionCall? s.table (Node.definitionCall name params body) =
        some (Node.definitionOperands name params body) := by
      simp [Node.definitionCall, definitionCall?, h]
    rw [statement_apply limits s (by simp [Node.definitionCall]) (by simp [Node.definitionCall]),
      hcall, Option.elim_some]

/-- Without a meaning of the keyword a definition fails, written in either way.  The call needs room
for itself and for its operator. -/
theorem statement_definition_of_unbound (h : s.table.lookup? Node.definitionKeyword = none)
    (hroom : 2 ≤ limits.depth) :
    statement limits (.definition name params body) s =
        (.error (.evaluation (.unbound Node.definitionKeyword)), s) ∧
      statement limits (Node.definitionCall name params body) s =
        (.error (.evaluation (.unbound Node.definitionKeyword)), s) := by
  constructor
  · rw [statement, bind_apply, lookup_apply, h]
  · have hcall : definitionCall? s.table (Node.definitionCall name params body) = none := by
      simp [Node.definitionCall, definitionCall?, h]
    rw [statement_apply limits s (by simp [Node.definitionCall]) (by simp [Node.definitionCall]),
      hcall, Option.elim_none]
    obtain ⟨room, hdepth⟩ : ∃ room, limits.depth = room + 2 := ⟨limits.depth - 2, by omega⟩
    have hfind : Eval.find s.tables scope Node.definitionKeyword =
        .error (.unbound Node.definitionKeyword) := by
      have hlookup : scope.lookup? s.tables Node.definitionKeyword = none := h
      simp only [Eval.find, hlookup]
    have heval : eval s.tables limits.depth (Node.definitionCall name params body) scope s.console =
        (.error (.unbound Node.definitionKeyword), s.console) := by
      rw [hdepth, Node.definitionCall, eval, bind_apply, eval, hfind]
      rfl
    have happly : evaluate limits (Node.definitionCall name params body) s =
        perform (eval s.tables limits.depth (Node.definitionCall name params body) scope) s := rfl
    rw [happly, perform, heval]

end Session

/-! ## The theorem -/

/-- The two ways into a definition agree.  Wherever the reader of statements reads a definition from
a stream, the reader of expressions reads the call that is written like it, from the same tokens:
it leaves the very same stream.  And any definition and this call are the same statement in a
session where the keyword means the definition form or is not bound, with room for a call and its
operator: they have the same result or failure, leave the same session, and do nothing to the
console. -/
theorem definition_is_call :
    (∀ {limit : Nat} {s s' : TokenStream} {name : String} {params : List String} {body : List Node},
      Reader.statement limit s = (.ok (.definition name params body), s') →
      Reader.expression limit s = (.ok (Node.definitionCall name params body), s')) ∧
    ∀ (limits : Limits) (s : Session) (name : String) (params : List String) (body : List Node),
      (s.table.lookup? Node.definitionKeyword = some .definer ∨
        s.table.lookup? Node.definitionKeyword = none ∧ 2 ≤ limits.depth) →
      Session.statement limits (.definition name params body) s =
          Session.statement limits (Node.definitionCall name params body) s ∧
        (Session.statement limits (.definition name params body) s).2.console = s.console := by
  refine ⟨Reader.expression_of_definition, ?_⟩
  rintro limits s name params body (hdefiner | ⟨hunbound, hroom⟩)
  · obtain ⟨hnode, hcall⟩ :=
      Session.statement_definition_of_definer limits name params body hdefiner
    rw [hnode, hcall]
    have hinstall := (Session.install_ensures (s := s)
      (Node.definitionOperands name params body)).mono (Q := fun _ s' => s'.console = s.console)
      (G := fun _ s' => s'.console = s.console) ?_ ?_
    · exact ⟨rfl, hinstall.left⟩
    · rintro v s' ⟨-, _, _, -, -, rfl⟩
      rfl
    · rintro f s' ⟨-, rfl⟩
      rfl
  · obtain ⟨hnode, hcall⟩ :=
      Session.statement_definition_of_unbound limits name params body hunbound hroom
    rw [hnode, hcall]
    exact ⟨rfl, rfl⟩

/-- Where the keyword means another form, the definition fails and the call is a call of this form.
-/
example :
    let limits : Limits := { nesting := 9, depth := 9 }
    let s : Session := { table := Table.initial.define Node.definitionKeyword (.form .list) }
    (Session.statement limits (.definition "str" [] []) s).1 =
        .error (.evaluation (.notDefinitionForm (.form .list))) ∧
      (Session.statement limits (Node.definitionCall "str" [] []) s).1 =
        .ok (.list [.builtin .toText, .list []]) :=
  ⟨rfl, rfl⟩

theorem definition_is_call_oddly :
    let limits : Limits := { nesting := 9, depth := 2 }
    let source := (Node.program [oneNode]).format
    let oddly := Node.definitionCall "a b" ["x", "x"] [.program []]
    (∃ s', Reader.expression 2 (.ofText source) =
        (.ok (Node.definitionCall "one" one.params one.body), s')) ∧
      (Session.statement limits oddly {}).1 = .ok .unit ∧
      (Session.statement limits oddly { table := {} }).1 =
        .error (.evaluation (.unbound Node.definitionKeyword)) := by
  intro limits source oddly
  obtain ⟨hread, hstatement⟩ := definition_is_call
  refine ⟨?_, ?_, ?_⟩
  · have hwellFormed : (Node.program [oneNode]).WellFormed := by decide
    have hlexed : lexed source.toList source.toList = ((Node.program [oneNode]).tokens, none) :=
      hwellFormed.spells_format.lexed_eq
    have hfuture : (TokenStream.ofText source).future = (oneNode.tokens ++ [], none) := hlexed
    obtain ⟨hdelivers, -⟩ := Reader.statement_delivers (hwellFormed oneNode (by simp)) hfuture
    obtain ⟨s', hs', -⟩ := hdelivers (by decide : oneNode.nesting ≤ 2)
    exact ⟨s', hread hs'⟩
  · have hsame := (hstatement limits {} "a b" ["x", "x"] [.program []] (.inl rfl)).1
    rw [← hsame]
    rfl
  · have hsame :=
      (hstatement limits { table := {} } "a b" ["x", "x"] [.program []] (.inr ⟨rfl, by decide⟩)).1
    rw [← hsame]
    rfl

end MiniLisp
