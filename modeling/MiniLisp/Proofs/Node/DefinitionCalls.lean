/-
# MiniLisp.Proofs.Node.DefinitionCalls — a definition that is read as a call.

A definition has a routine of its own, which is used only where a statement may begin.  Anywhere
else the same tokens are read like any list.  The two ways have the same lists open at every token,
and these lists differ in the outermost one only: the one way has put the head of the definition
into its opening, and the other way has it among the children.  So both end at the same token, with
trees that differ in the same way.
-/
import MiniLisp.Proofs.Node.Faults

namespace MiniLisp

/-- The call that is written like a definition. -/
def Node.definitionCall (name : String) (params : List String) (body : List Node) : Node :=
  .call (.identifier definitionKeyword :: definitionOperands name params body)

namespace Reader

variable {limit room : Nat} {o o' : Opening} {front : List Node} {current current' : Unfinished}
  {outer outer' : List Unfinished} {s s' : TokenStream} {n : Node}

/-! ## The same lists with another outermost one -/

/-- Unfinished lists that are the same but for the outermost one: `o` began it on one side, and `o'`
on the other, where it has the children `front` besides, in front of all others. -/
inductive Reopened (o o' : Opening) (front : List Node) :
    Unfinished → List Unfinished → Unfinished → List Unfinished → Prop
  | outermost (children : List Node) :
      Reopened o o' front ⟨o, children⟩ [] ⟨o', children ++ front.reverse⟩ []
  | inner (u : Unfinished) {next next' : Unfinished} {outer outer' : List Unfinished}
      (h : Reopened o o' front next outer next' outer') :
      Reopened o o' front u (next :: outer) u (next' :: outer')

theorem Reopened.push (h : Reopened o o' front current outer current' outer') (n : Node) :
    Reopened o o' front (current.push n) outer (current'.push n) outer' := by
  cases h with
  | outermost children => exact .outermost (n :: children)
  | inner _ h => exact .inner (current.push n) h

/-- Lists that differ like this are read to the same token, and their trees differ in the same way.
-/
theorem list_reopened (h : Reopened o o' front current outer current' outer')
    (hread : list room current outer s = (.ok n, s')) :
    ∃ children, n = o.close children ∧
      list room current' outer' s = (.ok (o'.close (front ++ children)), s') := by
  induction hk : s.size using Nat.strongRecOn generalizing room current outer current' outer' s with
  | _ k ih =>
    subst hk
    rw [list] at hread
    split at hread
    · cases hread
    · cases hread
    · next ha =>
      cases h with
      | outermost children =>
          cases hread
          refine ⟨children.reverse, rfl, ?_⟩
          rw [list_close_last ha]
          simp [Unfinished.close]
      | inner _ h =>
          rw [list_close ha]
          exact ih _ (TokenStream.advance_size ha) (h.push current.close) hread rfl
    · next ha =>
      split at hread
      · cases hread
      · rw [list_open ha]
        exact ih _ (TokenStream.advance_size ha) (.inner _ h) hread rfl
    · next hclose hopen ha =>
      rw [list_atom ha hopen hclose]
      exact ih _ (TokenStream.advance_size ha) (h.push _) hread rfl

/-- What begins as a call is read as one. -/
theorem exists_call_of_openList (hread : openList limit .call s = (.ok n, s')) :
    ∃ children, n = .call children := by
  cases limit with
  | zero => cases hread
  | succ room =>
      have hsame : Reopened .call .call [] { opening := .call } [] { opening := .call } [] :=
        .outermost []
      obtain ⟨children, hn, -⟩ := list_reopened hsame hread
      exact ⟨children, hn⟩

/-! ## The head of a definition in a list -/

/-- A parameter list is read like a list of names in a list. -/
theorem params_inside {name : String} {done ps : List String} {next : Unfinished}
    (hread : params name done s = (.ok ps, s')) :
    list room ⟨.call, done.map .identifier⟩ (next :: outer) s =
      list (room + 1) (next.push (.call (ps.map .identifier))) outer s' := by
  induction hk : s.size using Nat.strongRecOn generalizing done s with
  | _ k ih =>
    subst hk
    rw [params] at hread
    split at hread
    · cases hread
    · next ht =>
      cases hread
      rw [list_close (advance_of_token ht), Unfinished.close, Opening.close, List.map_reverse]
    · next p s₁ ht =>
      rw [list_atom (advance_of_token ht) (by simp) (by simp)]
      exact ih s₁.size (token_size ht) hread rfl
    · cases hread

/-- The tokens behind the keyword of a definition are read as the operands of a call. -/
theorem definition_inside (hread : definition limit s = (.ok n, s')) :
    ∃ room name ps body, limit = room + 1 ∧ n = .definition name ps body ∧
      list room ⟨.call, [.identifier Node.definitionKeyword]⟩ [] s =
        (.ok (Node.definitionCall name ps body), s') := by
  simp only [definition] at hread
  split at hread
  · cases hread
  · next name s₁ h₁ =>
    split at hread
    · cases hread
    · next s₂ h₂ =>
      split at hread
      · cases hread
      · next hroom =>
        obtain ⟨more, rfl⟩ : ∃ more, limit = more + 2 := ⟨limit - 2, by omega⟩
        split at hread
        · cases hread
        · next ps s₃ h₃ =>
          -- what the routine has put into the opening, the list has among its children
          let head : List Node := [.identifier Node.definitionKeyword, .identifier name,
            .call (ps.map .identifier)]
          have hlists : Reopened (.definition name ps) .call head ⟨.definition name ps, []⟩ []
              ⟨.call, head.reverse⟩ [] := .outermost []
          obtain ⟨body, hn, hbody⟩ := list_reopened hlists hread
          refine ⟨more + 1, name, ps, body, rfl, hn, ?_⟩
          rw [list_atom (advance_of_token h₁) (by simp) (by simp),
            list_open (advance_of_token h₂)]
          exact (params_inside h₃).trans hbody
    · cases hread
  · cases hread

/-- Where no definition is expected, the tokens of one are read as a call, and to the same token. -/
theorem expression_of_definition {name : String} {ps : List String} {body : List Node}
    (hread : statement limit s = (.ok (.definition name ps body), s')) :
    expression limit s = (.ok (Node.definitionCall name ps body), s') := by
  simp only [statement] at hread
  split at hread
  · cases hread
  · cases hread
  · next s₁ h₁ =>
    split at hread
    · cases hread
    · next shown s₂ hp =>
      split at hread
      · next hkeyword =>
        subst hkeyword
        have hadvance := TokenStream.advance_of_peek hp
        rw [hadvance] at hread
        obtain ⟨room, name', ps', body', rfl, hn, hlist⟩ := definition_inside hread
        cases hn
        simp only [expression, h₁, openList]
        rw [list_atom ((TokenStream.advance_eq_of_peek hp).trans hadvance) (by simp) (by simp)]
        exact hlist
      · obtain ⟨children, hn⟩ := exists_call_of_openList hread
        cases hn
  · next t s₁ _ _ h₁ =>
    cases t <;> cases hread

end Reader

end MiniLisp
