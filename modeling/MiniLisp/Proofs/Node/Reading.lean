/-
# MiniLisp.Proofs.Node.Reading — what the reader makes of tokens.

The reader keeps unfinished lists on a stack, so it is followed step by step.  One direction goes
along a tree: met inside any list, the tokens of an expression push that expression, if there is
room for its nesting, and else the reader runs out of room.  The other goes along a run: whatever
has been read stands in the unfinished lists, token by token.  Together they give
`parse_eq_ok_iff`, the exact meaning of reading a text.
-/
import MiniLisp.Proofs.Node.Grammar
import MiniLisp.Proofs.Token.Stream

namespace MiniLisp.Reader

open Node (tokensAll nestingAll)

variable {room limit : Nat} {current : Unfinished} {outer : List Unfinished}
variable {s s' : TokenStream} {t : Token} {us : List Token} {e : Option LexError}

/-! ## One token of a list -/

theorem list_open (h : s.advance = (.ok (some .openParen), s')) :
    list (room + 1) current outer s = list room { opening := .call } (current :: outer) s' := by
  rw [list]
  split <;> simp_all

theorem list_open_full (h : s.advance = (.ok (some .openParen), s')) :
    list 0 current outer s = (.error .tooDeep, s') := by
  rw [list]
  split <;> simp_all

theorem list_close {next : Unfinished} (h : s.advance = (.ok (some .closeParen), s')) :
    list room current (next :: outer) s = list (room + 1) (next.push current.close) outer s' := by
  rw [list]
  split <;> simp_all

theorem list_close_last (h : s.advance = (.ok (some .closeParen), s')) :
    list room current [] s = (.ok current.close, s') := by
  rw [list]
  split <;> simp_all

theorem list_atom (h : s.advance = (.ok (some t), s')) (hopen : t ≠ .openParen)
    (hclose : t ≠ .closeParen) :
    list room current outer s = list room (current.push (atom t)) outer s' := by
  rw [list]
  split <;> simp_all

theorem list_error {err : LexError} (h : s.advance = (.error err, s')) :
    list room current outer s = (.error (.lexical err), s') := by
  rw [list]
  split <;> simp_all

theorem list_ended (h : s.advance = (.ok none, s')) :
    list room current outer s = (.error current.opening.unclosed, s') := by
  rw [list]
  split <;> simp_all

/-! ## Expressions of one token -/

/-- The token `t` is the expression `n` by itself. -/
structure IsAtom (t : Token) (n : Node) : Prop where
  node : atom t = n
  opens : t ≠ .openParen
  closes : t ≠ .closeParen
  tokens : n.tokens = [t]
  nesting : n.nesting = 0

theorem isAtom_literal (h : t.IsLiteral) : IsAtom t (.literal t) where
  node := by
    cases t with
    | symbol x => exact h.elim
    | _ => rfl
  opens := by
    rintro rfl
    exact h
  closes := by
    rintro rfl
    exact h
  tokens := rfl
  nesting := rfl

theorem isAtom_symbol (x : String) : IsAtom (.symbol x) (.identifier x) :=
  ⟨rfl, by simp, by simp, rfl, rfl⟩

/-! ## The tokens of expressions, read inside a list -/

/-- A list with more children. -/
def Unfinished.pushAll (u : Unfinished) (ns : List Node) : Unfinished :=
  { u with children := ns.reverse ++ u.children }

theorem Unfinished.pushAll_cons (u : Unfinished) (n : Node) (ns : List Node) :
    u.pushAll (n :: ns) = (u.push n).pushAll ns := by
  simp [pushAll, push]

/-- Inside a list the tokens of `ns` are read as `ns`, if there is room for their nesting. -/
def Takes (ns : List Node) : Prop :=
  ∀ room current outer (s : TokenStream) us e, s.future = (tokensAll ns ++ us, e) →
    (nestingAll ns ≤ room → ∃ s', s'.future = (us, e) ∧
      list room current outer s = list room (current.pushAll ns) outer s') ∧
    (room < nestingAll ns → (list room current outer s).1 = .error .tooDeep)

theorem takes_cons {n : Node} {ns : List Node} (h : Takes [n]) (hs : Takes ns) :
    Takes (n :: ns) := by
  intro room current outer s us e hf
  have hf' : s.future = (tokensAll [n] ++ (tokensAll ns ++ us), e) := by
    simpa [tokensAll] using hf
  have hn : nestingAll [n] = n.nesting := by simp [nestingAll]
  obtain ⟨hread, hfull⟩ := h room current outer s _ e hf'
  rw [hn] at hread hfull
  rw [nestingAll]
  by_cases hroom : n.nesting ≤ room
  · obtain ⟨s₁, hf₁, hl₁⟩ := hread hroom
    obtain ⟨hread', hfull'⟩ := hs room (current.push n) outer s₁ us e hf₁
    have hpush : current.pushAll [n] = current.push n := rfl
    rw [hl₁, hpush, current.pushAll_cons]
    exact ⟨fun hle => hread' (by omega), fun hlt => hfull' (by omega)⟩
  · -- the first does not fit, and then nothing behind it is read
    exact ⟨fun hle => absurd hle (by omega), fun _ => hfull (by omega)⟩

theorem takes_of_forall {ns : List Node} (h : ∀ n ∈ ns, Takes [n]) : Takes ns := by
  induction ns with
  | nil =>
      intro room current outer s us e hf
      exact ⟨fun _ => ⟨s, hf, rfl⟩, fun hlt => absurd hlt (by simp [nestingAll])⟩
  | cons n ns ih => exact takes_cons (h n (by simp)) (ih fun m hm => h m (by simp [hm]))

theorem takes_atom {n : Node} (h : IsAtom t n) : Takes [n] := by
  intro room current outer s us e hf
  rw [Node.tokensAll_singleton, h.tokens] at hf
  obtain ⟨s', ha, hf'⟩ := TokenStream.advance_token hf
  have hnesting : nestingAll [n] = 0 := by simp [nestingAll, h.nesting]
  rw [hnesting]
  refine ⟨fun _ => ⟨s', hf', ?_⟩, fun hlt => absurd hlt (by omega)⟩
  rw [list_atom ha h.opens h.closes, h.node]
  rfl

/-- A list of expressions is read as a call. -/
theorem takes_call {ns : List Node} (h : Takes ns) : Takes [.call ns] := by
  intro room current outer s us e hf
  have hf' : s.future = (.openParen :: (tokensAll ns ++ .closeParen :: us), e) := by
    simpa [tokensAll, Node.tokens] using hf
  have hn : nestingAll [.call ns] = nestingAll ns + 1 := by simp [nestingAll, Node.nesting]
  obtain ⟨s₁, ha₁, hf₁⟩ := TokenStream.advance_token hf'
  rw [hn]
  cases room with
  | zero =>
      exact ⟨fun hle => absurd hle (by omega), fun _ => by rw [list_open_full ha₁]⟩
  | succ room =>
      -- while the operands are read there is room for one list less
      obtain ⟨hread, hfull⟩ := h room { opening := .call } (current :: outer) s₁ _ e hf₁
      rw [list_open ha₁]
      refine ⟨fun hle => ?_, fun hlt => hfull (by omega)⟩
      obtain ⟨s₂, hf₂, hl₂⟩ := hread (by omega)
      obtain ⟨s₃, ha₃, hf₃⟩ := TokenStream.advance_token hf₂
      refine ⟨s₃, hf₃, ?_⟩
      rw [hl₂, list_close ha₃]
      simp [Unfinished.pushAll, Unfinished.push, Unfinished.close, Opening.close]

theorem takes_expression {n : Node} (h : n.Expression) : Takes [n] := by
  induction h with
  | literal h => exact takes_atom (isAtom_literal h)
  | identifier _ => exact takes_atom (isAtom_symbol _)
  | call _ ih => exact takes_call (takes_of_forall ih)

/-! ## The tokens of statements -/

/-- Reading something that nests `depth` lists: with room for them it is `a` and leaves the future
`f`, and without there is too little room. -/
def Delivers {α : Type} (depth limit : Nat) (a : α) (f : List Token × Option LexError)
    (r : Outcome α) : Prop :=
  (depth ≤ limit → ∃ s', r = (.ok a, s') ∧ s'.future = f) ∧
    (limit < depth → r.1 = .error .tooDeep)

theorem token_of_future (h : s.future = (t :: us, e)) :
    ∃ s', token s = (.ok t, s') ∧ s'.future = (us, e) := by
  obtain ⟨s', ha, hf⟩ := TokenStream.advance_token h
  exact ⟨s', by simp [token, ha], hf⟩

/-- A list of expressions, after its opening. -/
theorem openList_delivers {opening : Opening} {ns : List Node} (h : ∀ n ∈ ns, n.Expression)
    (hf : s.future = (tokensAll ns ++ .closeParen :: us, e)) :
    Delivers (nestingAll ns + 1) limit (opening.close ns) (us, e) (openList limit opening s) := by
  have htakes : Takes ns := takes_of_forall fun n hn => takes_expression (h n hn)
  cases limit with
  | zero => exact ⟨fun hle => absurd hle (by omega), fun _ => rfl⟩
  | succ room =>
      obtain ⟨hread, hfull⟩ := htakes room { opening } [] s _ e hf
      refine ⟨fun hle => ?_, fun hlt => hfull (by omega)⟩
      obtain ⟨s₁, hf₁, hl₁⟩ := hread (by omega)
      obtain ⟨s₂, ha₂, hf₂⟩ := TokenStream.advance_token hf₁
      refine ⟨s₂, ?_, hf₂⟩
      rw [openList, hl₁, list_close_last ha₂]
      simp [Unfinished.pushAll, Unfinished.close]

theorem params_apply (name : String) (done : List String) (s : TokenStream) :
    params name done s = match token s with
      | (.error e, s) => (.error e, s)
      | (.ok .closeParen, s) => (.ok done.reverse, s)
      | (.ok (.symbol p), s) => params name (p :: done) s
      | (.ok t, s) => (.error (.parameter name t), s) := by
  rw [params]
  split <;> simp_all

theorem params_of_future {name : String} {done ps : List String}
    (hf : s.future = (ps.map .symbol ++ .closeParen :: us, e)) :
    ∃ s', params name done s = (.ok (done.reverse ++ ps), s') ∧ s'.future = (us, e) := by
  induction ps generalizing done s with
  | nil =>
      obtain ⟨s₁, ht, hf₁⟩ := token_of_future hf
      refine ⟨s₁, ?_, hf₁⟩
      rw [params_apply, ht, List.append_nil]
  | cons p ps ih =>
      obtain ⟨s₁, ht, hf₁⟩ := token_of_future hf
      obtain ⟨s₂, hp, hf₂⟩ := @ih s₁ (p :: done) hf₁
      refine ⟨s₂, ?_, hf₂⟩
      rw [List.reverse_cons, List.append_assoc] at hp
      rw [params_apply, ht]
      exact hp

/-- A definition, after its keyword. -/
theorem definition_delivers {name : String} {ps : List String} {body : List Node}
    (h : ∀ n ∈ body, n.Expression)
    (hf : s.future = (.symbol name :: .openParen ::
      (ps.map .symbol ++ .closeParen :: (tokensAll body ++ .closeParen :: us)), e)) :
    Delivers (Node.definition name ps body).nesting limit (.definition name ps body) (us, e)
      (definition limit s) := by
  obtain ⟨s₁, ht₁, hf₁⟩ := token_of_future hf
  obtain ⟨s₂, ht₂, hf₂⟩ := token_of_future hf₁
  obtain ⟨s₃, hp, hf₃⟩ := @params_of_future s₂ _ e name [] ps hf₂
  obtain ⟨hread, hfull⟩ := @openList_delivers limit s₃ us e (.definition name ps) body h hf₃
  rw [List.reverse_nil, List.nil_append] at hp
  unfold Delivers definition
  simp only [ht₁, ht₂, Node.nesting]
  -- the parameter list needs room too, also where the body has no lists
  split
  · exact ⟨fun hle => absurd hle (by omega), fun _ => rfl⟩
  · simp only [hp]
    exact ⟨fun hle => hread (by omega), fun hlt => hfull (by omega)⟩

theorem statement_atom {n : Node} (h : IsAtom t n) (hf : s.future = (n.tokens ++ us, e)) :
    Delivers n.nesting limit n (us, e) (statement limit s) := by
  rw [h.tokens] at hf
  obtain ⟨s₁, ht, hf₁⟩ := token_of_future hf
  have hnesting := h.nesting
  refine ⟨fun _ => ⟨s₁, ?_, hf₁⟩, fun hlt => absurd hlt (by omega)⟩
  have hnode := h.node
  have hopen := h.opens
  have hclose := h.closes
  rw [statement, ht]
  split <;> simp_all

/-- The tokens of an expression are read as that expression, also where they begin like a
definition. -/
theorem expression_delivers {n : Node} (h : n.Expression) (hf : s.future = (n.tokens ++ us, e)) :
    Delivers n.nesting limit n (us, e) (expression limit s) := by
  have hatom : ∀ {t}, IsAtom t n → Delivers n.nesting limit n (us, e) (expression limit s) := by
    intro t ht
    rw [ht.tokens] at hf
    obtain ⟨s₁, hs₁, hf₁⟩ := token_of_future hf
    refine ⟨fun _ => ⟨s₁, ?_, hf₁⟩, fun hlt => absurd hlt (by rw [ht.nesting]; omega)⟩
    have hnode := ht.node
    have hopen := ht.opens
    have hclose := ht.closes
    rw [expression, hs₁]
    split <;> simp_all
  cases h with
  | literal h => exact hatom (isAtom_literal h)
  | identifier _ => exact hatom (isAtom_symbol _)
  | @call ns h =>
      have hf' : s.future = (.openParen :: (tokensAll ns ++ .closeParen :: us), e) := by
        simpa [Node.tokens] using hf
      obtain ⟨s₁, ht₁, hf₁⟩ := token_of_future hf'
      rw [expression, ht₁]
      exact openList_delivers h hf₁

/-- The token behind the parenthesis of a call is the definition keyword only if the call begins
with it. -/
theorem not_keyword_of_plain {ns : List Node}
    (plain : (Node.call ns).startsDefinition = false) (h : ∀ n ∈ ns, n.Expression) :
    (tokensAll ns ++ .closeParen :: us).head? ≠ some (.symbol Node.definitionKeyword) := by
  cases ns with
  | nil => simp [tokensAll]
  | cons n ns =>
      cases h n (by simp) with
      | literal hlit =>
          rw [tokensAll, Node.tokens]
          rintro ⟨rfl⟩
          exact hlit
      | identifier _ =>
          rw [tokensAll, Node.tokens]
          rintro ⟨rfl⟩
          exact absurd plain (by simp [Node.startsDefinition])
      | call _ => simp [tokensAll, Node.tokens]

/-- The tokens of a statement are read as that statement. -/
theorem statement_delivers {n : Node} (h : n.Statement) (hf : s.future = (n.tokens ++ us, e)) :
    Delivers n.nesting limit n (us, e) (statement limit s) := by
  cases h with
  | expression hexpr plain =>
      cases hexpr with
      | literal h => exact statement_atom (isAtom_literal h) hf
      | identifier _ => exact statement_atom (isAtom_symbol _) hf
      | @call ns h =>
          have hf' : s.future = (.openParen :: (tokensAll ns ++ .closeParen :: us), e) := by
            simpa [Node.tokens] using hf
          obtain ⟨s₁, ht₁, hf₁⟩ := token_of_future hf'
          have hkey : (tokensAll ns ++ .closeParen :: us).head? ≠ _ := not_keyword_of_plain plain h
          obtain ⟨u, ts, hts⟩ : ∃ u ts, tokensAll ns ++ .closeParen :: us = u :: ts := by
            cases tokensAll ns <;> simp
          rw [hts] at hf₁ hkey
          obtain ⟨s₂, hp, hf₂⟩ := TokenStream.peek_token hf₁
          rw [← hts] at hf₂
          have hne : some u ≠ some (.symbol Node.definitionKeyword) := hkey
          rw [statement, ht₁]
          simp only [hp, if_neg hne]
          exact openList_delivers h hf₂
  | @definition name ps body name_ok params_ok body_ok =>
      have hf' : s.future = (.openParen :: .symbol Node.definitionKeyword :: .symbol name ::
          .openParen :: (ps.map .symbol ++ .closeParen :: (tokensAll body ++ .closeParen :: us)),
          e) := by
        simpa [Node.tokens] using hf
      obtain ⟨s₁, ht₁, hf₁⟩ := token_of_future hf'
      obtain ⟨s₂, hp, hf₂⟩ := TokenStream.peek_token hf₁
      obtain ⟨s₃, ha, hf₃⟩ := TokenStream.advance_token hf₂
      rw [statement, ht₁]
      simp only [hp, ha, if_true]
      exact definition_delivers body_ok hf₃

theorem statements_end {done : List Node} (h : s.peek = (.ok none, s')) :
    statements limit done s = (.ok done.reverse, s') := by
  rw [statements]
  split <;> simp_all

theorem statements_error {done : List Node} {err : LexError} (h : s.peek = (.error err, s')) :
    statements limit done s = (.error (.lexical err), s') := by
  rw [statements]
  split <;> simp_all

/-- What one statement does to the reading of a program. -/
theorem statements_step {done : List Node} (h : s.peek = (.ok (some t), s')) :
    statements limit done s = match statement limit s' with
      | (.error e, s₂) => (.error e, s₂)
      | (.ok n, s₂) => statements limit (n :: done) s₂ := by
  rw [statements]
  split
  · next hp => rw [h] at hp; cases hp
  · next hp => rw [h] at hp; cases hp
  · next hp =>
      rw [h] at hp
      cases hp
      split <;> simp_all

/-- The tokens of some statements are read as those statements. -/
theorem statements_delivers {done ns : List Node} (h : ∀ n ∈ ns, n.Statement)
    (hf : s.future = (tokensAll ns, none)) :
    Delivers (nestingAll ns) limit (done.reverse ++ ns) ([], none) (statements limit done s) := by
  -- along the statements; whatever is done already comes first in the answer
  induction ns generalizing done s with
  | nil =>
      obtain ⟨s₁, hp, hf₁⟩ := TokenStream.peek_end hf
      refine ⟨fun _ => ⟨s₁, ?_, hf₁⟩, fun hlt => absurd hlt (by simp [nestingAll])⟩
      rw [statements_end hp, List.append_nil]
  | cons n ns ih =>
      have hn := h n (by simp)
      obtain ⟨t, ts, hts⟩ := hn.exists_tokens_cons
      rw [tokensAll, hts, List.cons_append] at hf
      obtain ⟨s₁, hp, hf₁⟩ := TokenStream.peek_token hf
      rw [← List.cons_append, ← hts] at hf₁
      obtain ⟨hread, hfull⟩ := @statement_delivers limit s₁ _ none n hn hf₁
      rw [nestingAll, statements_step hp]
      by_cases hroom : n.nesting ≤ limit
      · obtain ⟨s₂, hst, hf₂⟩ := hread hroom
        obtain ⟨hread', hfull'⟩ := @ih s₂ (n :: done) (fun m hm => h m (by simp [hm])) hf₂
        have hrev : (n :: done).reverse ++ ns = done.reverse ++ n :: ns := by simp
        rw [hst, ← hrev]
        exact ⟨fun hle => hread' (by omega), fun hlt => hfull' (by omega)⟩
      · refine ⟨fun hle => absurd hle (by omega), fun _ => ?_⟩
        have hfail := hfull (by omega)
        split
        · next heq =>
            rw [heq] at hfail
            cases hfail
            rfl
        · next heq => rw [heq] at hfail; cases hfail

/-! ## Whatever is read

In the other direction nothing is known of the tokens but that the lexer can hand them over. -/

/-- Lists of expressions, one in the other, of which the outermost began with `opening` and the
others are calls. -/
def Stacked (opening : Opening) : Unfinished → List Unfinished → Prop
  | current, [] => current.opening = opening ∧ ∀ n ∈ current.children, n.Expression
  | current, next :: outer =>
    (current.opening = .call ∧ ∀ n ∈ current.children, n.Expression) ∧ Stacked opening next outer

/-- The tokens that are read already, from the opening of the outermost list on. -/
def taken : Unfinished → List Unfinished → List Token
  | current, [] => tokensAll current.children.reverse
  | current, next :: outer => taken next outer ++ .openParen :: tokensAll current.children.reverse

theorem Stacked.push {opening : Opening} {n : Node} (h : Stacked opening current outer)
    (hn : n.Expression) : Stacked opening (current.push n) outer := by
  have hall : ∀ (_ : ∀ m ∈ current.children, m.Expression),
      ∀ m ∈ (current.push n).children, m.Expression := by
    intro hc m hm
    rcases List.mem_cons.mp hm with rfl | hm
    · exact hn
    · exact hc m hm
  cases outer with
  | nil => exact ⟨h.1, hall h.2⟩
  | cons next outer => exact ⟨⟨h.1.1, hall h.1.2⟩, h.2⟩

theorem taken_push (n : Node) : taken (current.push n) outer = taken current outer ++ n.tokens := by
  cases outer <;>
    simp [taken, Unfinished.push, Node.tokensAll_append, Node.tokensAll_singleton]

theorem tokens_atom (t : Token) : (atom t).tokens = [t] := by
  cases t <;> rfl

theorem startsDefinition_atom (t : Token) : (atom t).startsDefinition = false := by
  cases t <;> rfl

/-- A list that is read to its end consists of expressions, and its tokens are those taken before
and those the stream has handed over. -/
theorem list_ok {opening : Opening} {n : Node} (h : list room current outer s = (.ok n, s'))
    (hst : Stacked opening current outer) (hlex : s.Lexical) :
    ∃ children us, n = opening.close children ∧ (∀ m ∈ children, m.Expression) ∧
      tokensAll children = taken current outer ++ us ∧ s.Passes (us ++ [.closeParen]) s' := by
  induction hk : s.size using Nat.strongRecOn generalizing room current outer s with
  | _ k ih =>
    subst hk
    -- whichever list is read on, one more token `t` is taken
    have step : ∀ {t room' current' outer' s₁}, s.advance = (.ok (some t), s₁) →
        list room' current' outer' s₁ = (.ok n, s') → Stacked opening current' outer' →
        taken current' outer' = taken current outer ++ [t] →
        ∃ children us, n = opening.close children ∧ (∀ m ∈ children, m.Expression) ∧
          tokensAll children = taken current outer ++ us ∧ s.Passes (us ++ [.closeParen]) s' := by
      intro t room' current' outer' s₁ ha h hst htaken
      have hpass := TokenStream.passes_of_advance ha
      obtain ⟨children, us, hn, hexpr, htokens, hrest⟩ :=
        ih s₁.size (TokenStream.advance_size ha) h hst (hpass.lexical hlex) rfl
      refine ⟨children, t :: us, hn, hexpr, ?_, hpass.trans hrest⟩
      rw [htokens, htaken, List.append_assoc, List.singleton_append]
    rw [list] at h
    split at h
    · cases h
    · cases h
    · next ha =>
      split at h
      · cases h
        obtain ⟨hopening, hexpr⟩ := hst
        refine ⟨current.children.reverse, [], ?_, ?_, ?_, TokenStream.passes_of_advance ha⟩
        · rw [Unfinished.close, hopening]
        · simpa using hexpr
        · simp [taken]
      · next next outer =>
        obtain ⟨⟨hcall, hexpr⟩, houter⟩ := hst
        have hclose : current.close = .call current.children.reverse := by
          rw [Unfinished.close, hcall, Opening.close]
        refine step ha h (houter.push ?_) ?_
        · rw [hclose]
          exact .call (by simpa using hexpr)
        · rw [taken_push, hclose]
          simp [taken, Node.tokens]
    · next ha =>
      split at h
      · cases h
      · refine step ha h ⟨⟨rfl, by simp⟩, hst⟩ ?_
        simp [taken, tokensAll]
    · next hclose hopen ha =>
      obtain ⟨lexeme, hl⟩ := hlex.of_advance ha
      refine step ha h (hst.push (Node.expression_atom hl hopen hclose)) ?_
      rw [taken_push, tokens_atom]

theorem openList_ok {opening : Opening} {n : Node} (h : openList limit opening s = (.ok n, s'))
    (hlex : s.Lexical) :
    ∃ children, n = opening.close children ∧ (∀ m ∈ children, m.Expression) ∧
      s.Passes (tokensAll children ++ [.closeParen]) s' := by
  cases limit with
  | zero => cases h
  | succ room =>
      have hst : Stacked opening { opening } [] := ⟨rfl, by simp⟩
      obtain ⟨children, us, hn, hexpr, htokens, hpass⟩ := list_ok h hst hlex
      have hus : tokensAll children = us := htokens
      exact ⟨children, hn, hexpr, hus ▸ hpass⟩

theorem passes_of_token (h : token s = (.ok t, s')) : s.Passes [t] s' := by
  simp only [token] at h
  split at h <;> cases h
  next ha => exact TokenStream.passes_of_advance ha

theorem lexeme_of_token (h : token s = (.ok t, s')) (hlex : s.Lexical) :
    ∃ lexeme, t.Lexeme lexeme := by
  simp only [token] at h
  split at h <;> cases h
  next ha => exact hlex.of_advance ha

theorem params_ok {name : String} {done ps : List String}
    (h : params name done s = (.ok ps, s')) (hlex : s.Lexical) :
    ∃ qs, ps = done.reverse ++ qs ∧ (∀ q ∈ qs, IsName q) ∧
      s.Passes (qs.map .symbol ++ [.closeParen]) s' := by
  induction hk : s.size using Nat.strongRecOn generalizing done s with
  | _ k ih =>
    subst hk
    rw [params] at h
    split at h
    · cases h
    · next ht =>
      cases h
      exact ⟨[], by simp, by simp, passes_of_token ht⟩
    · next p s₁ ht =>
      have hpass := passes_of_token ht
      obtain ⟨lexeme, hl⟩ := lexeme_of_token ht hlex
      obtain ⟨qs, rfl, hqs, hrest⟩ := ih s₁.size (token_size ht) h (hpass.lexical hlex) rfl
      refine ⟨p :: qs, by simp, ?_, hpass.trans hrest⟩
      intro q hq
      rcases List.mem_cons.mp hq with rfl | hq
      · exact hl.isName
      · exact hqs q hq
    · cases h

/-- What is read after a definition keyword is a definition, whose tokens are the parenthesis and
the keyword in front and those that were handed over. -/
theorem definition_ok {n : Node} (h : definition limit s = (.ok n, s')) (hlex : s.Lexical) :
    n.Statement ∧ ∃ ts, n.tokens = .openParen :: .symbol Node.definitionKeyword :: ts ∧
      s.Passes ts s' := by
  simp only [definition] at h
  split at h
  · cases h
  · next name s₁ h₁ =>
    obtain ⟨lexeme, hl⟩ := lexeme_of_token h₁ hlex
    have hlex₁ := (passes_of_token h₁).lexical hlex
    split at h
    · cases h
    · next s₂ h₂ =>
      have hlex₂ := (passes_of_token h₂).lexical hlex₁
      split at h
      · cases h
      · split at h
        · cases h
        · next ps s₃ h₃ =>
          obtain ⟨qs, rfl, hqs, hpass₃⟩ := params_ok h₃ hlex₂
          obtain ⟨body, rfl, hbody, hpass⟩ := openList_ok h (hpass₃.lexical hlex₂)
          refine ⟨.definition hl.isName hqs hbody, _, rfl, ?_⟩
          have hall := (passes_of_token h₁).trans ((passes_of_token h₂).trans (hpass₃.trans hpass))
          simpa using hall
    · cases h
  · cases h

/-- Whatever is read as a statement is one, and the stream has handed over its tokens. -/
theorem statement_ok {n : Node} (h : statement limit s = (.ok n, s')) (hlex : s.Lexical) :
    n.Statement ∧ s.Passes n.tokens s' := by
  simp only [statement] at h
  split at h
  · cases h
  · cases h
  · next s₁ h₁ =>
    have hpass₁ := passes_of_token h₁
    split at h
    · cases h
    · next shown s₂ h₂ =>
      -- only the parenthesis is gone, what was shown is still to come
      obtain ⟨hsame, hhead⟩ := TokenStream.future_of_peek h₂
      have hpass₂ := hpass₁.peek h₂
      have hlex₂ := hpass₂.lexical hlex
      split at h
      · next hkey =>
        cases hkey
        have ha := TokenStream.advance_of_peek h₂
        have hpass₃ := TokenStream.passes_of_advance ha
        rw [ha] at h
        obtain ⟨hstatement, ts, htokens, hpass⟩ := definition_ok h (hpass₃.lexical hlex₂)
        rw [htokens]
        exact ⟨hstatement, hpass₂.trans (hpass₃.trans hpass)⟩
      · next hkey =>
        obtain ⟨children, rfl, hexpr, hpass⟩ := openList_ok h hlex₂
        refine ⟨.expression (.call hexpr) ?_, hpass₂.trans hpass⟩
        -- a call that began with the keyword would have shown it
        refine Bool.eq_false_iff.mpr fun hstarts => hkey ?_
        obtain ⟨operands, rfl⟩ := Node.children_of_startsDefinition hstarts
        rw [← hhead, ← hsame, hpass]
        rfl
  · next hclose hopen h₁ =>
    cases h
    obtain ⟨lexeme, hl⟩ := lexeme_of_token h₁ hlex
    have hexpr := Node.expression_atom hl hopen hclose
    refine ⟨.expression hexpr (startsDefinition_atom _), ?_⟩
    rw [tokens_atom]
    exact passes_of_token h₁

/-- Whatever is read as a program consists of statements, and their tokens are all there are. -/
theorem statements_ok {done ns : List Node} (h : statements limit done s = (.ok ns, s'))
    (hlex : s.Lexical) :
    ∃ ms, ns = done.reverse ++ ms ∧ (∀ m ∈ ms, m.Statement) ∧ s.future = (tokensAll ms, none) := by
  induction hk : s.size using Nat.strongRecOn generalizing done s with
  | _ k ih =>
    subst hk
    rw [statements] at h
    split at h
    · cases h
    · next hp =>
      cases h
      exact ⟨[], by simp, by simp, TokenStream.future_of_peek_none hp⟩
    · next u s₁ hp =>
      obtain ⟨hsame, -⟩ := TokenStream.future_of_peek hp
      have hlex₁ : s₁.Lexical := by
        unfold TokenStream.Lexical
        rw [hsame]
        exact hlex
      split at h
      · cases h
      · next n s₂ hst =>
        obtain ⟨hn, hpass⟩ := statement_ok hst hlex₁
        have hsize := Nat.lt_of_lt_of_le (statement_size hst) (TokenStream.peek_size hp)
        obtain ⟨ms, rfl, hms, hrest⟩ := ih s₂.size hsize h (hpass.lexical hlex₁) rfl
        refine ⟨n :: ms, by simp, ?_, ?_⟩
        · intro m hm
          rcases List.mem_cons.mp hm with rfl | hm
          · exact hn
          · exact hms m hm
        · rw [← hsame, hpass, hrest, tokensAll]

/-! ## Reading a text -/

/-- A text is read as `ns` exactly if these are statements, their tokens are those of the text, and
there is room for their nesting. -/
theorem parse_eq_ok_iff {limit : Nat} {source : String} {ns : List Node} :
    parse limit source = .ok ns ↔
      (∀ n ∈ ns, n.Statement) ∧
        lexed source.toList source.toList = (tokensAll ns, none) ∧ nestingAll ns ≤ limit := by
  unfold parse program
  constructor
  · intro h
    have hok : statements limit [] (TokenStream.ofText source) = (.ok ns, _) := Prod.ext h rfl
    obtain ⟨ms, hns, hms, hf⟩ := statements_ok hok (TokenStream.lexical_ofText source)
    obtain rfl : ns = ms := hns
    obtain ⟨-, hfull⟩ := @statements_delivers limit _ [] ns hms hf
    refine ⟨hms, hf, ?_⟩
    -- with too little room these tokens would not have been read
    by_contra hroom
    rw [hfull (by simpa using hroom)] at h
    cases h
  · rintro ⟨hns, hf, hroom⟩
    obtain ⟨hread, -⟩ := @statements_delivers limit (TokenStream.ofText source) [] ns hns hf
    obtain ⟨s', hok, -⟩ := hread hroom
    rw [hok]
    rfl

/-- A text of statements that nest too deep is not read, and for this reason. -/
theorem parse_eq_tooDeep {limit : Nat} {source : String} {ns : List Node}
    (hns : ∀ n ∈ ns, n.Statement) (hf : lexed source.toList source.toList = (tokensAll ns, none))
    (hroom : limit < nestingAll ns) : parse limit source = .error .tooDeep :=
  (@statements_delivers limit (TokenStream.ofText source) [] ns hns hf).2 hroom

end MiniLisp.Reader
