/-
# MiniLisp.Proofs.Node.Boundary — where one expression ends.

An expression that ends with a parenthesis or a string is over with its last token, and the reader
stops there.  So whatever text stands behind it, one that cannot be read or not even be cut into
tokens included, is neither looked at nor needed: reading makes the same node of the expression,
and what follows is found as if it stood alone, only further on.  A word at the end is different,
for it could go on in the text behind it.
-/
import MiniLisp.Proofs.Node.Alike
import MiniLisp.Proofs.Node.Phrase

namespace MiniLisp.Reader

variable {read : Nat → TokenStream → Outcome Node} {n : Node} {front text : String}
  {s : TokenStream} {limit : Nat}

/-- The stream answers to any row of moves as one over `text` does, and its errors are the errors
of `text` where it stands behind `front`. -/
def GoesOnWith (front text : String) (s : TokenStream) : Prop :=
  ∀ limit moves,
    List.Forall₂ (Agree (· = ·) (ReadError.Alike (LexError.Moved front.toList text.toList)))
      (answers limit moves s) (answers limit moves (.ofText text))

/-- `read` makes `n` of `front` by itself and of `front` with `text` behind it, and then it leaves
all of `text` in the stream.  Where the room does not do for `n`, it does so in neither case. -/
structure ReadsApart (read : Nat → TokenStream → Outcome Node) (n : Node) (front text : String)
    (limit : Nat) : Prop where
  alone : n.nesting ≤ limit → (read limit (.ofText front)).1 = .ok n
  joined : n.nesting ≤ limit →
    ∃ s, read limit (.ofText (front ++ text)) = (.ok n, s) ∧ GoesOnWith front text s
  full : limit < n.nesting →
    (read limit (.ofText front)).1 = .error .tooDeep ∧
      (read limit (.ofText (front ++ text))).1 = .error .tooDeep

/-- What is read alone tells which node it is. -/
theorem ReadsApart.eq_of_alone {m : Node} (h : ReadsApart read n front text limit)
    (hm : read limit (.ofText front) = (.ok m, s)) : n = m := by
  have hread : (read limit (.ofText front)).1 = .ok m := by rw [hm]
  by_cases hroom : n.nesting ≤ limit
  · exact Except.ok.inj ((h.alone hroom).symm.trans hread)
  · have hfull := (h.full (by omega)).1
    rw [hread] at hfull
    cases hfull

/-- To a stream that has handed over the tokens of `front` comes what is to come in `text`. -/
theorem goesOnWith_of_future
    (h : s.future = lexed (front ++ text).toList text.toList) : GoesOnWith front text s := by
  intro limit moves
  refine answers_alike ?_ moves
  rw [TokenStream.Alike, h, String.toList_append, TokenStream.future_ofText]
  exact lexed_moved front.toList text.toList

/-- A reader that makes `n` of its tokens, and takes no others, stops behind a text that spells
them. -/
theorem readsApart_of_delivers
    (hread : ∀ {limit s us e}, s.future = (n.tokens ++ us, e) →
      Delivers n.nesting limit n (us, e) (read limit s))
    (hspells : Spells front.toList n.tokens)
    (hlast : ∀ t ∈ n.tokens.getLast?, t.closesItself = true) (text : String) (limit : Nat) :
    ReadsApart read n front text limit := by
  have halone : (TokenStream.ofText front).future = (n.tokens ++ [], none) := by
    rw [TokenStream.future_ofText, hspells.lexed_eq, List.append_nil]
  have hjoined : (TokenStream.ofText (front ++ text)).future =
      (n.tokens ++ (lexed (front ++ text).toList text.toList).1,
        (lexed (front ++ text).toList text.toList).2) := by
    rw [TokenStream.future_ofText, String.toList_append]
    exact hspells.lexed_append hlast
  obtain ⟨hnode, hfull⟩ := @hread limit _ _ _ halone
  obtain ⟨hnode', hfull'⟩ := @hread limit _ _ _ hjoined
  constructor
  · intro hroom
    obtain ⟨s, hs, -⟩ := hnode hroom
    rw [hs]
  · intro hroom
    obtain ⟨s, hs, hfuture⟩ := hnode' hroom
    exact ⟨s, hs, goesOnWith_of_future hfuture⟩
  · intro hroom
    exact ⟨hfull hroom, hfull' hroom⟩

/-- Reading stops exactly behind what it reads.  Let the tokens of a text be one expression that
ends with a parenthesis or a string.  Whatever text stands behind it, the same node is read as
without it, and any further looking, taking or reading finds that text as if it stood alone, except
that its errors are told at their place in the whole.  The same is true of a statement, where a
definition is recognised. -/
theorem closed_phrase_read_apart (front : String) (row : List Token)
    (htokens : tokenize front = .ok row)
    (hlast : row.getLast? = some .closeParen ∨ ∃ x, row.getLast? = some (.string x)) :
    (Phrase.Expression row →
      ∃ n, n.tokens = row ∧ ∀ text limit, ReadsApart expression n front text limit) ∧
    (Phrase.Statement row →
      ∃ n, n.tokens = row ∧ ∀ text limit, ReadsApart statement n front text limit) := by
  have hspells : Spells front.toList row := tokenize_eq_ok_iff.mp htokens
  have hlex : Phrase.Lexical row := .of_tokenize htokens
  have hcloses : ∀ t ∈ row.getLast?, t.closesItself = true := by
    rintro t ht
    rcases hlast with hlast | ⟨x, hlast⟩ <;>
      · obtain rfl := Option.mem_unique ht hlast
        rfl
  constructor
  · intro hphrase
    obtain ⟨n, hn, rfl⟩ := hphrase.exists_node hlex
    exact ⟨n, rfl, readsApart_of_delivers (expression_delivers hn) hspells hcloses⟩
  · intro hphrase
    obtain ⟨n, hn, rfl⟩ := hphrase.exists_node hlex
    exact ⟨n, rfl, readsApart_of_delivers (statement_delivers hn) hspells hcloses⟩

/-- A word at the end goes on in the text behind it. -/
example :
    (expression 1 (.ofText "a")).1 = .ok (.identifier "a") ∧
      (expression 1 (.ofText ("a" ++ "b"))).1 = .ok (.identifier "ab") :=
  ⟨rfl, rfl⟩

/-- A call with a list and a string in it. -/
def closedCall : Node :=
  .call [.identifier "f", .call [.literal (.integer 7)], .literal (.string ")")]

/-- Behind the call stands a number that goes wrong, then a string without an end. -/
theorem closed_phrase_read_apart_broken :
    let front := (Node.program [closedCall]).format
    let text := "7x\n\""
    tokenize front = .ok closedCall.tokens ∧ ReadsApart expression closedCall front text 2 ∧
      ReadsApart statement closedCall front text 2 := by
  intro front text
  have hwellFormed : (Node.program [closedCall]).WellFormed := by decide
  have hstatement : closedCall.Statement := by decide
  have hexpression : closedCall.Expression := by decide
  have htokens : tokenize front = .ok closedCall.tokens :=
    tokenize_eq_ok_iff.mpr hwellFormed.spells_format
  have hfuture : (TokenStream.ofText front).future = (closedCall.tokens ++ [], none) :=
    (tokenize_eq_ok_iff.mp htokens).lexed_eq
  obtain ⟨hexpressions, hstatements⟩ :=
    closed_phrase_read_apart front closedCall.tokens htokens (.inl rfl)
  refine ⟨htokens, ?_, ?_⟩
  · obtain ⟨n, -, hapart⟩ := hexpressions hexpression.phrase
    obtain ⟨s, hs, -⟩ := (expression_delivers hexpression hfuture).1
      (by decide : closedCall.nesting ≤ 2)
    obtain rfl : n = closedCall := (hapart text 2).eq_of_alone hs
    exact hapart text 2
  · obtain ⟨n, -, hapart⟩ := hstatements hstatement.phrase
    obtain ⟨s, hs, -⟩ := (statement_delivers hstatement hfuture).1
      (by decide : closedCall.nesting ≤ 2)
    obtain rfl : n = closedCall := (hapart text 2).eq_of_alone hs
    exact hapart text 2

end MiniLisp.Reader
