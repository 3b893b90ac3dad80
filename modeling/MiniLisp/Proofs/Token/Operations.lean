/-
# MiniLisp.Proofs.Token.Operations — a stream is a cursor over the tokens.

Whoever reads from a stream asks it to show the next token or to hand it over, in any order and as
often as it likes, also at the end and after an error.  All that can be seen of the stream then is a
`Cursor`: a place in the row of all tokens of the text, and whether the end has been met already.
The error behind the tokens, if there is one, is answered once.

Nor does a stream read ahead.  Behind the tokens it has handed over, the lexer has formed one more
at most.
-/
import Mathlib.Data.List.Induction
import MiniLisp.Proofs.Token.Cursor

namespace MiniLisp

/-! ## Operations -/

/-- What a stream can be asked to do. -/
inductive TokenStream.Operation where
  | peek
  | advance
deriving DecidableEq, Repr

open TokenStream (Operation)

/-- What is to come after an operation. -/
def Future.left (f : Future) : Operation → Future
  | .peek => f.kept
  | .advance => f.behind

namespace TokenStream

/-- The answer to an operation, and the stream after it. -/
def perform (s : TokenStream) : Operation → Except LexError (Option Token) × TokenStream
  | .peek => s.peek
  | .advance => s.advance

/-- The stream after some operations. -/
def after (s : TokenStream) (ops : List Operation) : TokenStream :=
  ops.foldl (fun s op => (s.perform op).2) s

theorem after_concat (s : TokenStream) (ops : List Operation) (op : Operation) :
    s.after (ops ++ [op]) = ((s.after ops).perform op).2 := by
  simp [after]

/-- What is answered is the beginning of the future, whatever was asked for. -/
theorem perform_eq (s : TokenStream) (op : Operation) :
    (s.perform op).1 = Future.answer s.future ∧
      (s.perform op).2.future = Future.left s.future op := by
  cases op with
  | peek => exact s.peek_eq
  | advance => exact s.advance_eq

end TokenStream

/-! ## Cursors -/

/-- A place in a row of tokens. -/
structure Cursor where
  /-- The number of tokens in front. -/
  position : Nat := 0
  /-- An operation has come to the end of the row. -/
  ended : Bool := false
deriving DecidableEq, Repr

namespace Cursor

/-- What is answered at a place in `ts`, where the error `e` may stand behind the row: the token
there; at the end the error, if there is one, to the first operation that comes there; and nothing
to all others. -/
def answer (ts : List Token) (e : Option LexError) (c : Cursor) : Except LexError (Option Token) :=
  match ts[c.position]? with
  | some t => .ok (some t)
  | none =>
    if c.ended then .ok none
    else match e with
      | some e => .error e
      | none => .ok none

/-- The place after an operation: only taking a token moves the cursor. -/
def move (ts : List Token) (c : Cursor) (op : Operation) : Cursor :=
  if c.position < ts.length then
    match op with
    | .peek => c
    | .advance => { c with position := c.position + 1 }
  else { c with ended := true }

/-- The place after some operations, from the beginning of the row. -/
def after (ts : List Token) (ops : List Operation) : Cursor := ops.foldl (move ts) {}

/-- The tokens to come at a cursor, and the error behind them, unless the end has been met. -/
def future (ts : List Token) (e : Option LexError) (c : Cursor) : Future :=
  (ts.drop c.position, if c.ended then none else e)

variable {ts : List Token} {e : Option LexError} {c : Cursor}

theorem after_concat (ts : List Token) (ops : List Operation) (op : Operation) :
    after ts (ops ++ [op]) = (after ts ops).move ts op := by
  simp [after]

/-- The cursor has passed as many tokens as were taken, up to the last one. -/
theorem position_after (ts : List Token) (ops : List Operation) :
    (after ts ops).position = min (ops.count .advance) ts.length := by
  induction ops using List.reverseRecOn with
  | nil => simp [after]
  | append_singleton ops op ih =>
      rw [after_concat, List.count_append]
      unfold move
      split
      · cases op with
        | peek => simpa using ih
        | advance =>
            simp only [List.count_singleton_self, ih]
            omega
      · simp only [ih]
        omega

theorem future_of_lt (h : c.position < ts.length) :
    c.future ts e = (ts[c.position] :: ts.drop (c.position + 1), if c.ended then none else e) := by
  rw [future, List.drop_eq_getElem_cons h]

theorem future_of_le (h : ts.length ≤ c.position) :
    c.future ts e = ([], if c.ended then none else e) := by
  rw [future, List.drop_eq_nil_of_le h]

/-- The answer at a cursor is the beginning of what is to come there. -/
theorem answer_eq (ts : List Token) (e : Option LexError) (c : Cursor) :
    c.answer ts e = (c.future ts e).answer := by
  unfold answer
  by_cases h : c.position < ts.length
  · simp only [future_of_lt h, List.getElem?_eq_getElem h, Future.answer]
  · rw [future_of_le (Nat.le_of_not_lt h), List.getElem?_eq_none (Nat.le_of_not_lt h)]
    cases e <;> cases c.ended <;> rfl

/-- What is to come behind a cursor that was moved. -/
theorem future_move (ts : List Token) (e : Option LexError) (c : Cursor) (op : Operation) :
    (c.move ts op).future ts e = (c.future ts e).left op := by
  unfold move
  by_cases h : c.position < ts.length
  · rw [if_pos h, future_of_lt h]
    cases op with
    | peek => exact future_of_lt h
    | advance => rfl
  · rw [if_neg h, future_of_le (Nat.le_of_not_lt h)]
    have hend : ({ c with ended := true } : Cursor).future ts e = ([], none) :=
      future_of_le (Nat.le_of_not_lt h)
    cases op <;> exact hend

end Cursor

/-! ## How far the text is read -/

/-- The tokens that the lexer makes of a text, all at once, up to where it breaks. -/
def lexedTokens (source : String) : List Token := (lexed source.toList source.toList).1

/-- The error where the text breaks, if it does. -/
def lexedError (source : String) : Option LexError := (lexed source.toList source.toList).2

/-- The lexer has formed the tokens `ts` of a text.  What it has not looked at is `rest`: all that
is behind them, or nothing, when it met a bad lexeme and gave up. -/
inductive Formed (text : List Char) (ts : List Token) (rest : List Char) : Prop
  | going (h : Scans text ts rest)
  | stopped {cause : LexFault} {bad : List Char} (h : Breaks cause bad text ts) (gone : rest = [])

namespace TokenStream

variable {source : String} {s s' : TokenStream} {ts : List Token} {e : LexError}

/-- At the end of a text the stream stays where it is. -/
theorem At.advance_end (h : s.At source ts) (ha : s.advance = (.ok none, s')) :
    s'.At source ts := by
  cases hb : s.buffer with
  | some b => simp [TokenStream.advance, hb] at ha
  | none =>
      simp only [TokenStream.advance, hb] at ha
      obtain ⟨hsource, hscans, hbuffer⟩ := h.pull hb ha
      exact ⟨hsource, by simpa [hbuffer] using hscans⟩

/-- A stream that has given up: nothing is left of the text, and nothing is kept to be shown. -/
structure Spent (s : TokenStream) : Prop where
  rest : s.rest = []
  buffer : s.buffer = none

/-- A stream that has given up stays as it is. -/
theorem Spent.perform (h : s.Spent) (op : Operation) : (s.perform op).2.Spent := by
  obtain ⟨text, rest, buffer⟩ := s
  obtain ⟨rfl, rfl⟩ : rest = [] ∧ buffer = none := ⟨h.rest, h.buffer⟩
  cases op <;> exact ⟨rfl, rfl⟩

/-- After an error a stream has given up. -/
theorem spent_of_error {op : Operation} (h : (s.perform op).1 = .error e) :
    (s.perform op).2.Spent := by
  have hfails : s.buffer = none ∧ s.pull.1 = .error e := by
    cases op with
    | peek => exact peek_eq_error_iff.mp h
    | advance => exact advance_eq_error_iff.mp h
  obtain ⟨text, rest, buffer⟩ := s
  obtain ⟨rfl, hresult⟩ : buffer = none ∧ _ := hfails
  have hpull : pull ⟨text, rest, none⟩ = (.error e, ⟨text, [], none⟩) := by
    unfold pull at hresult ⊢
    split <;> simp_all
  cases op with
  | peek =>
      simp only [TokenStream.perform, TokenStream.peek, hpull]
      exact ⟨rfl, rfl⟩
  | advance =>
      simp only [TokenStream.perform, TokenStream.advance, hpull]
      exact ⟨rfl, rfl⟩

/-! ## The stream at a cursor -/

/-- The stream and the cursor have the same to come, and the stream stands behind the tokens in
front of the cursor, or it has given up at the end. -/
structure Tracks (source : String) (ts : List Token) (e : Option LexError) (s : TokenStream)
    (c : Cursor) : Prop where
  future : s.future = c.future ts e
  place : s.At source (ts.take c.position) ∨ ts.length ≤ c.position ∧ e.isSome ∧ s.Spent

theorem Tracks.start (source : String) :
    Tracks source (lexedTokens source) (lexedError source) (ofText source) {} where
  future := rfl
  place := .inl (.start source)

variable {err : Option LexError} {c : Cursor}

/-- An operation on the stream is a move of the cursor. -/
theorem Tracks.perform (h : Tracks source ts err s c) (op : Operation) :
    Tracks source ts err (s.perform op).2 (c.move ts op) := by
  obtain ⟨hanswer, hleft⟩ := s.perform_eq op
  rw [h.future] at hanswer hleft
  refine ⟨by rw [hleft, Cursor.future_move], ?_⟩
  rcases h.place with hat | ⟨hend, herror, hspent⟩
  · by_cases hlt : c.position < ts.length
    · rw [Cursor.future_of_lt hlt] at hanswer
      have heq : s.perform op = (.ok (some ts[c.position]), (s.perform op).2) :=
        Prod.ext hanswer rfl
      unfold Cursor.move
      rw [if_pos hlt]
      cases op with
      | peek => exact .inl (hat.peek heq)
      | advance =>
          have hnext := (hat.advance heq).1
          rw [List.take_append_getElem hlt] at hnext
          exact .inl hnext
    · have hend := Nat.le_of_not_lt hlt
      rw [Cursor.future_of_le hend] at hanswer
      unfold Cursor.move
      rw [if_neg hlt]
      -- whether an error is answered now: it is not the first time, or there is none
      cases hnow : (if c.ended then none else err) with
      | none =>
          rw [hnow] at hanswer
          have heq : s.perform op = (.ok none, (s.perform op).2) := Prod.ext hanswer rfl
          cases op with
          | peek => exact .inl (hat.peek heq)
          | advance => exact .inl (hat.advance_end heq)
      | some e =>
          rw [hnow] at hanswer
          have herror : err = some e := by
            split at hnow
            · cases hnow
            · exact hnow
          exact .inr ⟨hend, by rw [herror]; rfl, spent_of_error hanswer⟩
  · unfold Cursor.move
    rw [if_neg (Nat.not_lt.mpr hend)]
    exact .inr ⟨hend, herror, hspent.perform op⟩

/-- The stream and the cursor go together through all operations. -/
theorem tracks_after (source : String) (ops : List Operation) :
    Tracks source (lexedTokens source) (lexedError source) ((ofText source).after ops)
      (Cursor.after (lexedTokens source) ops) := by
  induction ops using List.reverseRecOn with
  | nil => exact .start source
  | append_singleton ops op ih =>
      rw [after_concat, Cursor.after_concat]
      exact ih.perform op

/-- Behind the tokens in front of the cursor one more is formed, at most. -/
theorem Tracks.formed (h : Tracks source ts err s c)
    (hlexed : lexed source.toList source.toList = (ts, err)) :
    ∃ ahead : List Token, ahead.length ≤ 1 ∧
      Formed source.toList (ts.take c.position ++ ahead) s.rest := by
  rcases h.place with hat | ⟨hend, herror, hspent⟩
  · refine ⟨s.buffer.toList, ?_, .going hat.scans⟩
    cases s.buffer <;> simp
  · obtain ⟨e, rfl⟩ := Option.isSome_iff_exists.mp herror
    obtain ⟨bad, hbreaks, -⟩ := lexed_eq_some_iff.mp hlexed
    refine ⟨[], Nat.zero_le 1, ?_⟩
    rw [List.take_of_length_le hend, List.append_nil]
    exact .stopped hbreaks hspent.rest

end TokenStream

/-! ## The theorem -/

/-- A stream is a cursor over the tokens of its text, with the lexical error behind them, if there
is one.  The tokens are those that the lexer makes of the text, all at once.  After any operations
the cursor stands behind as many tokens as were taken, where there are so many; the next operation,
of either kind, is answered as the cursor says; and the lexer has formed the tokens in front of the
cursor and one more at most. -/
theorem stream_is_cursor (source : String) :
    tokenize source = (lexedError source).elim (.ok (lexedTokens source)) .error ∧
    ∀ ops : List Operation,
      (Cursor.after (lexedTokens source) ops).position =
        min (ops.count .advance) (lexedTokens source).length ∧
      (∀ op, (((TokenStream.ofText source).after ops).perform op).1 =
        (Cursor.after (lexedTokens source) ops).answer (lexedTokens source) (lexedError source)) ∧
      ∃ ahead : List Token, ahead.length ≤ 1 ∧
        Formed source.toList
          ((lexedTokens source).take (Cursor.after (lexedTokens source) ops).position ++ ahead)
          ((TokenStream.ofText source).after ops).rest := by
  refine ⟨tokensFrom_eq source.toList source.toList, fun ops => ?_⟩
  have htracks := TokenStream.tracks_after source ops
  refine ⟨Cursor.position_after _ ops, fun op => ?_, htracks.formed rfl⟩
  rw [(TokenStream.perform_eq _ op).1, htracks.future, Cursor.answer_eq]

/-- The error behind the tokens is answered to the first operation that comes there, and to no other
one. -/
example : ([[], [.peek], [.advance], [.advance, .peek]].map fun ops =>
    ((TokenStream.ofText "a \"").after ops).peek.1) =
      [.ok (some (.symbol "a")), .ok (some (.symbol "a")),
        .error ⟨.unterminatedString, ⟨1, 3⟩⟩, .ok none] := by
  rfl

end MiniLisp
