/-
# MiniLisp.Proofs.Token.Stream — a stream as the tokens still to come.

`lexed` is all that the lexer will ever say of a text: its tokens, and the error that ends them
where there is one.  `TokenStream.future` is the same of a stream.  What an operation answers is
the beginning of the future, and what it leaves is the rest of it, so a reader's behaviour can be
told without a word about texts and buffers.
-/
import MiniLisp.Token.Stream
import MiniLisp.Proofs.Token.Spelling

namespace MiniLisp

/-! ## All tokens of a text -/

/-- The tokens of what is left of `source`, and the lexical error behind them, if any. -/
def lexed (source text : List Char) : List Token × Option LexError :=
  match h : scan text with
  | .done => ([], none)
  | .fault cause left => ([], some ⟨cause, locate source left⟩)
  | .token t rest =>
    have := scan_length h
    (t :: (lexed source rest).1, (lexed source rest).2)
termination_by text.length

theorem lexed_done {source text : List Char} (h : scan text = .done) :
    lexed source text = ([], none) := by
  rw [lexed]
  split <;> simp_all

theorem lexed_fault {source text : List Char} {cause : LexFault} {left : Nat}
    (h : scan text = .fault cause left) :
    lexed source text = ([], some ⟨cause, locate source left⟩) := by
  rw [lexed]
  split <;> simp_all

theorem lexed_token {source text rest : List Char} {t : Token} (h : scan text = .token t rest) :
    lexed source text = (t :: (lexed source rest).1, (lexed source rest).2) := by
  rw [lexed]
  split <;> simp_all

theorem lexed_nil (source : List Char) : lexed source [] = ([], none) := lexed_done rfl

/-- A text that spells a row of tokens is read as that row. -/
theorem Spells.lexed_eq {source text : List Char} {ts : List Token} (h : Spells text ts) :
    lexed source text = (ts, none) := by
  induction h with
  | @nil gap blank =>
      refine lexed_done ?_
      have hdrop : gap.dropWhile Text.isBlank = [] := by
        simpa using blank
      simp only [scan, hdrop]
  | cons blank lexeme_of parted _ ih =>
      rw [lexed_token (scan_eq_token_iff.mpr ⟨_, _, rfl, blank, lexeme_of, parted⟩), ih]

theorem scanString_ne_done (inside : List Char) : scanString inside ≠ .done := by
  unfold scanString
  split <;> simp

theorem scanInteger_ne_done (text : List Char) : scanInteger text ≠ .done := by
  simp only [scanInteger]
  split
  · split <;> simp
  · simp

theorem scanLexeme_ne_done (c : Char) (rest : List Char) : scanLexeme c rest ≠ .done := by
  unfold scanLexeme
  split_ifs
  · simp
  · simp
  · exact scanString_ne_done rest
  · exact scanInteger_ne_done (c :: rest)
  · simp

/-- The lexer comes to the end exactly in a text of blanks. -/
theorem scan_eq_done_iff {text : List Char} :
    scan text = .done ↔ ∀ c ∈ text, Text.isBlank c = true := by
  rw [← List.dropWhile_eq_nil_iff]
  unfold scan
  cases text.dropWhile Text.isBlank with
  | nil => simp
  | cons c rest => simp [scanLexeme_ne_done]

/-- A text is read as a row of tokens, with no error behind it, exactly if it spells that row. -/
theorem lexed_eq_iff_spells {source text : List Char} {ts : List Token} :
    lexed source text = (ts, none) ↔ Spells text ts := by
  constructor
  · intro h
    induction hk : text.length using Nat.strongRecOn generalizing text ts with
    | _ k ih =>
      subst hk
      cases hs : scan text with
      | done =>
          rw [lexed_done hs] at h
          obtain rfl : [] = ts := congrArg Prod.fst h
          exact .nil (scan_eq_done_iff.mp hs)
      | fault cause left =>
          rw [lexed_fault hs] at h
          cases h
      | token t rest =>
          rw [lexed_token hs] at h
          obtain ⟨rfl, hnone⟩ := Prod.mk.inj h
          have hrest : Spells rest (lexed source rest).1 :=
            ih rest.length (scan_length hs) (Prod.ext rfl hnone) rfl
          obtain ⟨gap, lexeme, rfl, blank, lexeme_of, parted⟩ := scan_eq_token_iff.mp hs
          exact .cons blank lexeme_of parted hrest
  · exact Spells.lexed_eq

/-- All tokens at once are those that come one by one, unless an error stands behind them. -/
theorem tokensFrom_eq (source text : List Char) :
    tokensFrom source text = (lexed source text).2.elim (.ok (lexed source text).1) .error := by
  induction hk : text.length using Nat.strongRecOn generalizing text with
  | _ k ih =>
    subst hk
    rw [tokensFrom]
    split
    · next hs => rw [lexed_done hs]; rfl
    · next hs => rw [lexed_fault hs]; rfl
    · next t rest hs =>
        rw [ih rest.length (scan_length hs) rest rfl, lexed_token hs]
        cases (lexed source rest).2 <;> rfl

/-- The tokens of a text are the row that it spells. -/
theorem tokenize_eq_ok_iff {source : String} {ts : List Token} :
    tokenize source = .ok ts ↔ Spells source.toList ts := by
  rw [tokenize, tokensFrom_eq, ← @lexed_eq_iff_spells source.toList]
  rcases lexed source.toList source.toList with ⟨us, _ | e⟩ <;> simp

/-- Every token of a text has a lexeme. -/
theorem exists_lexeme_of_mem_lexed {source text : List Char} :
    ∀ t ∈ (lexed source text).1, ∃ lexeme, t.Lexeme lexeme := by
  -- `lexed` goes on behind the lexeme, where the text is shorter
  induction hk : text.length using Nat.strongRecOn generalizing text with
  | _ k ih =>
    subst hk
    cases hs : scan text with
    | done => simp [lexed_done hs]
    | fault cause left => simp [lexed_fault hs]
    | token t rest =>
        rw [lexed_token hs]
        intro u hu
        rcases List.mem_cons.mp hu with rfl | hu
        · obtain ⟨_, lexeme, _, _, hl, _⟩ := scan_eq_token_iff.mp hs
          exact ⟨lexeme, hl⟩
        · exact ih rest.length (scan_length hs) rfl u hu

/-! ## Futures -/

/-- Tokens to come, and the error behind them, if any. -/
abbrev Future := List Token × Option LexError

namespace Future

variable {f : Future} {e : LexError}

/-- What a stream answers when this is to come. -/
def answer : Future → Except LexError (Option Token)
  | (t :: _, _) => .ok (some t)
  | ([], none) => .ok none
  | ([], some e) => .error e

/-- What is to come behind the answer.  An error comes once. -/
def behind : Future → Future
  | (_ :: ts, e) => (ts, e)
  | ([], _) => ([], none)

/-- What is to come when the answer was only looked at. -/
def kept : Future → Future
  | (t :: ts, e) => (t :: ts, e)
  | ([], _) => ([], none)

theorem eq_of_answer {shown : Option Token} (h : f.answer = .ok shown) :
    f = (shown.toList ++ f.behind.1, f.behind.2) := by
  obtain ⟨_ | ⟨u, us⟩, _ | e⟩ := f <;> cases h <;> rfl

theorem eq_of_answer_end (h : f.answer = .ok none) : f = ([], none) := by
  obtain ⟨_ | ⟨u, us⟩, _ | e⟩ := f <;> cases h
  rfl

theorem eq_of_answer_error (h : f.answer = .error e) : f = ([], some e) := by
  obtain ⟨_ | ⟨u, us⟩, _ | e⟩ := f <;> cases h
  rfl

theorem kept_of_answer {shown : Option Token} (h : f.answer = .ok shown) :
    f.kept = f ∧ f.1.head? = shown := by
  obtain ⟨_ | ⟨u, us⟩, _ | e⟩ := f <;> cases h <;> exact ⟨rfl, rfl⟩

end Future

/-! ## Streams -/

namespace TokenStream

variable {s s' : TokenStream} {t : Token} {ts : List Token} {e : Option LexError}

/-- The tokens that a stream will still hand over, and the error behind them, if any. -/
def future (s : TokenStream) : List Token × Option LexError :=
  (s.buffer.toList ++ (lexed s.source s.rest).1, (lexed s.source s.rest).2)

/-- One step past the buffer. -/
theorem pull_eq (h : s.buffer = none) :
    s.pull.1 = Future.answer s.future ∧ s.pull.2.future = Future.behind s.future ∧
      s.pull.2.buffer = none := by
  unfold pull future
  cases hs : scan s.rest with
  | done => simp [h, lexed_done hs, lexed_nil, Future.answer, Future.behind]
  | fault cause left => simp [h, lexed_fault hs, lexed_nil, Future.answer, Future.behind]
  | token t rest => simp [h, lexed_token hs, Future.answer, Future.behind]

/-- To take a token is to take the first one of the future. -/
theorem advance_eq (s : TokenStream) :
    s.advance.1 = Future.answer s.future ∧ s.advance.2.future = Future.behind s.future := by
  cases hb : s.buffer with
  | some b => simp [advance, hb, future, Future.answer, Future.behind]
  | none =>
      obtain ⟨hanswer, hbehind, -⟩ := pull_eq hb
      have hadvance : s.advance = s.pull := by simp [advance, hb]
      rw [hadvance]
      exact ⟨hanswer, hbehind⟩

/-- To look ahead is to look at the first token of the future. -/
theorem peek_eq (s : TokenStream) :
    s.peek.1 = Future.answer s.future ∧ s.peek.2.future = Future.kept s.future := by
  cases hb : s.buffer with
  | some b => simp [peek, hb, future, Future.answer, Future.kept]
  | none =>
      obtain ⟨hanswer, hbehind, hbuffer⟩ := pull_eq hb
      rcases hp : s.pull with ⟨err | shown, s₁⟩ <;> rw [hp] at hanswer hbehind hbuffer
      · have hpeek : s.peek = (.error err, s₁) := by simp [peek, hb, hp]
        rw [hpeek, hbehind, Future.eq_of_answer_error hanswer.symm]
        exact ⟨rfl, rfl⟩
      · have hpeek : s.peek = (.ok shown, { s₁ with buffer := shown }) := by simp [peek, hb, hp]
        have hnone : s₁.buffer = none := hbuffer
        have hleft : s₁.future = lexed s₁.source s₁.rest := by simp [future, hnone]
        have hfuture := Future.eq_of_answer hanswer.symm
        rw [← hbehind, hleft] at hfuture
        rw [hpeek, (Future.kept_of_answer hanswer.symm).1]
        exact ⟨hanswer, hfuture.symm⟩

/-- Taking a token gives the first one of the future, and the rest of the future is left. -/
theorem advance_token (h : s.future = (t :: ts, e)) :
    ∃ s', s.advance = (.ok (some t), s') ∧ s'.future = (ts, e) := by
  obtain ⟨hanswer, hbehind⟩ := s.advance_eq
  rw [h] at hanswer hbehind
  exact ⟨s.advance.2, Prod.ext hanswer rfl, hbehind⟩

/-- A token that was handed over was the first of the future. -/
theorem future_of_advance (h : s.advance = (.ok (some t), s')) :
    s.future = (t :: s'.future.1, s'.future.2) := by
  obtain ⟨hanswer, hbehind⟩ := s.advance_eq
  rw [h] at hanswer hbehind
  rw [hbehind]
  exact Future.eq_of_answer hanswer.symm

/-- Where no token is handed over, none was to come. -/
theorem future_of_advance_none (h : s.advance = (.ok none, s')) : s.future = ([], none) := by
  obtain ⟨hanswer, -⟩ := s.advance_eq
  rw [h] at hanswer
  exact Future.eq_of_answer_end hanswer.symm

/-- A lexical error that was met stood at the beginning of the future. -/
theorem future_of_advance_error {err : LexError} (h : s.advance = (.error err, s')) :
    s.future = ([], some err) := by
  obtain ⟨hanswer, -⟩ := s.advance_eq
  rw [h] at hanswer
  exact Future.eq_of_answer_error hanswer.symm

theorem peek_token (h : s.future = (t :: ts, e)) :
    ∃ s', s.peek = (.ok (some t), s') ∧ s'.future = (t :: ts, e) := by
  obtain ⟨hanswer, hkept⟩ := s.peek_eq
  rw [h] at hanswer hkept
  exact ⟨s.peek.2, Prod.ext hanswer rfl, hkept⟩

theorem peek_end (h : s.future = ([], none)) :
    ∃ s', s.peek = (.ok none, s') ∧ s'.future = ([], none) := by
  obtain ⟨hanswer, hkept⟩ := s.peek_eq
  rw [h] at hanswer hkept
  exact ⟨s.peek.2, Prod.ext hanswer rfl, hkept⟩

/-- What was shown is the first of the future, which is kept. -/
theorem future_of_peek {shown : Option Token} (h : s.peek = (.ok shown, s')) :
    s'.future = s.future ∧ s.future.1.head? = shown := by
  obtain ⟨hanswer, hkept⟩ := s.peek_eq
  rw [h] at hanswer hkept
  obtain ⟨hsame, hhead⟩ := Future.kept_of_answer hanswer.symm
  exact ⟨hkept.trans hsame, hhead⟩

/-- Where no token is shown, none will come. -/
theorem future_of_peek_none (h : s.peek = (.ok none, s')) : s.future = ([], none) := by
  obtain ⟨hanswer, -⟩ := s.peek_eq
  rw [h] at hanswer
  exact Future.eq_of_answer_end hanswer.symm

theorem future_of_peek_error {err : LexError} (h : s.peek = (.error err, s')) :
    s.future = ([], some err) := by
  obtain ⟨hanswer, -⟩ := s.peek_eq
  rw [h] at hanswer
  exact Future.eq_of_answer_error hanswer.symm

/-- Whether a token was looked at makes no difference to how it is taken. -/
theorem advance_eq_of_peek (h : s.peek = (.ok (some t), s')) : s.advance = s'.advance := by
  rw [advance_of_peek h]
  cases hb : s.buffer with
  | some b =>
      simp only [peek, hb] at h
      cases h
      simp [advance, hb]
  | none =>
      simp only [peek, hb] at h
      split at h <;> cases h
      next s₁ hp =>
      obtain ⟨source, rest, buffer⟩ := s₁
      obtain rfl : buffer = none := (pull_size hp).2.trans hb
      simp only [advance, hb, hp]

/-! ## What a stream hands over -/

/-- All tokens that a stream will hand over have a lexeme. -/
def Lexical (s : TokenStream) : Prop := ∀ t ∈ s.future.1, ∃ lexeme, t.Lexeme lexeme

/-- From one state to another a stream hands over `ts`. -/
def Passes (s : TokenStream) (ts : List Token) (s' : TokenStream) : Prop :=
  s.future = (ts ++ s'.future.1, s'.future.2)

theorem lexical_ofText (text : String) : (ofText text).Lexical := exists_lexeme_of_mem_lexed

theorem Passes.trans {s₁ s₂ s₃ : TokenStream} {ts us : List Token} (h : s₁.Passes ts s₂)
    (h' : s₂.Passes us s₃) : s₁.Passes (ts ++ us) s₃ := by
  unfold Passes at h h' ⊢
  rw [h, h', List.append_assoc]

theorem Passes.lexical (h : s.Passes ts s') (hs : s.Lexical) : s'.Lexical := by
  intro t ht
  refine hs t ?_
  rw [h]
  exact List.mem_append_right ts ht

/-- Looking ahead leaves all that is to come. -/
theorem Passes.peek {s₁ s₂ : TokenStream} {shown : Option Token} (h : s.Passes ts s₁)
    (hp : s₁.peek = (.ok shown, s₂)) : s.Passes ts s₂ := by
  unfold Passes at h ⊢
  rw [h, (future_of_peek hp).1]

theorem passes_of_advance (h : s.advance = (.ok (some t), s')) : s.Passes [t] s' :=
  future_of_advance h

theorem Lexical.of_advance (hs : s.Lexical) (h : s.advance = (.ok (some t), s')) :
    ∃ lexeme, t.Lexeme lexeme := by
  refine hs t ?_
  rw [future_of_advance h]
  exact List.mem_cons_self

end TokenStream

end MiniLisp
