/-
# MiniLisp.Token.Stream — tokens on demand, with one token of lookahead.

A stream scans its text only as far as it is asked to, so an error late in a text stays hidden until
a reader gets there.  `peek` shows the next token and keeps it, `advance` hands it over.  At the end
both answer `none`, and after a lexical error the stream is at its end.
-/
import MiniLisp.Token.Lexer

namespace MiniLisp

/-- A text on its way to become tokens. -/
structure TokenStream where
  /-- The whole text; errors are located in it. -/
  source : List Char
  /-- What has not been scanned yet. -/
  rest : List Char
  /-- A token that was scanned to be looked at. -/
  buffer : Option Token := none

namespace TokenStream

/-- A stream at the beginning of a text. -/
def ofText (text : String) : TokenStream where
  source := text.toList
  rest := text.toList

/-- Scans one more token, past the buffer. -/
def pull (s : TokenStream) : Except LexError (Option Token) × TokenStream :=
  match scan s.rest with
  | .done => (.ok none, { s with rest := [] })
  | .token t rest => (.ok (some t), { s with rest })
  | .fault cause left => (.error ⟨cause, locate s.source left⟩, { s with rest := [] })

/-- The next token, which stays the next one. -/
def peek (s : TokenStream) : Except LexError (Option Token) × TokenStream :=
  match s.buffer with
  | some t => (.ok (some t), s)
  | none =>
    match s.pull with
    | (.ok t, s) => (.ok t, { s with buffer := t })
    | (.error e, s) => (.error e, s)

/-- The next token, which is then behind the stream. -/
def advance (s : TokenStream) : Except LexError (Option Token) × TokenStream :=
  match s.buffer with
  | some t => (.ok (some t), { s with buffer := none })
  | none => s.pull

/-- A token that was looked at is the one that is handed over. -/
theorem advance_of_peek {s s' : TokenStream} {t : Token} (h : s.peek = (.ok (some t), s')) :
    s'.advance = (.ok (some t), { s' with buffer := none }) := by
  simp only [peek] at h
  split at h
  · next hb => cases h; simp [advance, hb]
  · split at h <;> cases h
    rfl

/-! ## A measure for loops over a stream -/

/-- A bound on the number of tokens to come. -/
def size (s : TokenStream) : Nat := s.rest.length + s.buffer.toList.length

theorem pull_size {s s' : TokenStream} {t : Option Token} (h : s.pull = (.ok t, s')) :
    s'.rest.length + t.toList.length ≤ s.rest.length ∧ s'.buffer = s.buffer := by
  simp only [pull] at h
  split at h
  · cases h; simp
  · next hs =>
    cases h
    have := scan_length hs
    simp; omega
  · cases h

/-- Looking ahead never makes a stream longer. -/
theorem peek_size {s s' : TokenStream} {t : Option Token} (h : s.peek = (.ok t, s')) :
    s'.size ≤ s.size := by
  simp only [peek] at h
  split at h
  · cases h; exact Nat.le_refl _
  · next hb =>
    split at h
    · next hp =>
      cases h
      have := (pull_size hp).1
      simp only [size, hb]
      simpa using this
    · cases h

/-- Taking a token makes a stream shorter. -/
theorem advance_size {s s' : TokenStream} {t : Token} (h : s.advance = (.ok (some t), s')) :
    s'.size < s.size := by
  simp only [advance] at h
  split at h
  · next hb => cases h; simp [size, hb]
  · next hb =>
    have := pull_size h
    simp only [size, this.2, hb]
    have h₁ := this.1
    simp only [Option.toList_some, List.length_cons, List.length_nil] at h₁ ⊢
    simp only [Option.toList_none, List.length_nil]
    omega

end TokenStream

end MiniLisp
