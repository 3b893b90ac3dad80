/-
# MiniLisp.Token.Lexer — from characters to tokens.

Blanks separate tokens.  At the first other character a token begins, and its class is settled by
that character:

* a parenthesis is a token by itself;
* a double quote opens a string, which runs to the next double quote, whatever stands between;
* an ASCII digit begins an integer, which must end at a blank, a parenthesis or the end;
* anything else begins a symbol, which runs to the next blank or parenthesis.

`scan` finds the first token of a text.  Where none can be formed it says why, and how much of the
text was left at the first character of the bad lexeme, which locates it from the end.
-/
import MiniLisp.Integer
import MiniLisp.Token
import MiniLisp.Text.Numeral
import MiniLisp.Text.Position

namespace MiniLisp

open Text (Position)

/-! ## Lexical errors -/

/-- Why no token can be formed. -/
inductive LexFault where
  /-- A double quote without a partner. -/
  | unterminatedString
  /-- A run of digits that runs into other characters. -/
  | malformedInteger (lexeme : String)
  /-- An integer beyond the range of numbers; its digits. -/
  | integerOutOfRange (digits : String)
  /-- An integer too long to be converted; the number of its digits. -/
  | integerTooLong (length : Nat)
deriving DecidableEq, Repr

/-- A lexical error: its cause and the place of the lexeme. -/
structure LexError where
  fault : LexFault
  position : Position
deriving DecidableEq, Repr

/-- The cause of a lexical error in words. -/
def LexFault.message : LexFault → String
  | .unterminatedString => "Unterminated string literal"
  | .malformedInteger lexeme => "Malformed integer literal " ++ Text.quoted lexeme
  | .integerOutOfRange digits => "Integer literal " ++ digits ++ " does not fit in 64 bits"
  | .integerTooLong n =>
    "Exceeds the limit (" ++ toString Text.maxDigits ++ " digits) for integer string conversion: "
      ++ "value has " ++ toString n
      ++ " digits; use sys.set_int_max_str_digits() to increase the limit"

/-! ## The first token of a text -/

/-- The characters of symbols, and those that an integer must not run into. -/
def isWordChar (c : Char) : Bool := !Text.isBlank c && c ≠ '(' && c ≠ ')'

/-- What the beginning of a text holds. -/
inductive Scan where
  /-- Only blanks. -/
  | done
  | token (t : Token) (rest : List Char)
  /-- No token can be formed; `left` characters of the text remain from the bad lexeme on. -/
  | fault (cause : LexFault) (left : Nat)
deriving Repr

/-- The integer spelled by `digits`, unless it is too long or out of range. -/
def integerToken (digits : List Char) : Except LexFault Token :=
  if digits.length > Text.maxDigits then .error (.integerTooLong digits.length)
  else if (Text.digitsValue digits : Int) > maxInt then
    .error (.integerOutOfRange (String.ofList digits))
  else .ok (.integer (Text.digitsValue digits))

/-- Scans a text that begins with the digits of an integer. -/
def scanInteger (text : List Char) : Scan :=
  let digits := text.takeWhile Text.isDigit
  let rest := text.dropWhile Text.isDigit
  let glued := rest.takeWhile isWordChar
  if glued.isEmpty then
    match integerToken digits with
    | .ok t => .token t rest
    | .error cause => .fault cause text.length
  else .fault (.malformedInteger (String.ofList (digits ++ glued))) text.length

/-- Scans the inside of a string, after its first double quote. -/
def scanString (inside : List Char) : Scan :=
  match inside.dropWhile (· ≠ '"') with
  | [] => .fault .unterminatedString (inside.length + 1)
  | _ :: rest => .token (.string (String.ofList (inside.takeWhile (· ≠ '"')))) rest

/-- Scans a text whose first character `c` is no blank. -/
def scanLexeme (c : Char) (rest : List Char) : Scan :=
  if c = '(' then .token .openParen rest
  else if c = ')' then .token .closeParen rest
  else if c = '"' then scanString rest
  else if Text.isDigit c then scanInteger (c :: rest)
  else .token (.symbol (String.ofList ((c :: rest).takeWhile isWordChar)))
    ((c :: rest).dropWhile isWordChar)

/-- The first token of a text and what follows it. -/
def scan (text : List Char) : Scan :=
  match text.dropWhile Text.isBlank with
  | [] => .done
  | c :: rest => scanLexeme c rest

/-! ## Scanning makes progress -/

theorem length_dropWhile_le (p : Char → Bool) (l : List Char) :
    (l.dropWhile p).length ≤ l.length :=
  (List.dropWhile_suffix p).sublist.length_le

theorem scanInteger_length {c : Char} {rest : List Char} {t : Token} {rest' : List Char}
    (hc : Text.isDigit c = true) (h : scanInteger (c :: rest) = .token t rest') :
    rest'.length ≤ rest.length := by
  simp only [scanInteger] at h
  split at h
  · split at h
    · cases h
      simpa [hc] using length_dropWhile_le Text.isDigit rest
    · cases h
  · cases h

theorem scanString_length {inside : List Char} {t : Token} {rest : List Char}
    (h : scanString inside = .token t rest) : rest.length < inside.length := by
  simp only [scanString] at h
  split at h
  · cases h
  · next _ tail htail =>
    cases h
    have := length_dropWhile_le (· ≠ '"') inside
    rw [htail, List.length_cons] at this
    omega

/-- A character that is no blank and no parenthesis may stand in a symbol. -/
theorem isWordChar_iff {c : Char} :
    isWordChar c = true ↔ Text.isBlank c = false ∧ c ≠ '(' ∧ c ≠ ')' := by
  simp [isWordChar, and_assoc]

theorem scanLexeme_length {c : Char} {rest : List Char} {t : Token} {rest' : List Char}
    (hc : Text.isBlank c = false) (h : scanLexeme c rest = .token t rest') :
    rest'.length ≤ rest.length := by
  simp only [scanLexeme] at h
  split at h
  · cases h; exact Nat.le_refl _
  · split at h
    · cases h; exact Nat.le_refl _
    · split at h
      · exact Nat.le_of_lt (scanString_length h)
      · split at h
        · next hd => exact scanInteger_length hd h
        · next h₁ h₂ _ _ =>
          cases h
          have hw : isWordChar c = true := isWordChar_iff.2 ⟨hc, h₁, h₂⟩
          simpa [hw] using length_dropWhile_le isWordChar rest

/-- Each token takes at least one character. -/
theorem scan_length {text : List Char} {t : Token} {rest : List Char}
    (h : scan text = .token t rest) : rest.length < text.length := by
  simp only [scan] at h
  split at h
  · cases h
  · next c tail htail =>
    have hc : Text.isBlank c = false := by
      have := List.head?_dropWhile_not Text.isBlank text
      rw [htail] at this
      simpa using this
    have h₁ := scanLexeme_length hc h
    have h₂ := length_dropWhile_le Text.isBlank text
    rw [htail, List.length_cons] at h₂
    omega

/-! ## All tokens of a text -/

/-- The place in `source` where `left` characters remain. -/
def locate (source : List Char) (left : Nat) : Position :=
  Text.position source (source.length - left)

/-- The tokens of what is left of `source`, up to its end or to the first lexical error. -/
def tokensFrom (source text : List Char) : Except LexError (List Token) :=
  match h : scan text with
  | .done => .ok []
  | .fault cause left => .error ⟨cause, locate source left⟩
  | .token t rest =>
    have := scan_length h
    match tokensFrom source rest with
    | .ok ts => .ok (t :: ts)
    | .error e => .error e
termination_by text.length

/-- The tokens of a text, or its first lexical error. -/
def tokenize (source : String) : Except LexError (List Token) :=
  tokensFrom source.toList source.toList

end MiniLisp
