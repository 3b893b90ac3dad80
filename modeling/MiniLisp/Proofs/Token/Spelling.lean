/-
# MiniLisp.Proofs.Token.Spelling — the lexical grammar beside the lexer.

`Token.Lexeme` says which characters spell a token.  `Spells` says which texts spell a row of tokens:
lexemes in order with blanks around them, where a gap may be empty only after a token that closes
itself or in front of a character that ends a word.  `scan_eq_token_iff` is the exact meaning of one
step of the lexer: it finds a token where one is spelled, and nowhere else.

A `Piece` is a text that spells its tokens in front of whatever may follow a word.  Pieces are put
together with blanks between them and parentheses around them, which is all that printers do.
-/
import Mathlib.Data.List.TakeWhile
import MiniLisp.Token.Lexer
import MiniLisp.Text.Tuple

namespace MiniLisp

/-! ## Lexemes -/

/-- The characters of one symbol: some word characters, of which the first is neither a digit nor a
double quote. -/
structure SymbolText (text : List Char) : Prop where
  nonempty : text ≠ []
  word : ∀ c ∈ text, isWordChar c = true
  first : ∀ c ∈ text.head?, Text.isDigit c = false ∧ c ≠ '"'

theorem symbolText_iff {text : List Char} :
    SymbolText text ↔ text ≠ [] ∧ text.all isWordChar = true ∧
      text.head?.toList.all (fun c => !Text.isDigit c && c ≠ '"') = true := by
  constructor
  · rintro ⟨nonempty, word, first⟩
    exact ⟨nonempty, by simpa using word, by simpa using first⟩
  · rintro ⟨nonempty, word, first⟩
    exact ⟨nonempty, by simpa using word, by simpa using first⟩

instance (text : List Char) : Decidable (SymbolText text) := decidable_of_iff' _ symbolText_iff

/-- The ways to spell a token. -/
inductive Token.Lexeme : Token → List Char → Prop
  | openParen : Lexeme .openParen ['(']
  | closeParen : Lexeme .closeParen [')']
  | string {inside : List Char} (h : '"' ∉ inside) :
      Lexeme (.string (String.ofList inside)) ('"' :: inside ++ ['"'])
  | integer {digits : List Char} (nonempty : digits ≠ [])
      (all : ∀ c ∈ digits, Text.isDigit c = true) (short : digits.length ≤ Text.maxDigits)
      (small : (Text.digitsValue digits : Int) ≤ maxInt) :
      Lexeme (.integer (Text.digitsValue digits)) digits
  | symbol {text : List Char} (h : SymbolText text) : Lexeme (.symbol (String.ofList text)) text

/-- A token that ends by itself, whatever follows it. -/
def Token.closesItself : Token → Bool
  | .openParen | .closeParen | .string _ => true
  | _ => false

/-- No character at the beginning of `rest` could prolong a word. -/
def WordEnds (rest : List Char) : Prop := ∀ c ∈ rest.head?, isWordChar c = false

/-- A text that spells a row of tokens. -/
inductive Spells : List Char → List Token → Prop
  | nil {gap : List Char} (blank : ∀ c ∈ gap, Text.isBlank c = true) : Spells gap []
  | cons {gap lexeme rest : List Char} {t : Token} {ts : List Token}
      (blank : ∀ c ∈ gap, Text.isBlank c = true) (lexeme_of : t.Lexeme lexeme)
      (parted : t.closesItself = true ∨ WordEnds rest) (tail : Spells rest ts) :
      Spells (gap ++ lexeme ++ rest) (t :: ts)

/-! ## Spans of characters -/

/-- `takeWhile` and `dropWhile` cut a list in front of the first element that fails the test. -/
theorem span_iff {p : Char → Bool} {l a b : List Char} :
    l.takeWhile p = a ∧ l.dropWhile p = b ↔
      l = a ++ b ∧ (∀ c ∈ a, p c = true) ∧ ∀ c ∈ b.head?, p c = false := by
  constructor
  · rintro ⟨rfl, rfl⟩
    refine ⟨List.takeWhile_append_dropWhile.symm, fun c hc => List.mem_takeWhile_imp hc, ?_⟩
    intro c hc
    have h := List.head?_dropWhile_not p l
    rw [Option.mem_def.mp hc] at h
    exact h
  · rintro ⟨rfl, ha, hb⟩
    rw [List.takeWhile_append_of_pos ha, List.dropWhile_append_of_pos ha]
    cases b with
    | nil => simp
    | cons c b =>
        have hc : p c = false := hb c rfl
        simp [hc]

theorem isBlank_eq_false_of_isWordChar {c : Char} (h : isWordChar c = true) :
    Text.isBlank c = false :=
  (isWordChar_iff.mp h).1

/-- A digit is a word character, so an integer ends where a word does. -/
theorem isWordChar_of_isDigit {c : Char} (h : Text.isDigit c = true) : isWordChar c = true := by
  simp only [Text.isDigit, Bool.and_eq_true, decide_eq_true_eq, Char.le_def,
    UInt32.le_iff_toNat_le] at h
  obtain ⟨hlo, hhi⟩ : 48 ≤ c.toNat ∧ c.toNat ≤ 57 := h
  refine isWordChar_iff.mpr ⟨?_, ?_, ?_⟩
  · simp [Text.isBlank, Text.CharSet.contains, Text.blanks]
    omega
  · rintro rfl
    exact absurd hlo (by decide)
  · rintro rfl
    exact absurd hlo (by decide)

/-- Where a word ends, so do the digits at its end: a digit would go on with the word. -/
theorem WordEnds.not_digit {rest : List Char} (h : WordEnds rest) :
    ∀ c ∈ rest.head?, Text.isDigit c = false := by
  intro c hc
  have hword : isWordChar c = false := h c hc
  by_contra hdigit
  rw [isWordChar_of_isDigit (by simpa using hdigit)] at hword
  cases hword

/-! ## One step of the lexer -/

theorem integerToken_eq_ok_iff {digits : List Char} {t : Token} :
    integerToken digits = .ok t ↔ digits.length ≤ Text.maxDigits ∧
      (Text.digitsValue digits : Int) ≤ maxInt ∧ t = .integer (Text.digitsValue digits) := by
  unfold integerToken
  split
  · next h => simp [Nat.not_le.mpr h]
  · split
    · next h => simp [Int.not_le.mpr h]
    · next h₁ h₂ => simp [Nat.not_lt.mp h₁, Int.not_lt.mp h₂, eq_comm]

theorem scanInteger_eq_token_iff {text rest : List Char} {t : Token} :
    scanInteger text = .token t rest ↔ ∃ digits, text = digits ++ rest ∧
      (∀ c ∈ digits, Text.isDigit c = true) ∧ digits.length ≤ Text.maxDigits ∧
      (Text.digitsValue digits : Int) ≤ maxInt ∧ t = .integer (Text.digitsValue digits) ∧
      WordEnds rest := by
  have glued_nil (l : List Char) : l.takeWhile isWordChar = [] ↔ WordEnds l := by
    cases l <;> simp [WordEnds]
  constructor
  · intro h
    obtain ⟨happ, hall, -⟩ :=
      (span_iff (p := Text.isDigit) (l := text)).mp ⟨rfl, rfl⟩
    simp only [scanInteger, List.isEmpty_iff] at h
    split at h
    · next hglued =>
      split at h
      · next ht =>
        cases h
        obtain ⟨hlen, hle, rfl⟩ := integerToken_eq_ok_iff.mp ht
        exact ⟨_, happ, hall, hlen, hle, rfl, (glued_nil _).mp hglued⟩
      · cases h
    · cases h
  · rintro ⟨digits, rfl, hall, hlen, hle, rfl, hends⟩
    obtain ⟨htake, hdrop⟩ := (span_iff (p := Text.isDigit)).mpr ⟨rfl, hall, hends.not_digit⟩
    simp only [scanInteger, htake, hdrop, (glued_nil rest).mpr hends, List.isEmpty_nil, if_true,
      integerToken_eq_ok_iff.mpr ⟨hlen, hle, rfl⟩]

theorem scanString_eq_token_iff {text rest : List Char} {t : Token} :
    scanString text = .token t rest ↔ ∃ inside, '"' ∉ inside ∧ text = inside ++ '"' :: rest ∧
      t = .string (String.ofList inside) := by
  constructor
  · intro h
    obtain ⟨happ, hall, hhead⟩ :=
      (span_iff (p := (· ≠ '"')) (l := text)).mp ⟨rfl, rfl⟩
    simp only [scanString] at h
    split at h
    · cases h
    · next q tail htail =>
      cases h
      rw [htail] at happ hhead
      have hq : q = '"' := by simpa using hhead q rfl
      subst hq
      exact ⟨_, fun hmem => by simpa using hall _ hmem, happ, rfl⟩
  · rintro ⟨inside, hno, rfl, rfl⟩
    have hall : ∀ c ∈ inside, decide (c ≠ '"') = true := by
      intro c hc
      refine decide_eq_true ?_
      rintro rfl
      exact hno hc
    obtain ⟨htake, hdrop⟩ :=
      (span_iff (p := fun c => decide (c ≠ '"')) (b := '"' :: rest)).mpr ⟨rfl, hall, by simp⟩
    simp only [scanString, htake, hdrop]

/-- A lexeme begins with no blank. -/
theorem Token.Lexeme.exists_cons {t : Token} {lexeme : List Char} (h : t.Lexeme lexeme) :
    ∃ c cs, lexeme = c :: cs ∧ Text.isBlank c = false := by
  cases h with
  | openParen => exact ⟨'(', [], rfl, by decide⟩
  | closeParen => exact ⟨')', [], rfl, by decide⟩
  | string _ => exact ⟨'"', _, rfl, by decide⟩
  | integer nonempty all _ _ =>
      obtain ⟨c, cs, rfl⟩ := List.exists_cons_of_ne_nil nonempty
      have hc : Text.isDigit c = true := all c (by simp)
      exact ⟨c, cs, rfl, isBlank_eq_false_of_isWordChar (isWordChar_of_isDigit hc)⟩
  | symbol h =>
      obtain ⟨c, cs, rfl⟩ := List.exists_cons_of_ne_nil h.nonempty
      exact ⟨c, cs, rfl, isBlank_eq_false_of_isWordChar (h.word c (by simp))⟩

theorem scanLexeme_eq_token_iff {c : Char} {tail rest : List Char} {t : Token}
    (hc : Text.isBlank c = false) :
    scanLexeme c tail = .token t rest ↔ ∃ lexeme, c :: tail = lexeme ++ rest ∧ t.Lexeme lexeme ∧
      (t.closesItself = true ∨ WordEnds rest) := by
  constructor
  · intro h
    unfold scanLexeme at h
    split at h
    · next hopen => cases h; exact ⟨['('], by simp [hopen], .openParen, Or.inl rfl⟩
    split at h
    · next hclose => cases h; exact ⟨[')'], by simp [hclose], .closeParen, Or.inl rfl⟩
    split at h
    · next hquote =>
      obtain ⟨inside, hno, rfl, rfl⟩ := scanString_eq_token_iff.mp h
      exact ⟨_, by simp [hquote], .string hno, Or.inl rfl⟩
    split at h
    · next hdigit =>
      obtain ⟨digits, happ, hall, hlen, hle, rfl, hends⟩ := scanInteger_eq_token_iff.mp h
      -- the first character is a digit itself
      have hne : digits ≠ [] := by
        rintro rfl
        rw [List.nil_append] at happ
        have hw := hends c (happ ▸ rfl)
        rw [isWordChar_of_isDigit hdigit] at hw
        cases hw
      exact ⟨digits, happ, .integer hne hall hlen hle, Or.inr hends⟩
    · next hopen hclose hquote hdigit =>
      -- a symbol is whatever no other kind of token begins like
      cases h
      obtain ⟨happ, hall, hends⟩ := (span_iff (p := isWordChar) (l := c :: tail)).mp ⟨rfl, rfl⟩
      have hw : isWordChar c = true := isWordChar_iff.mpr ⟨hc, hopen, hclose⟩
      have htext : SymbolText ((c :: tail).takeWhile isWordChar) :=
        { nonempty := by simp [hw]
          word := hall
          first := by simpa [hw] using And.intro (by simpa using hdigit) hquote }
      exact ⟨_, happ, .symbol htext, Or.inr hends⟩
  · rintro ⟨lexeme, happ, hlex, hparted⟩
    cases hlex with
    | openParen => obtain ⟨rfl, rfl⟩ := List.cons.inj happ; simp [scanLexeme]
    | closeParen => obtain ⟨rfl, rfl⟩ := List.cons.inj happ; simp [scanLexeme]
    | @string inside hno =>
        obtain ⟨rfl, rfl⟩ := List.cons.inj happ
        have hscan : scanString (inside ++ '"' :: rest) =
            .token (.string (String.ofList inside)) rest :=
          scanString_eq_token_iff.mpr ⟨inside, hno, rfl, rfl⟩
        simpa [scanLexeme] using hscan
    | @integer digits nonempty all short small =>
        have hends : WordEnds rest := hparted.resolve_left (by simp [Token.closesItself])
        obtain ⟨d, ds, rfl⟩ := List.exists_cons_of_ne_nil nonempty
        obtain ⟨rfl, rfl⟩ := List.cons.inj happ
        have hd : Text.isDigit c = true := all c (by simp)
        obtain ⟨-, hopen, hclose⟩ := isWordChar_iff.mp (isWordChar_of_isDigit hd)
        have hquote : c ≠ '"' := by rintro rfl; exact absurd hd (by decide)
        have hscan := scanInteger_eq_token_iff.mpr ⟨_, rfl, all, short, small, rfl, hends⟩
        simpa [scanLexeme, hopen, hclose, hquote, hd] using hscan
    | @symbol text h =>
        have hends : WordEnds rest := hparted.resolve_left (by simp [Token.closesItself])
        obtain ⟨d, ds, rfl⟩ := List.exists_cons_of_ne_nil h.nonempty
        obtain ⟨rfl, rfl⟩ := List.cons.inj happ
        obtain ⟨-, hopen, hclose⟩ := isWordChar_iff.mp (h.word c (by simp))
        obtain ⟨hdigit, hquote⟩ := h.first c rfl
        obtain ⟨htake, hdrop⟩ := (span_iff (p := isWordChar)).mpr ⟨rfl, h.word, hends⟩
        rw [List.cons_append] at htake hdrop
        simp [scanLexeme, hopen, hclose, hquote, hdigit, htake, hdrop]

/-- The lexer finds a token exactly where one is spelled, possibly after blanks. -/
theorem scan_eq_token_iff {text rest : List Char} {t : Token} :
    scan text = .token t rest ↔ ∃ gap lexeme, text = gap ++ lexeme ++ rest ∧
      (∀ c ∈ gap, Text.isBlank c = true) ∧ t.Lexeme lexeme ∧
      (t.closesItself = true ∨ WordEnds rest) := by
  constructor
  · intro h
    obtain ⟨happ, hblank, hhead⟩ := (span_iff (p := Text.isBlank) (l := text)).mp ⟨rfl, rfl⟩
    unfold scan at h
    split at h
    · cases h
    · next c tail htail =>
      rw [htail] at happ hhead
      obtain ⟨lexeme, hl, hlex, hparted⟩ := (scanLexeme_eq_token_iff (hhead c rfl)).mp h
      refine ⟨_, lexeme, happ.trans ?_, hblank, hlex, hparted⟩
      rw [hl, List.append_assoc]
  · rintro ⟨gap, lexeme, rfl, hblank, hlex, hparted⟩
    obtain ⟨c, cs, rfl, hc⟩ := hlex.exists_cons
    have hdrop : (gap ++ (c :: cs) ++ rest).dropWhile Text.isBlank = c :: (cs ++ rest) := by
      rw [List.append_assoc, List.dropWhile_append_of_pos hblank, List.cons_append]
      simp [hc]
    unfold scan
    rw [hdrop]
    exact (scanLexeme_eq_token_iff hc).mpr ⟨_, rfl, hlex, hparted⟩

/-! ## Texts that spell nothing more -/

/-- Blanks in front of a text change nothing. -/
theorem Spells.blanks {gap text : List Char} {ts : List Token}
    (hg : ∀ c ∈ gap, Text.isBlank c = true) (h : Spells text ts) : Spells (gap ++ text) ts := by
  cases h with
  | nil blank =>
      refine .nil fun c hc => ?_
      rcases List.mem_append.mp hc with hc | hc
      · exact hg c hc
      · exact blank c hc
  | @cons gap' lexeme rest t ts blank lexeme_of parted tail =>
      rw [List.append_assoc, ← List.append_assoc, ← List.append_assoc]
      refine .cons (fun c hc => ?_) lexeme_of parted tail
      rcases List.mem_append.mp hc with hc | hc
      · exact hg c hc
      · exact blank c hc

/-- A lexeme directly in front of a text. -/
theorem Spells.token {lexeme rest : List Char} {t : Token} {ts : List Token}
    (hl : t.Lexeme lexeme) (hp : t.closesItself = true ∨ WordEnds rest) (h : Spells rest ts) :
    Spells (lexeme ++ rest) (t :: ts) := by
  have hnil : ∀ c ∈ ([] : List Char), Text.isBlank c = true := by simp
  exact .cons hnil hl hp h

/-! ## Pieces -/

/-- A text that spells `ts` wherever a word may end behind it. -/
def Piece (text : String) (ts : List Token) : Prop :=
  ∀ rest us, WordEnds rest → Spells rest us → Spells (text.toList ++ rest) (ts ++ us)

/-- A text that separates two words: some blanks. -/
structure IsGap (gap : String) : Prop where
  nonempty : gap.toList ≠ []
  blank : ∀ c ∈ gap.toList, Text.isBlank c = true

theorem wordEnds_of_blank {c : Char} {rest : List Char} (h : Text.isBlank c = true) :
    WordEnds (c :: rest) := by
  intro d hd
  obtain rfl : c = d := by simpa using hd
  simp [isWordChar, h]

theorem IsGap.wordEnds {gap : String} (h : IsGap gap) (rest : List Char) :
    WordEnds (gap.toList ++ rest) := by
  obtain ⟨c, cs, hcs⟩ := List.exists_cons_of_ne_nil h.nonempty
  have hc : Text.isBlank c = true := h.blank c (by simp [hcs])
  rw [hcs, List.cons_append]
  exact wordEnds_of_blank hc

/-- What ends a word goes on ending it, whatever is put behind. -/
theorem WordEnds.append {rest rest' : List Char} (h : WordEnds rest) (h' : WordEnds rest') :
    WordEnds (rest ++ rest') := by
  cases rest with
  | nil => exact h'
  | cons c rest => exact h

/-- A text that spells a row of tokens is a piece. -/
theorem Spells.piece {text : String} {ts : List Token} (h : Spells text.toList ts) :
    Piece text ts := by
  intro rest us hends hrest
  generalize text.toList = chars at h
  induction h with
  | nil blank => exact hrest.blanks blank
  | @cons gap lexeme tail t ts blank lexeme_of parted _ ih =>
      rw [List.append_assoc]
      exact .cons blank lexeme_of (parted.imp_right (·.append hends)) ih

namespace Piece

theorem spells {text : String} {ts : List Token} (h : Piece text ts) : Spells text.toList ts := by
  have := h [] [] (by simp [WordEnds]) (.nil (by simp))
  simpa using this

theorem empty : Piece "" [] := fun _ _ _ h => h

theorem token {text : String} {t : Token} (h : t.Lexeme text.toList) : Piece text [t] :=
  fun _ _ hends hrest => .token h (Or.inr hends) hrest

theorem openParen {text : String} {ts : List Token} (h : Piece text ts) :
    Piece ("(" ++ text) (.openParen :: ts) := by
  intro rest us hends hrest
  rw [String.toList_append, List.append_assoc]
  exact .token .openParen (Or.inl rfl) (h rest us hends hrest)

theorem closeParen {text : String} {ts : List Token} (h : Piece text ts) :
    Piece (text ++ ")") (ts ++ [.closeParen]) := by
  intro rest us _ hrest
  rw [String.toList_append, List.append_assoc, List.append_assoc]
  -- the parenthesis ends the last word of the piece, so no blank is needed
  refine h _ _ ?_ (.token .closeParen (Or.inl rfl) hrest)
  intro c hc
  obtain rfl : ')' = c := by simpa using hc
  decide

/-- Blanks in front of a piece change nothing. -/
theorem blanks {gap text : String} {ts : List Token}
    (hg : ∀ c ∈ gap.toList, Text.isBlank c = true) (h : Piece text ts) :
    Piece (gap ++ text) ts := by
  intro rest us hends hrest
  rw [String.toList_append, List.append_assoc]
  exact (h rest us hends hrest).blanks hg

theorem append {gap text text' : String} {ts ts' : List Token} (hg : IsGap gap)
    (h : Piece text ts) (h' : Piece text' ts') : Piece (text ++ gap ++ text') (ts ++ ts') := by
  intro rest us hends hrest
  have htail := (h' rest us hends hrest).blanks hg.blank
  rw [String.toList_append, String.toList_append, List.append_assoc, List.append_assoc,
    List.append_assoc]
  exact h _ _ (hg.wordEnds _) htail

end Piece

/-! ## Rows of pieces -/

/-- Texts that are pieces one by one, and the tokens of all of them. -/
inductive Pieces : List String → List Token → Prop
  | nil : Pieces [] []
  | cons {text : String} {texts : List String} {ts us : List Token} (head : Piece text ts)
      (tail : Pieces texts us) : Pieces (text :: texts) (ts ++ us)

/-- Pieces with gaps between them are a piece. -/
theorem Pieces.intercalate {gap : String} (hg : IsGap gap) {texts : List String}
    {ts : List Token} (h : Pieces texts ts) : Piece (gap.intercalate texts) ts := by
  induction h with
  | nil => rw [String.intercalate_nil]; exact .empty
  | cons head tail ih =>
      cases tail with
      | nil => rw [String.intercalate_singleton, List.append_nil]; exact head
      | cons head' tail => rw [String.intercalate_cons_cons]; exact head.append hg ih

theorem isGap_space : IsGap " " := ⟨by decide, List.all_eq_true.mp (by decide)⟩

theorem isGap_newline : IsGap "\n" := ⟨by decide, List.all_eq_true.mp (by decide)⟩

/-- Pieces in parentheses are a piece. -/
theorem Pieces.parenthesized {texts : List String} {ts : List Token} (h : Pieces texts ts) :
    Piece (Text.parenthesized texts) (.openParen :: ts ++ [.closeParen]) :=
  (h.intercalate isGap_space).openParen.closeParen

/-- A row of names is a row of symbols. -/
theorem pieces_names {names : List String} (h : ∀ x ∈ names, SymbolText x.toList) :
    Pieces names (names.map .symbol) := by
  induction names with
  | nil => exact .nil
  | cons x xs ih =>
      have hx : (Token.symbol x).Lexeme x.toList := by
        simpa using Token.Lexeme.symbol (h x (by simp))
      exact .cons (.token hx) (ih fun y hy => h y (by simp [hy]))

end MiniLisp
