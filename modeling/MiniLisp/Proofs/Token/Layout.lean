/-
# MiniLisp.Proofs.Token.Layout — how tokens may be laid out in a text.

A text of some tokens is a row of words, each of them a lexeme with the blanks behind it, and
more blanks may stand in front of the first.  Between two words there may be none only where the end
of the left one cannot be missed: behind a parenthesis or a string, or in front of a parenthesis.

`Spells` puts this as a lexer meets it, with a look at the character behind a lexeme.  Here it is
put in terms of the two tokens that stand side by side, and `tokenize_eq_ok_iff_words` says that the
lexer accepts the texts laid out in this way, and no others.
-/
import Mathlib.Data.List.Chain
import MiniLisp.Proofs.Token.Stream

namespace MiniLisp

/-! ## Words -/

/-- A token as it stands in a text: the characters that spell it, and the blanks behind them. -/
structure Word where
  token : Token
  lexeme : List Char
  gap : List Char
  lexeme_of : token.Lexeme lexeme
  blank : ∀ c ∈ gap, Text.isBlank c = true

/-- The characters of the word and of the blanks behind it. -/
def Word.text (w : Word) : List Char := w.lexeme ++ w.gap

/-- A parenthesis of either kind. -/
def Token.isParen : Token → Bool
  | .openParen | .closeParen => true
  | _ => false

/-- The word `w` may stand in front of `v`: blanks are missing only where one of the two tokens
shows that the left one has ended. -/
def Word.Before (w v : Word) : Prop :=
  w.gap ≠ [] ∨ w.token.closesItself = true ∨ v.token.isParen = true

/-! ## In front of a word -/

/-- Nothing but the lexeme of a parenthesis begins with a character that ends a word. -/
theorem Token.Lexeme.wordEnds_append_iff {t : Token} {lexeme rest : List Char}
    (h : t.Lexeme lexeme) : WordEnds (lexeme ++ rest) ↔ t.isParen = true := by
  have hword : ∀ c cs, isWordChar c = true → ¬WordEnds (c :: cs ++ rest) := by
    intro c cs hc hends
    have hnot : isWordChar c = false := hends c (by simp)
    rw [hc] at hnot
    exact Bool.noConfusion hnot
  cases h with
  | openParen => simp [WordEnds, isParen, isWordChar]
  | closeParen => simp [WordEnds, isParen, isWordChar]
  | @string inside _ => simpa [isParen] using hword '"' (inside ++ ['"']) (by decide)
  | integer nonempty all _ _ =>
      obtain ⟨c, cs, rfl⟩ := List.exists_cons_of_ne_nil nonempty
      simpa [isParen] using hword c cs (isWordChar_of_isDigit (all c (by simp)))
  | symbol h =>
      obtain ⟨c, cs, rfl⟩ := List.exists_cons_of_ne_nil h.nonempty
      simpa [isParen] using hword c cs (h.word c (by simp))

/-- The end of a word shows in what stands behind its lexeme: blanks, nothing at all, or a
parenthesis. -/
theorem wordEnds_words_iff {gap : List Char} (hgap : ∀ c ∈ gap, Text.isBlank c = true)
    (words : List Word) :
    WordEnds (gap ++ words.flatMap Word.text) ↔
      ∀ v ∈ words.head?, gap ≠ [] ∨ v.token.isParen = true := by
  rcases gap with _ | ⟨c, gap⟩
  · rcases words with _ | ⟨v, words⟩
    · simp [WordEnds]
    · rw [List.nil_append, List.flatMap_cons, Word.text, List.append_assoc,
        v.lexeme_of.wordEnds_append_iff]
      simp
  · have hends : WordEnds (c :: (gap ++ words.flatMap Word.text)) :=
      wordEnds_of_blank (hgap c (by simp))
    simp [hends]

/-! ## Rows of words -/

/-- A row of words, behind some blanks, spells its tokens. -/
theorem spells_words {lead : List Char} (hlead : ∀ c ∈ lead, Text.isBlank c = true)
    {words : List Word} (hwords : words.IsChain Word.Before) :
    Spells (lead ++ words.flatMap Word.text) (words.map Word.token) := by
  -- the blanks behind a word are those in front of the rest
  induction words generalizing lead with
  | nil =>
      rw [List.flatMap_nil, List.append_nil]
      exact .nil hlead
  | cons w words ih =>
      obtain ⟨hbefore, hrest⟩ := List.isChain_cons.mp hwords
      have hparted : w.token.closesItself = true ∨ WordEnds (w.gap ++ words.flatMap Word.text) := by
        rw [or_iff_not_imp_left, wordEnds_words_iff w.blank]
        intro hopen v hv
        rcases hbefore v hv with hgap | hcloses | hparen
        · exact Or.inl hgap
        · exact absurd hcloses hopen
        · exact Or.inr hparen
      have htail : Spells (w.gap ++ words.flatMap Word.text) (words.map Word.token) :=
        ih w.blank hrest
      have hspells := Spells.cons hlead w.lexeme_of hparted htail
      simpa [Word.text] using hspells

/-- A text that spells some tokens is a row of words, behind some blanks. -/
theorem Spells.exists_words {text : List Char} {ts : List Token} (h : Spells text ts) :
    ∃ (lead : List Char) (words : List Word), (∀ c ∈ lead, Text.isBlank c = true) ∧
      words.map Word.token = ts ∧ words.IsChain Word.Before ∧
      text = lead ++ words.flatMap Word.text := by
  induction h with
  | @nil gap blank =>
      refine ⟨gap, [], blank, rfl, .nil, ?_⟩
      simp
  | @cons gap lexeme rest t ts blank lexeme_of parted tail ih =>
      obtain ⟨lead, words, hlead, rfl, hwords, rfl⟩ := ih
      let w : Word := { token := t, lexeme, gap := lead, lexeme_of, blank := hlead }
      refine ⟨gap, w :: words, blank, rfl, List.isChain_cons.mpr ⟨?_, hwords⟩, ?_⟩
      · intro v hv
        rcases parted with hcloses | hends
        · exact Or.inr (Or.inl hcloses)
        · rcases (wordEnds_words_iff hlead words).mp hends v hv with hgap | hparen
          · exact Or.inl hgap
          · exact Or.inr (Or.inr hparen)
      · simp [w, Word.text]

/-- The lexer accepts exactly the texts that are laid out as words: some blanks, then the lexemes of
the tokens in order, with blanks behind each of them, of which there may be none between two words
only behind a token that closes itself or in front of a parenthesis. -/
theorem tokenize_eq_ok_iff_words (source : String) (ts : List Token) :
    tokenize source = .ok ts ↔
      ∃ (lead : List Char) (words : List Word), (∀ c ∈ lead, Text.isBlank c = true) ∧
        words.map Word.token = ts ∧ words.IsChain Word.Before ∧
        source.toList = lead ++ words.flatMap Word.text := by
  rw [tokenize_eq_ok_iff]
  constructor
  · intro h
    exact h.exists_words
  · rintro ⟨lead, words, hlead, rfl, hwords, hsource⟩
    rw [hsource]
    exact spells_words hlead hwords

end MiniLisp
