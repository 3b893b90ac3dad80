/-
# MiniLisp.Proofs.Token.Location — where a lexical error is.

Places in a text come in the order of the text: with every character a place moves on, in its line
or to the next one, and so no two offsets have one place.  A lexical error has the place of the
lexeme that is no token.  The text in front of this lexeme stands by itself: cut off there, it is
tokenized to the tokens that came before the error.
-/
import Mathlib.Data.Prod.Lex
import Mathlib.Order.Monotone.Basic
import MiniLisp.Proofs.Token.Faults

namespace MiniLisp

/-! ## Places in a text -/

namespace Text

/-- Places in the order of a text: by lines, and in a line by columns. -/
def Position.inOrder (p : Position) : ℕ ×ₗ ℕ := toLex (p.line, p.column)

theorem lastLineLength_concat (text : List Char) (c : Char) :
    lastLineLength (text ++ [c]) = if c = '\n' then 0 else lastLineLength text + 1 := by
  by_cases h : c = '\n' <;> simp [lastLineLength, h]

/-- Behind a line feed a line begins, and any other character takes a column, also behind the end of
the text. -/
theorem position_succ (text : List Char) (offset : Nat) :
    position text (offset + 1) =
      if text[offset]? = some '\n' then ⟨(position text offset).line + 1, 1⟩
      else ⟨(position text offset).line, (position text offset).column + 1⟩ := by
  unfold position
  cases hc : text[offset]? with
  | none =>
      have hlength : text.length ≤ offset := List.getElem?_eq_none_iff.mp hc
      simp only [List.take_of_length_le hlength, List.take_of_length_le (Nat.le_succ_of_le hlength)]
      simp
      omega
  | some c =>
      obtain ⟨hlt, -⟩ := List.getElem?_eq_some_iff.mp hc
      have hbefore : text.take (offset + 1) = text.take offset ++ [c] := by
        rw [List.take_add_one, hc, Option.toList_some]
      have hlength : (text.take offset).length = offset := by simp; omega
      simp only [hbefore, List.count_append, lastLineLength_concat, List.length_append, hlength]
      by_cases h : c = '\n' <;> simp [h]

/-- A later offset has a later place. -/
theorem position_strictMono (text : List Char) :
    StrictMono fun offset => (position text offset).inOrder := by
  refine strictMono_nat_of_lt_succ fun offset => ?_
  rw [position_succ, Position.inOrder, Position.inOrder, Prod.Lex.toLex_lt_toLex]
  split
  · exact .inl (Nat.lt_succ_self _)
  · exact .inr ⟨rfl, Nat.lt_succ_self _⟩

/-- Two offsets never have one place. -/
theorem position_injective (text : List Char) : Function.Injective (position text) := by
  intro p q h
  exact (position_strictMono text).injective (congrArg Position.inOrder h)

/-- The place behind the first part of a text is that of its length. -/
theorem position_append (front rest : List Char) :
    position (front ++ rest) front.length = placeAfter front := by
  simp [position, placeAfter]

end Text

/-! ## Texts cut short -/

section

variable {cause : LexFault} {text bad front rest : List Char} {ts : List Token}

/-- A word that ends in front of a text ends in front of its beginning. -/
theorem WordEnds.of_append (h : WordEnds (front ++ rest)) : WordEnds front := by
  cases front with
  | nil => simp [WordEnds]
  | cons c front => exact h

/-- In front of the place where a text breaks the tokens are spelled as if the text ended there. -/
theorem Breaks.exists_front (h : Breaks cause bad text ts) :
    ∃ front, text = front ++ bad ∧ Spells front ts := by
  induction h with
  | @here gap blank _ => exact ⟨gap, rfl, .nil blank⟩
  | @cons gap lexeme _ t ts blank lexeme_of parted _ ih =>
      obtain ⟨front, rfl, hfront⟩ := ih
      refine ⟨gap ++ lexeme ++ front, by simp, ?_⟩
      exact .cons blank lexeme_of (parted.imp_right WordEnds.of_append) hfront

/-- What breaks a text begins with a bad lexeme. -/
theorem Breaks.badLexeme (h : Breaks cause bad text ts) : BadLexeme cause bad := by
  induction h with
  | here _ hbad => exact hbad
  | cons _ _ _ _ ih => exact ih

end

/-! ## Lexical errors -/

/-- A lexical error is located exactly.  Places in a text are in strict order, by lines and then by
columns, at all offsets, also behind its end.  So if a text is not tokenized, there is one offset
with the place of the error.  The tokens in front of the error are those of the text cut off there,
and what the text goes on with is the bad lexeme that the error tells of: a double quote without a
partner, digits up to another character of a word, or all digits of a number that is out of range.
-/
theorem lexical_errors_located (source : String) :
    (StrictMono fun offset => (Text.position source.toList offset).inOrder) ∧
    ∀ e, tokenize source = .error e → ∃ offset,
      (∀ p, Text.position source.toList p = e.position ↔ p = offset) ∧
      (∃ ts, (TokenStream.ofText source).future = (ts, some e) ∧
        tokenize (String.ofList (source.toList.take offset)) = .ok ts) ∧
      BadLexeme e.fault (source.toList.drop offset) := by
  refine ⟨Text.position_strictMono source.toList, fun e he => ?_⟩
  obtain ⟨ts, front, bad, hsource, hbreaks, hposition⟩ := tokenize_eq_error_iff.mp he
  obtain ⟨front', hsource', hspells⟩ := hbreaks.exists_front
  obtain rfl : front = front' := List.append_cancel_right (hsource.symm.trans hsource')
  have hplace : e.position = Text.position source.toList front.length := by
    rw [hposition, hsource, Text.position_append]
  have hlexed : lexed source.toList source.toList = (ts, some e) := by
    refine lexed_eq_some_iff.mpr ⟨bad, hbreaks, ?_⟩
    rw [hposition, hsource, locate_append]
  refine ⟨front.length, fun p => ?_, ⟨ts, hlexed, ?_⟩, ?_⟩
  · rw [hplace]
    exact (Text.position_injective source.toList).eq_iff
  · rw [tokenize_eq_ok_iff, String.toList_ofList, hsource, List.take_left']
    · exact hspells
    · rfl
  · rw [hsource, List.drop_left' rfl]
    exact hbreaks.badLexeme

/-- The error of a text whose second line holds the end of a string and digits that run into a
letter. -/
def gluedDigits : LexError := ⟨.malformedInteger "12z", ⟨2, 3⟩⟩

theorem lexical_errors_located_gluedDigits :
    tokenize "\"x\ny\"12z" = .error gluedDigits ∧
      (∀ p, Text.position "\"x\ny\"12z".toList p = ⟨2, 3⟩ ↔ p = 5) ∧
      tokenize "\"x\ny\"" = .ok [.string "x\ny"] := by
  have hstring : scan "\"x\ny\"12z".toList = .token (.string "x\ny") ['1', '2', 'z'] := rfl
  have hdigits : scan ['1', '2', 'z'] = .fault (.malformedInteger "12z") 3 := rfl
  have hlexed : lexed "\"x\ny\"12z".toList "\"x\ny\"12z".toList =
      ([.string "x\ny"], some gluedDigits) := by
    rw [lexed_token hstring, lexed_fault hdigits]
    rfl
  have herror : tokenize "\"x\ny\"12z" = .error gluedDigits := by
    rw [tokenize, tokensFrom_eq, hlexed]
    rfl
  obtain ⟨-, hlocated⟩ := lexical_errors_located "\"x\ny\"12z"
  obtain ⟨offset, hoffset, ⟨ts, hfuture, htokens⟩, -⟩ := hlocated gluedDigits herror
  -- the place itself says which offset this is
  obtain rfl : 5 = offset := (hoffset 5).mp rfl
  obtain ⟨rfl, -⟩ := Prod.mk.inj (hlexed.symm.trans hfuture)
  exact ⟨herror, hoffset, htokens⟩

end MiniLisp
