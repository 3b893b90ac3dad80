/-
# MiniLisp.Proofs.Node.Printing — what the printers write.

Both printers write a tree's own tokens: `Node.format` on one line, `Node.layout` on as many lines as
it takes, whatever the width and the depth.  Layout chooses gaps only.
-/
import MiniLisp.Node.Printer
import MiniLisp.Proofs.Node.Grammar

namespace MiniLisp.Node

/-! ## One line -/

/-- The texts of some trees are a row of pieces if each of them is a piece. -/
theorem pieces_formatAll {ns : List Node} (h : ∀ n ∈ ns, Piece n.format n.tokens) :
    Pieces (formatAll ns) (tokensAll ns) := by
  induction ns with
  | nil => exact .nil
  | cons n ns ih => exact .cons (h n (by simp)) (ih fun m hm => h m (by simp [hm]))

/-- An expression on one line spells its tokens. -/
theorem Expression.piece_format {n : Node} (h : n.Expression) : Piece n.format n.tokens := by
  induction h with
  | literal h => exact .token h.lexeme
  | identifier h => exact .token h.lexeme
  | call _ ih => exact (pieces_formatAll ih).parenthesized

theorem isName_definitionKeyword : IsName definitionKeyword := by decide

section Definitions

variable {name : String} {params : List String} {body : List Node}

/-- The head of a definition spells the tokens in front of its body. -/
theorem piece_definitionHead (hname : IsName name) (hparams : ∀ p ∈ params, IsName p) :
    Piece (definitionHead name params) (.openParen :: .symbol definitionKeyword :: .symbol name ::
      .openParen :: (params.map .symbol ++ [.closeParen])) := by
  have hkeyword : Piece definitionKeyword [.symbol definitionKeyword] :=
    .token isName_definitionKeyword.lexeme
  have hpiece := ((hkeyword.append isGap_space (.token hname.lexeme)).append isGap_space
    (pieces_names hparams).parenthesized).openParen
  simpa [definitionHead, String.append_assoc] using hpiece

/-- A definition on one line spells its tokens. -/
theorem piece_format_definition (hname : IsName name) (hparams : ∀ p ∈ params, IsName p)
    (hbody : ∀ n ∈ body, n.Expression) :
    Piece (Node.definition name params body).format
      (Node.definition name params body).tokens := by
  have hrow : Pieces (formatAll body) (tokensAll body) :=
    pieces_formatAll fun n hn => (hbody n hn).piece_format
  have hpieces := Pieces.cons (.token isName_definitionKeyword.lexeme)
    (.cons (.token hname.lexeme) (.cons (pieces_names hparams).parenthesized hrow))
  simpa [format, tokens] using hpieces.parenthesized

end Definitions

/-- A statement on one line spells its tokens. -/
theorem Statement.piece_format {n : Node} (h : n.Statement) : Piece n.format n.tokens := by
  cases h with
  | expression h _ => exact h.piece_format
  | definition hname hparams hbody => exact piece_format_definition hname hparams hbody

/-! ## Lines of limited width -/

variable {width : Int}

/-- The margin is made of spaces. -/
theorem eq_space_of_mem_margin {depth : Int} {c : Char} (h : c ∈ (margin depth).toList) :
    c = ' ' := by
  rw [margin, String.toList_ofList] at h
  exact List.eq_of_mem_replicate h

/-- The margin is blank. -/
theorem isBlank_of_mem_margin {depth : Int} :
    ∀ c ∈ (margin depth).toList, Text.isBlank c = true := by
  intro c hc
  rw [eq_space_of_mem_margin hc]
  decide

/-- A broken node spells the tokens of its head and of its parts, and a closing parenthesis. -/
theorem piece_broken {depth : Int} {head : String} {parts : List String} {ts us : List Token}
    (hhead : Piece head ts) (hparts : Pieces parts us) :
    Piece (broken depth head parts) (ts ++ us ++ [.closeParen]) := by
  -- a margin makes the gap in front of its part wider
  have hmargins : Pieces (parts.map (margin depth ++ ·)) us := by
    induction hparts with
    | nil => exact .nil
    | cons hpart _ ih => exact .cons (hpart.blanks isBlank_of_mem_margin) ih
  exact ((Pieces.cons hhead hmargins).intercalate isGap_newline).closeParen

/-- The layouts of some trees are a row of pieces if each of them is a piece. -/
theorem pieces_layoutAll {depth : Int} {ns : List Node}
    (h : ∀ n ∈ ns, Piece (n.layout width depth) n.tokens) :
    Pieces (layoutAll width depth ns) (tokensAll ns) := by
  induction ns with
  | nil => exact .nil
  | cons n ns ih => exact .cons (h n (by simp)) (ih fun m hm => h m (by simp [hm]))

/-- An expression spells its tokens in every layout. -/
theorem Expression.piece_layout {n : Node} (h : n.Expression) (depth : Int) :
    Piece (n.layout width depth) n.tokens := by
  -- for all depths at once, since the parts of a broken call stand one deeper than the call
  induction h generalizing depth with
  | literal h => exact .token h.lexeme
  | identifier h => exact .token h.lexeme
  | @call ns h ih =>
      cases ns with
      | nil => exact (Expression.call h).piece_format
      | cons head operands =>
          rw [layout]
          split
          · exact (Expression.call h).piece_format
          · have hhead := (ih head (by simp) (depth + 1)).openParen
            have hrow : Pieces (layoutAll width (depth + 1) operands) (tokensAll operands) :=
              pieces_layoutAll fun m hm => ih m (by simp [hm]) (depth + 1)
            exact piece_broken hhead hrow

/-- A statement spells its tokens in every layout. -/
theorem Statement.piece_layout {n : Node} (h : n.Statement) (depth : Int) :
    Piece (n.layout width depth) n.tokens := by
  cases h with
  | expression h _ => exact h.piece_layout depth
  | @definition name params body hname hparams hbody =>
      rw [layout]
      split
      · exact piece_format_definition hname hparams hbody
      · have hrow : Pieces (layoutAll width (depth + 1) body) (tokensAll body) :=
          pieces_layoutAll fun n hn => (hbody n hn).piece_layout (depth + 1)
        have hpiece : Piece (broken depth _ _) _ :=
          piece_broken (piece_definitionHead hname hparams) hrow
        simpa [tokens] using hpiece

/-! ## Programs -/

/-- A program on a line for each statement spells its tokens. -/
theorem WellFormed.spells_format {n : Node} (h : n.WellFormed) :
    Spells n.format.toList n.tokens := by
  match n, h with
  | .program ns, h =>
      have hrow : Pieces (formatAll ns) (tokensAll ns) :=
        pieces_formatAll fun n hn => (h n hn).piece_format
      rw [format, tokens]
      exact (hrow.intercalate isGap_newline).spells

/-- A program spells its tokens in every layout. -/
theorem WellFormed.spells_layout {n : Node} (h : n.WellFormed) (depth : Int) :
    Spells (n.layout width depth).toList n.tokens := by
  match n, h with
  | .program ns, h =>
      have hrow : Pieces (layoutAll width depth ns) (tokensAll ns) :=
        pieces_layoutAll fun n hn => (h n hn).piece_layout depth
      rw [layout, tokens]
      exact (hrow.intercalate isGap_newline).spells

end MiniLisp.Node
