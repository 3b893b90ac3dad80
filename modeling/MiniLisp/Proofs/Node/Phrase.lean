/-
# MiniLisp.Proofs.Node.Phrase — the grammar of a program, token by token.

    statement  := expression | definition
    definition := "(" "defun" symbol "(" symbol* ")" expression* ")"
    expression := integer | string | symbol | "(" expression* ")"

A phrase is a row of tokens that the grammar allows, told without a word about trees, streams or
room.  An expression that begins like a definition is no statement, so that no row is read in two
ways.  `parse_reads_phrases` says that the reader accepts the texts whose tokens are a row of
statements, and no others, and that its trees hold just these tokens.
-/
import Mathlib.Data.List.Forall2
import MiniLisp.Proofs.Node.RoundTrip

namespace MiniLisp

open Node (tokensAll nestingAll)

/-! ## Phrases -/

namespace Phrase

/-- A row of tokens that is an expression. -/
inductive Expression : List Token → Prop
  | integer (n : Int) : Expression [.integer n]
  | string (text : String) : Expression [.string text]
  | symbol (x : String) : Expression [.symbol x]
  | list {parts : List (List Token)} (h : ∀ part ∈ parts, Expression part) :
      Expression (.openParen :: parts.flatten ++ [.closeParen])

/-- A row of tokens that is a definition. -/
inductive Definition : List Token → Prop
  | intro (name : String) (params : List String) {parts : List (List Token)}
      (h : ∀ part ∈ parts, Expression part) :
      Definition (.openParen :: .symbol Node.definitionKeyword :: .symbol name :: .openParen ::
        (params.map .symbol ++ .closeParen :: parts.flatten ++ [.closeParen]))

/-- The row has an open parenthesis and the definition keyword in front. -/
def BeginsDefinition (row : List Token) : Prop :=
  [.openParen, .symbol Node.definitionKeyword] <+: row

/-- A row of tokens that is a statement. -/
inductive Statement : List Token → Prop
  | expression {row : List Token} (h : Expression row) (plain : ¬BeginsDefinition row) :
      Statement row
  | definition {row : List Token} (h : Definition row) : Statement row

/-- The tokens of a text are these statements, one after the other. -/
def Splits (source : String) (rows : List (List Token)) : Prop :=
  tokenize source = .ok rows.flatten ∧ ∀ row ∈ rows, Statement row

theorem Definition.begins {row : List Token} (h : Definition row) : BeginsDefinition row := by
  obtain ⟨name, params, _⟩ := h
  exact ⟨_, rfl⟩

end Phrase

/-! ## The phrases of trees -/

namespace Node

/-- A definition, not an expression. -/
def IsDefinition (n : Node) : Prop := ∃ name params body, n = .definition name params body

/-- The tokens of an expression are a phrase. -/
theorem Expression.phrase {n : Node} (h : n.Expression) : Phrase.Expression n.tokens := by
  induction h with
  | @literal t h =>
      cases t with
      | integer k => exact .integer k
      | string text => exact .string text
      | _ => exact h.elim
  | @identifier x _ => exact .symbol x
  | @call ns _ ih =>
      rw [tokens, tokensAll_eq_flatten]
      refine .list fun part hpart => ?_
      obtain ⟨n, hn, rfl⟩ := List.mem_map.mp hpart
      exact ih n hn

/-- A call begins like a definition if its tokens do. -/
theorem Expression.startsDefinition_iff {n : Node} (h : n.Expression) :
    n.startsDefinition = true ↔ Phrase.BeginsDefinition n.tokens := by
  constructor
  · intro hstarts
    cases h with
    | literal _ => cases hstarts
    | identifier _ => cases hstarts
    | call _ =>
        obtain ⟨operands, rfl⟩ := children_of_startsDefinition hstarts
        exact ⟨tokensAll operands ++ [.closeParen], rfl⟩
  · rintro ⟨us, hus⟩
    cases h with
    | @literal t ht =>
        obtain ⟨rfl, -⟩ := List.cons.inj hus
        exact ht.elim
    | identifier _ =>
        obtain ⟨hopen, -⟩ := List.cons.inj hus
        cases hopen
    | @call ns hns =>
        obtain ⟨-, hkeyword⟩ := List.cons.inj hus
        by_contra hplain
        rw [Bool.not_eq_true] at hplain
        have hhead : (tokensAll ns ++ [Token.closeParen]).head? ≠
            some (.symbol definitionKeyword) := Reader.not_keyword_of_plain hplain hns
        exact hhead (congrArg List.head? hkeyword.symm)

theorem Statement.phrase {n : Node} (h : n.Statement) : Phrase.Statement n.tokens := by
  cases h with
  | expression h plain =>
      refine .expression h.phrase fun hbegins => ?_
      rw [h.startsDefinition_iff.mpr hbegins] at plain
      cases plain
  | @definition name params body _ _ hbody =>
      rw [tokens, tokensAll_eq_flatten]
      refine .definition (.intro name params fun part hpart => ?_)
      obtain ⟨n, hn, rfl⟩ := List.mem_map.mp hpart
      exact (hbody n hn).phrase

/-- Statements that are definitions have the tokens of one. -/
theorem Statement.isDefinition_iff {n : Node} (h : n.Statement) :
    n.IsDefinition ↔ Phrase.Definition n.tokens := by
  constructor
  · rintro ⟨name, params, body, rfl⟩
    cases h.phrase with
    | expression _ plain => exact absurd ⟨_, rfl⟩ plain
    | definition hphrase => exact hphrase
  · intro hphrase
    cases h with
    | expression h plain =>
        rw [h.startsDefinition_iff.mpr hphrase.begins] at plain
        cases plain
    | definition _ _ _ => exact ⟨_, _, _, rfl⟩

end Node

/-! ## The trees of phrases -/

namespace Phrase

/-- Tokens that the lexer can hand over. -/
def Lexical (row : List Token) : Prop := ∀ t ∈ row, ∃ lexeme, t.Lexeme lexeme

theorem Lexical.of_mem_flatten {rows : List (List Token)} (h : Lexical rows.flatten)
    {row : List Token} (hrow : row ∈ rows) : Lexical row := by
  intro t ht
  exact h t (List.mem_flatten.mpr ⟨row, hrow, ht⟩)

/-- The tokens of a text are such a row. -/
theorem Lexical.of_tokenize {source : String} {row : List Token} (h : tokenize source = .ok row) :
    Lexical row := by
  have hlexed : lexed source.toList source.toList = (row, none) :=
    (tokenize_eq_ok_iff.mp h).lexed_eq
  have hall := @exists_lexeme_of_mem_lexed source.toList source.toList
  rwa [hlexed] at hall

/-- Rows that have a tree each are the tokens of a row of trees. -/
theorem exists_nodes {P : Node → Prop} {rows : List (List Token)}
    (h : ∀ row ∈ rows, ∃ n, P n ∧ n.tokens = row) :
    ∃ ns : List Node, (∀ n ∈ ns, P n) ∧ ns.map Node.tokens = rows := by
  induction rows with
  | nil => exact ⟨[], by simp, rfl⟩
  | cons row rows ih =>
      obtain ⟨n, hn, hrow⟩ := h row List.mem_cons_self
      obtain ⟨ns, hns, hrows⟩ := ih fun r hr => h r (List.mem_cons_of_mem row hr)
      refine ⟨n :: ns, List.forall_mem_cons.mpr ⟨hn, hns⟩, ?_⟩
      rw [List.map_cons, hrow, hrows]

/-- A phrase that can be written is the tokens of an expression. -/
theorem Expression.exists_node {row : List Token} (h : Expression row) (hlex : Lexical row) :
    ∃ n : Node, n.Expression ∧ n.tokens = row := by
  -- a token by itself is the node that the reader makes of it
  have hatom : ∀ t, Lexical [t] → t ≠ .openParen → t ≠ .closeParen →
      ∃ n : Node, n.Expression ∧ n.tokens = [t] := by
    intro t ht hopen hclose
    obtain ⟨lexeme, hl⟩ := ht t List.mem_cons_self
    exact ⟨Reader.atom t, Node.expression_atom hl hopen hclose, Reader.tokens_atom t⟩
  induction h with
  | integer n => exact hatom (.integer n) hlex (by simp) (by simp)
  | string text => exact hatom (.string text) hlex (by simp) (by simp)
  | symbol x => exact hatom (.symbol x) hlex (by simp) (by simp)
  | @list parts _ ih =>
      have hinside : Lexical parts.flatten := fun t ht => hlex t (by simp [ht])
      obtain ⟨ns, hns, rfl⟩ := exists_nodes fun part hpart =>
        ih part hpart (hinside.of_mem_flatten hpart)
      refine ⟨.call ns, .call hns, ?_⟩
      rw [Node.tokens, Node.tokensAll_eq_flatten]

/-- A phrase that can be written is the tokens of a statement. -/
theorem Statement.exists_node {row : List Token} (h : Statement row) (hlex : Lexical row) :
    ∃ n : Node, n.Statement ∧ n.tokens = row := by
  cases h with
  | expression h plain =>
      obtain ⟨n, hn, rfl⟩ := h.exists_node hlex
      refine ⟨n, .expression hn ?_, rfl⟩
      rwa [← hn.startsDefinition_iff, Bool.not_eq_true] at plain
  | definition h =>
      obtain @⟨name, params, parts, hparts⟩ := h
      have hname : ∀ x, (∃ lexeme, (Token.symbol x).Lexeme lexeme) → IsName x := by
        rintro x ⟨lexeme, hl⟩
        exact hl.isName
      have hinside : Lexical parts.flatten := fun t ht => hlex t (by simp [ht])
      obtain ⟨body, hbody, rfl⟩ := exists_nodes fun part hpart =>
        (hparts part hpart).exists_node (hinside.of_mem_flatten hpart)
      refine ⟨.definition name params body, .definition ?_ ?_ hbody, ?_⟩
      · exact hname name (hlex _ (by simp))
      · intro p hp
        exact hname p (hlex _ (by simp [hp]))
      · rw [Node.tokens, Node.tokensAll_eq_flatten]

/-! ## Texts that split into statements -/

/-- A text that splits into statements is read as one node for each of them. -/
theorem Splits.exists_nodes {source : String} {rows : List (List Token)} (h : Splits source rows) :
    ∃ ns : List Node, (∀ n ∈ ns, n.Statement) ∧ ns.map Node.tokens = rows ∧
      ∀ limit, Reader.parse limit source = Reader.readBack limit ns := by
  obtain ⟨htokens, hrows⟩ := h
  have hspells : Spells source.toList rows.flatten := tokenize_eq_ok_iff.mp htokens
  have hlex : Lexical rows.flatten := .of_tokenize htokens
  obtain ⟨ns, hns, rfl⟩ := Phrase.exists_nodes fun row hrow =>
    (hrows row hrow).exists_node (hlex.of_mem_flatten hrow)
  refine ⟨ns, hns, rfl, fun limit => Reader.parse_of_spells hns ?_⟩
  rwa [Node.tokensAll_eq_flatten]

/-- Whatever is read splits into the statements that are read. -/
theorem splits_of_parse {limit : Nat} {source : String} {ns : List Node}
    (h : Reader.parse limit source = .ok ns) : Splits source (ns.map Node.tokens) := by
  obtain ⟨hns, hlexed, -⟩ := Reader.parse_eq_ok_iff.mp h
  constructor
  · rw [tokenize_eq_ok_iff, ← Node.tokensAll_eq_flatten]
    exact lexed_eq_iff_spells.mp hlexed
  · intro row hrow
    obtain ⟨n, hn, rfl⟩ := List.mem_map.mp hrow
    exact (hns n hn).phrase

/-- A text splits in one way only. -/
theorem Splits.unique {source : String} {rows rows' : List (List Token)} (h : Splits source rows)
    (h' : Splits source rows') : rows = rows' := by
  -- with room for both, the reader can answer with only one of the two programs
  obtain ⟨ns, -, rfl, hread⟩ := h.exists_nodes
  obtain ⟨ms, -, rfl, hread'⟩ := h'.exists_nodes
  have hsame := hread (max (nestingAll ns) (nestingAll ms))
  rw [hread', Reader.readBack, Reader.readBack, if_pos (by omega), if_pos (by omega)] at hsame
  rw [Except.ok.inj hsame]

end Phrase

open Reader (parse readBack)

/-- The reader accepts its grammar and loses nothing.  A text is read, with room enough, exactly if
its tokens are statements one after the other.  Too little room is the only other reason not to read
such a text.  It splits into statements in one way, and of what is read there is a node for each of
them, in order and with its tokens, which is a definition where the statement is one.  So the text
printed for a program has the tokens that the program was read from. -/
theorem parse_reads_phrases (source : String) :
    ((∃ limit ns, parse limit source = .ok ns) ↔ ∃ rows, Phrase.Splits source rows) ∧
    (∀ rows, Phrase.Splits source rows → ∃ ns, ∀ limit, parse limit source = readBack limit ns) ∧
    (∀ rows rows', Phrase.Splits source rows → Phrase.Splits source rows' → rows = rows') ∧
    ∀ limit ns, parse limit source = .ok ns →
      (∃ rows, Phrase.Splits source rows ∧
        List.Forall₂ (fun row n => n.tokens = row ∧ (n.IsDefinition ↔ Phrase.Definition row))
          rows ns) ∧
      tokenize (Node.program ns).format = tokenize source := by
  refine ⟨⟨?_, ?_⟩, ?_, fun rows rows' => Phrase.Splits.unique, ?_⟩
  · rintro ⟨limit, ns, h⟩
    exact ⟨ns.map Node.tokens, Phrase.splits_of_parse h⟩
  · rintro ⟨rows, h⟩
    obtain ⟨ns, -, -, hread⟩ := h.exists_nodes
    exact ⟨nestingAll ns, ns, (hread _).trans (if_pos (Nat.le_refl _))⟩
  · intro rows h
    obtain ⟨ns, -, -, hread⟩ := h.exists_nodes
    exact ⟨ns, hread⟩
  · intro limit ns h
    obtain ⟨hns, -, -⟩ := Reader.parse_eq_ok_iff.mp h
    have hsplits := Phrase.splits_of_parse h
    refine ⟨⟨ns.map Node.tokens, hsplits, ?_⟩, ?_⟩
    · rw [List.forall₂_map_left_iff, List.forall₂_same]
      intro n hn
      exact ⟨rfl, (hns n hn).isDefinition_iff⟩
    · have hwellFormed : (Node.program ns).WellFormed := hns
      have hformat := tokenize_eq_ok_iff.mpr hwellFormed.spells_format
      rw [hformat, hsplits.1, Node.tokens, Node.tokensAll_eq_flatten]

/-- A program in which the definition keyword begins a definition, names a parameter, and is called
in a body. -/
def keywordNodes : List Node :=
  [.definition "f" ["defun"] [.call [.identifier "defun", .literal (.string "(")]],
    .identifier "a\"b", .literal (.integer 7)]

theorem parse_reads_phrases_keyword :
    let source := (Node.program keywordNodes).format
    (∃ rows, Phrase.Splits source rows) ∧
      (∃ ns, ∀ limit, parse limit source = readBack limit ns) ∧
      (∀ rows, Phrase.Splits source rows → rows = keywordNodes.map Node.tokens) ∧
      List.Forall₂ (fun row n => n.tokens = row ∧ (n.IsDefinition ↔ Phrase.Definition row))
        (keywordNodes.map Node.tokens) keywordNodes := by
  intro source
  obtain ⟨haccepts, hroom, hunique, hreads⟩ := parse_reads_phrases source
  have hwellFormed : (Node.program keywordNodes).WellFormed := by decide
  have hparse : parse 2 source = .ok keywordNodes :=
    (Reader.parse_of_spells hwellFormed hwellFormed.spells_format).trans (if_pos (by decide))
  have hsplits : Phrase.Splits source (keywordNodes.map Node.tokens) :=
    Phrase.splits_of_parse hparse
  obtain ⟨⟨rows, hrows, hnodes⟩, -⟩ := hreads 2 keywordNodes hparse
  obtain rfl : rows = keywordNodes.map Node.tokens := hunique rows _ hrows hsplits
  exact ⟨haccepts.mp ⟨2, keywordNodes, hparse⟩, hroom _ hsplits,
    fun rows' hrows' => hunique rows' _ hrows' hsplits, hnodes⟩

end MiniLisp
