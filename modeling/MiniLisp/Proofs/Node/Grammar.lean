/-
# MiniLisp.Proofs.Node.Grammar — the trees that have a text.

`Node.Expression` and `Node.Statement` are the trees a program's text can stand for: constants and
names that the lexer can hand over, calls of such expressions, and definitions, which occur as
statements only.  `Node.tokens` is the one row of tokens that stands for a tree, and `Node.nesting`
the number of lists that are open at once where it is deepest.
-/
import MiniLisp.Node.Reader
import MiniLisp.Proofs.Token.Spelling

namespace MiniLisp

/-! ## Constants and names -/

/-- A constant that can be written: a number in range and without a sign, or a text without a double
quote. -/
def Token.IsLiteral : Token → Prop
  | .integer n => 0 ≤ n ∧ n ≤ maxInt
  | .string text => '"' ∉ text.toList
  | _ => False

instance : DecidablePred Token.IsLiteral
  | .integer n => inferInstanceAs (Decidable (0 ≤ n ∧ n ≤ maxInt))
  | .string text => inferInstanceAs (Decidable ('"' ∉ text.toList))
  | .openParen | .closeParen | .symbol _ | .foreign _ _ => inferInstanceAs (Decidable False)

/-- A name that can be written. -/
def IsName (name : String) : Prop := SymbolText name.toList

instance : DecidablePred IsName := fun name => inferInstanceAs (Decidable (SymbolText name.toList))

/-- A number is spelled by its decimal digits. -/
theorem lexeme_integer {n : Int} (h₀ : 0 ≤ n) (h₁ : n ≤ maxInt) :
    (Token.integer n).Lexeme (toString n).toList := by
  obtain ⟨k, rfl⟩ := Int.eq_ofNat_of_zero_le h₀
  have hlist : (toString (k : Int)).toList = Nat.toDigits 10 k := Nat.toList_repr
  have hvalue : Text.digitsValue (Nat.toDigits 10 k) = k :=
    Nat.ofDigitChars_eq_foldl.symm.trans Nat.ofDigitChars_ten_toDigits
  have hall : ∀ c ∈ Nat.toDigits 10 k, Text.isDigit c = true := by
    intro c hc
    have hdigit := Nat.isDigit_of_mem_toDigits (by decide) (by decide) hc
    simpa [Char.isDigit, Text.isDigit, Char.le_def] using hdigit
  have hshort : (Nat.toDigits 10 k).length ≤ 19 := by
    rw [Nat.length_toDigits_le_iff (by decide) (by decide)]
    unfold maxInt at h₁
    omega
  have hlex := Token.Lexeme.integer Nat.toDigits_ne_nil hall
    (hshort.trans (by decide)) (by rw [hvalue]; exact h₁)
  rw [hvalue] at hlex
  rw [hlist]
  exact hlex

/-- A constant that can be written is spelled as it is printed. -/
theorem Token.IsLiteral.lexeme {t : Token} (h : t.IsLiteral) : t.Lexeme t.spelling.toList := by
  match t, h with
  | .integer n, ⟨h₀, h₁⟩ => exact lexeme_integer h₀ h₁
  | .string text, h =>
      have hlex := Token.Lexeme.string h
      rw [String.ofList_toList] at hlex
      simpa [Token.spelling] using hlex

theorem IsName.lexeme {x : String} (h : IsName x) : (Token.symbol x).Lexeme x.toList := by
  simpa using Token.Lexeme.symbol h

/-- A symbol's name can be written. -/
theorem Token.Lexeme.isName {x : String} {lexeme : List Char} (h : (Token.symbol x).Lexeme lexeme) :
    IsName x := by
  cases h with
  | symbol h => simpa [IsName] using h

/-! ## Expressions, statements, programs -/

namespace Node

/-- An expression that can be written. -/
inductive Expression : Node → Prop
  | literal {t : Token} (h : t.IsLiteral) : Expression (.literal t)
  | identifier {x : String} (h : IsName x) : Expression (.identifier x)
  | call {ns : List Node} (h : ∀ n ∈ ns, Expression n) : Expression (.call ns)

/-- Whether a tree is a call that begins like a definition. -/
def startsDefinition : Node → Bool
  | .call (.identifier x :: _) => x = definitionKeyword
  | _ => false

theorem children_of_startsDefinition {ns : List Node} (h : (call ns).startsDefinition = true) :
    ∃ operands, ns = .identifier definitionKeyword :: operands := by
  unfold startsDefinition at h
  split at h
  · next heq =>
      cases heq
      exact ⟨_, by rw [of_decide_eq_true h]⟩
  · cases h

/-- A statement that can be written.  A call that begins like a definition is none. -/
inductive Statement : Node → Prop
  | expression {n : Node} (h : n.Expression) (plain : n.startsDefinition = false) : Statement n
  | definition {name : String} {params : List String} {body : List Node} (name_ok : IsName name)
      (params_ok : ∀ p ∈ params, IsName p) (body_ok : ∀ n ∈ body, n.Expression) :
      Statement (.definition name params body)

/-- A program that can be written. -/
def WellFormed : Node → Prop
  | .program ns => ∀ n ∈ ns, n.Statement
  | _ => False

/-! Whether a tree can be written is decided by looking at it. -/

mutual

instance decidableExpression : (n : Node) → Decidable n.Expression
  | .literal t => decidable_of_iff t.IsLiteral ⟨.literal, fun | .literal h => h⟩
  | .identifier x => decidable_of_iff (IsName x) ⟨.identifier, fun | .identifier h => h⟩
  | .call ns =>
    have := decidableExpressions ns
    decidable_of_iff (∀ n ∈ ns, n.Expression) ⟨.call, fun | .call h => h⟩
  | .definition _ _ _ => .isFalse nofun
  | .program _ => .isFalse nofun
  | .bare _ => .isFalse nofun

instance decidableExpressions : (ns : List Node) → Decidable (∀ n ∈ ns, n.Expression)
  | [] => .isTrue (by simp)
  | n :: ns =>
    have := decidableExpression n
    have := decidableExpressions ns
    decidable_of_iff (n.Expression ∧ ∀ m ∈ ns, m.Expression) List.forall_mem_cons.symm

end

instance : DecidablePred Statement
  | .definition name params body =>
    decidable_of_iff (IsName name ∧ (∀ p ∈ params, IsName p) ∧ ∀ n ∈ body, n.Expression)
      ⟨fun h => .definition h.1 h.2.1 h.2.2, fun | .definition h₁ h₂ h₃ => ⟨h₁, h₂, h₃⟩⟩
  | .call ns =>
    decidable_of_iff ((Node.call ns).Expression ∧ (Node.call ns).startsDefinition = false)
      ⟨fun h => .expression h.1 h.2, fun | .expression h plain => ⟨h, plain⟩⟩
  | .literal t =>
    decidable_of_iff (Node.literal t).Expression
      ⟨fun h => .expression h rfl, fun | .expression h _ => h⟩
  | .identifier x =>
    decidable_of_iff (Node.identifier x).Expression
      ⟨fun h => .expression h rfl, fun | .expression h _ => h⟩
  | .program _ => .isFalse fun | .expression h _ => nomatch h
  | .bare _ => .isFalse fun | .expression h _ => nomatch h

instance : DecidablePred WellFormed
  | .program ns => inferInstanceAs (Decidable (∀ n ∈ ns, n.Statement))
  | .literal _ | .identifier _ | .call _ | .definition _ _ _ | .bare _ =>
    inferInstanceAs (Decidable False)

/-- The node of a token is an expression, unless the token is a parenthesis. -/
theorem expression_atom {t : Token} {lexeme : List Char} (h : t.Lexeme lexeme)
    (hopen : t ≠ .openParen) (hclose : t ≠ .closeParen) : (Reader.atom t).Expression := by
  cases h with
  | openParen => exact absurd rfl hopen
  | closeParen => exact absurd rfl hclose
  | string h => exact .literal (by simpa [Token.IsLiteral] using h)
  | integer _ _ _ small => exact .literal ⟨Int.natCast_nonneg _, small⟩
  | symbol h => exact .identifier (by simpa [IsName] using h)

/-! ## Tokens -/

mutual

/-- The tokens of a tree. -/
def tokens : Node → List Token
  | .literal t => [t]
  | .identifier x => [.symbol x]
  | .call children => .openParen :: tokensAll children ++ [.closeParen]
  | .definition name params body =>
    .openParen :: .symbol definitionKeyword :: .symbol name :: .openParen ::
      (params.map .symbol ++ .closeParen :: tokensAll body ++ [.closeParen])
  | .program statements => tokensAll statements
  | .bare t => [t]

/-- The tokens of each tree in turn. -/
def tokensAll : List Node → List Token
  | [] => []
  | n :: ns => n.tokens ++ tokensAll ns

end

theorem tokensAll_append (ns ms : List Node) :
    tokensAll (ns ++ ms) = tokensAll ns ++ tokensAll ms := by
  induction ns with
  | nil => rfl
  | cons n ns ih => simp only [List.cons_append, tokensAll, ih, List.append_assoc]

/-- The rows of tokens of some trees, in one row. -/
theorem tokensAll_eq_flatten (ns : List Node) : tokensAll ns = (ns.map tokens).flatten := by
  induction ns with
  | nil => rfl
  | cons n ns ih => rw [tokensAll, ih, List.map_cons, List.flatten_cons]

theorem tokensAll_singleton (n : Node) : tokensAll [n] = n.tokens := by
  simp [tokensAll]

theorem Statement.ne_program {n : Node} (h : n.Statement) (ns : List Node) : n ≠ .program ns := by
  rintro rfl
  cases h with | expression h _ => cases h

theorem Statement.exists_tokens_cons {n : Node} (h : n.Statement) :
    ∃ t ts, n.tokens = t :: ts := by
  cases h with
  | expression h _ =>
      cases h with
      | literal _ => exact ⟨_, _, rfl⟩
      | identifier _ => exact ⟨_, _, rfl⟩
      | call _ => exact ⟨_, _, rfl⟩
  | definition _ _ _ => exact ⟨_, _, rfl⟩

/-! ## Nesting -/

mutual

/-- How many lists are open at once in the text of a tree. -/
def nesting : Node → Nat
  | .call children => nestingAll children + 1
  | .definition _ _ body => max 1 (nestingAll body) + 1
  | .program statements => nestingAll statements
  | _ => 0

/-- How many lists are open at once in the texts of some trees. -/
def nestingAll : List Node → Nat
  | [] => 0
  | n :: ns => max n.nesting (nestingAll ns)

end

theorem nestingAll_append (ns ms : List Node) :
    nestingAll (ns ++ ms) = max (nestingAll ns) (nestingAll ms) := by
  induction ns with
  | nil => simp [nestingAll]
  | cons n ns ih => rw [List.cons_append, nestingAll, nestingAll, ih, Nat.max_assoc]

end Node

end MiniLisp
