/-
# MiniLisp.Node.Reader — from tokens to trees.

    program    := statement*
    statement  := definition | expression
    definition := "(" "defun" symbol "(" symbol* ")" expression* ")"
    expression := integer | string | symbol | "(" expression* ")"

A definition is recognised only where a statement may begin; anywhere else its keyword is a symbol
like any other.  The reader takes one token at a time and keeps the lists it has not finished on a
stack, so the depth of a text costs no recursion; a bound on the number of open lists stands for
the room that nesting may take.  Every function answers with the stream as the last token left it,
also when it fails.
-/
import MiniLisp.Token.Stream
import MiniLisp.Node

namespace MiniLisp

/-! ## Reading errors -/

/-- Why a tree cannot be read. -/
inductive ReadError where
  | lexical (e : LexError)
  /-- The tokens ran out where one was needed. -/
  | noToken
  /-- A closing parenthesis where an expression should begin. -/
  | unexpectedClose
  | unclosedCall
  /-- A definition whose name is no symbol. -/
  | definitionName (found : Token)
  /-- A definition without a parameter list. -/
  | parameterList (name : String) (found : Token)
  /-- A parameter that is no symbol. -/
  | parameter (name : String) (found : Token)
  | unclosedDefinition (name : String)
  /-- More lists are open at once than there is room for. -/
  | tooDeep
deriving DecidableEq, Repr

namespace Reader

/-! ## Unfinished lists -/

/-- What an open parenthesis began. -/
inductive Opening where
  | call
  /-- A definition whose head has been read. -/
  | definition (name : String) (params : List String)

/-- The finished list. -/
def Opening.close : Opening → List Node → Node
  | .call, children => .call children
  | .definition name params, body => .definition name params body

/-- The error when the tokens run out in it. -/
def Opening.unclosed : Opening → ReadError
  | .call => .unclosedCall
  | .definition name _ => .unclosedDefinition name

/-- A list that still lacks its closing parenthesis. -/
structure Unfinished where
  opening : Opening
  /-- The children so far, last first. -/
  children : List Node := []

/-- One more child. -/
def Unfinished.push (u : Unfinished) (n : Node) : Unfinished :=
  { u with children := n :: u.children }

/-- The list, closed. -/
def Unfinished.close (u : Unfinished) : Node := u.opening.close u.children.reverse

/-- The node of a token that is an expression by itself. -/
def atom : Token → Node
  | .symbol name => .identifier name
  | t => .literal t

/-! ## Lists -/

/-- What reading answers: a result or an error, and the stream after it. -/
abbrev Outcome (α : Type) := Except ReadError α × TokenStream

/-- Reads on inside the list `current`, which stands in the lists `outer`, until the outermost one
is closed.  `room` is the number of lists that may still be opened. -/
def list (room : Nat) (current : Unfinished) (outer : List Unfinished) (s : TokenStream) :
    Outcome Node :=
  match _h : s.advance with
  | (.error e, s') => (.error (.lexical e), s')
  | (.ok none, s') => (.error current.opening.unclosed, s')
  | (.ok (some .closeParen), s') =>
    match outer with
    | [] => (.ok current.close, s')
    | next :: outer => list (room + 1) (next.push current.close) outer s'
  | (.ok (some .openParen), s') =>
    match room with
    | 0 => (.error .tooDeep, s')
    | room + 1 => list room { opening := .call } (current :: outer) s'
  | (.ok (some t), s') => list room (current.push (atom t)) outer s'
termination_by s.size
decreasing_by all_goals exact TokenStream.advance_size _h

/-- Reads the list that `opening` began, with room for `limit` open lists. -/
def openList (limit : Nat) (opening : Opening) (s : TokenStream) : Outcome Node :=
  match limit with
  | 0 => (.error .tooDeep, s)
  | room + 1 => list room { opening } [] s

/-! ## Definitions -/

/-- The next token, where there has to be one. -/
def token (s : TokenStream) : Outcome Token :=
  match s.advance with
  | (.error e, s) => (.error (.lexical e), s)
  | (.ok none, s) => (.error .noToken, s)
  | (.ok (some t), s) => (.ok t, s)

theorem token_size {s s' : TokenStream} {t : Token} (h : token s = (.ok t, s')) :
    s'.size < s.size := by
  simp only [token] at h
  split at h <;> cases h
  next ha => exact TokenStream.advance_size ha

/-- Reads the parameters of the function `name` up to the parenthesis that closes them; `done` are
those already read, last first. -/
def params (name : String) (done : List String) (s : TokenStream) : Outcome (List String) :=
  match _h : token s with
  | (.error e, s') => (.error e, s')
  | (.ok .closeParen, s') => (.ok done.reverse, s')
  | (.ok (.symbol p), s') => params name (p :: done) s'
  | (.ok t, s') => (.error (.parameter name t), s')
termination_by s.size
decreasing_by exact token_size _h

/-- Reads a definition after its keyword.  Its parameter list is a list in the list of the
definition, and takes room like any other. -/
def definition (limit : Nat) (s : TokenStream) : Outcome Node :=
  match token s with
  | (.error e, s) => (.error e, s)
  | (.ok (.symbol name), s) =>
    match token s with
    | (.error e, s) => (.error e, s)
    | (.ok .openParen, s) =>
      if limit < 2 then (.error .tooDeep, s)
      else match params name [] s with
        | (.error e, s) => (.error e, s)
        | (.ok ps, s) => openList limit (.definition name ps) s
    | (.ok t, s) => (.error (.parameterList name t), s)
  | (.ok t, s) => (.error (.definitionName t), s)

/-! ## Expressions, statements, programs -/

/-- Reads one expression. -/
def expression (limit : Nat) (s : TokenStream) : Outcome Node :=
  match token s with
  | (.error e, s) => (.error e, s)
  | (.ok .closeParen, s) => (.error .unexpectedClose, s)
  | (.ok .openParen, s) => openList limit .call s
  | (.ok t, s) => (.ok (atom t), s)

/-- Reads one definition or expression. -/
def statement (limit : Nat) (s : TokenStream) : Outcome Node :=
  match token s with
  | (.error e, s) => (.error e, s)
  | (.ok .closeParen, s) => (.error .unexpectedClose, s)
  | (.ok .openParen, s) =>
    match s.peek with
    | (.error e, s) => (.error (.lexical e), s)
    | (.ok next, s) =>
      if next = some (.symbol Node.definitionKeyword) then definition limit s.advance.2
      else openList limit .call s
  | (.ok t, s) => (.ok (atom t), s)

/-! ## Reading takes tokens -/

theorem list_size {room : Nat} {current : Unfinished} {outer : List Unfinished}
    {s s' : TokenStream} {n : Node} (h : list room current outer s = (.ok n, s')) :
    s'.size < s.size := by
  induction hk : s.size using Nat.strongRecOn generalizing room current outer s with
  | _ k ih =>
    subst hk
    rw [list] at h
    split at h
    · cases h
    · cases h
    · next ha =>
      have hlt := TokenStream.advance_size ha
      split at h
      · cases h; exact hlt
      · exact Nat.lt_trans (ih _ hlt h rfl) hlt
    · next ha =>
      have hlt := TokenStream.advance_size ha
      split at h
      · cases h
      · exact Nat.lt_trans (ih _ hlt h rfl) hlt
    · next ha =>
      have hlt := TokenStream.advance_size ha
      exact Nat.lt_trans (ih _ hlt h rfl) hlt

theorem openList_size {limit : Nat} {opening : Opening} {s s' : TokenStream} {n : Node}
    (h : openList limit opening s = (.ok n, s')) : s'.size < s.size := by
  cases limit with
  | zero => cases h
  | succ room => exact list_size h

theorem params_size {name : String} {done : List String} {s s' : TokenStream}
    {ps : List String} (h : params name done s = (.ok ps, s')) : s'.size < s.size := by
  induction hk : s.size using Nat.strongRecOn generalizing done s with
  | _ k ih =>
    subst hk
    rw [params] at h
    split at h
    · cases h
    · next ht => cases h; exact token_size ht
    · next ht =>
      have hlt := token_size ht
      exact Nat.lt_trans (ih _ hlt h rfl) hlt
    · cases h

theorem definition_size {limit : Nat} {s s' : TokenStream} {n : Node}
    (h : definition limit s = (.ok n, s')) : s'.size < s.size := by
  simp only [definition] at h
  split at h
  · cases h
  · next h₁ =>
    split at h
    · cases h
    · next h₂ =>
      split at h
      · cases h
      · split at h
        · cases h
        · next h₃ =>
          exact Nat.lt_trans (openList_size h) (Nat.lt_trans (params_size h₃)
            (Nat.lt_trans (token_size h₂) (token_size h₁)))
    · cases h
  · cases h

/-- A statement takes at least one token. -/
theorem statement_size {limit : Nat} {s s' : TokenStream} {n : Node}
    (h : statement limit s = (.ok n, s')) : s'.size < s.size := by
  simp only [statement] at h
  split at h
  · cases h
  · cases h
  · next h₁ =>
    split at h
    · cases h
    · next h₂ =>
      have hle := Nat.lt_of_le_of_lt (TokenStream.peek_size h₂) (token_size h₁)
      split at h
      · next hk =>
        refine Nat.lt_trans (definition_size h) (Nat.lt_of_le_of_lt ?_ hle)
        subst hk
        have ha := TokenStream.advance_of_peek h₂
        rw [ha]
        exact Nat.le_of_lt (TokenStream.advance_size ha)
      · exact Nat.lt_trans (openList_size h) hle
  · next h₁ => cases h; exact token_size h₁

/-- Reads statements up to the end of the stream; `done` are those already read, last first. -/
def statements (limit : Nat) (done : List Node) (s : TokenStream) : Outcome (List Node) :=
  match _h : s.peek with
  | (.error e, s₁) => (.error (.lexical e), s₁)
  | (.ok none, s₁) => (.ok done.reverse, s₁)
  | (.ok (some _), s₁) =>
    match _h₁ : statement limit s₁ with
    | (.error e, s₂) => (.error e, s₂)
    | (.ok n, s₂) => statements limit (n :: done) s₂
termination_by s.size
decreasing_by exact Nat.lt_of_lt_of_le (statement_size _h₁) (TokenStream.peek_size _h)

/-- Reads a whole program. -/
def program (limit : Nat) (s : TokenStream) : Outcome (List Node) := statements limit [] s

/-- The statements of a source text. -/
def parse (limit : Nat) (source : String) : Except ReadError (List Node) :=
  (program limit (TokenStream.ofText source)).1

end Reader

end MiniLisp
