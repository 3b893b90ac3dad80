/-
# MiniLisp.Proofs.Node.Alike — readers of streams that cannot be told apart.

All that a reader does with a stream is to look at the next token and to take it.  So from streams
that are alike every reader has the same result, or errors that differ as the lexical errors of the
streams may, and it leaves streams that are alike.  This goes on for any row of moves, whatever
fails in between.
-/
import Mathlib.Data.List.Forall2
import MiniLisp.Proofs.Node.Reading
import MiniLisp.Proofs.Token.Alike

namespace MiniLisp

/-- Errors that are the same, up to `E` where they are lexical errors. -/
inductive ReadError.Alike (E : LexError → LexError → Prop) : ReadError → ReadError → Prop
  | lexical {e e' : LexError} (h : E e e') : Alike E (.lexical e) (.lexical e')
  | other {e : ReadError} (h : ∀ err, e ≠ .lexical err) : Alike E e e

namespace Reader

open TokenStream (EndAlike)

variable {E : LexError → LexError → Prop} {s s' : TokenStream} {limit room : Nat}
  {current : Unfinished} {outer : List Unfinished}

/-- Outcomes that are the same, up to `E` where lexical errors are concerned. -/
abbrev Outcome.Alike {α : Type} (E : LexError → LexError → Prop) (o o' : Outcome α) : Prop :=
  EndAlike (ReadError.Alike E) E o o'

theorem token_alike (h : s.Alike E s') : Outcome.Alike E (token s) (token s') := by
  rcases h.advance.cases with ⟨t, s₁, s₁', ha, ha', hs⟩ | ⟨e, e', s₁, s₁', ha, ha', he, hs⟩
  · unfold token
    rw [ha, ha']
    cases t with
    | none => exact .error (.other nofun) hs
    | some t => exact .ok hs
  · unfold token
    rw [ha, ha']
    exact .error (.lexical he) hs

/-! ## Lists -/

theorem unclosed_ne_lexical (opening : Opening) (err : LexError) :
    opening.unclosed ≠ .lexical err := by
  cases opening <;> nofun

theorem list_alike (h : s.Alike E s') :
    Outcome.Alike E (list room current outer s) (list room current outer s') := by
  induction hk : s.size using Nat.strongRecOn generalizing room current outer s s' with
  | _ k ih =>
    subst hk
    rcases h.advance.cases with ⟨t, s₁, s₁', ha, ha', hs⟩ | ⟨e, e', s₁, s₁', ha, ha', he, hs⟩
    · cases t with
      | none =>
          rw [list_ended ha, list_ended ha']
          exact .error (.other (unclosed_ne_lexical _)) hs
      | some t =>
          have hsize := TokenStream.advance_size ha
          by_cases hclose : t = .closeParen
          · subst hclose
            cases outer with
            | nil =>
                rw [list_close_last ha, list_close_last ha']
                exact .ok hs
            | cons next outer =>
                rw [list_close ha, list_close ha']
                exact ih _ hsize hs rfl
          by_cases hopen : t = .openParen
          · subst hopen
            cases room with
            | zero =>
                rw [list_open_full ha, list_open_full ha']
                exact .error (.other nofun) hs
            | succ room =>
                rw [list_open ha, list_open ha']
                exact ih _ hsize hs rfl
          · rw [list_atom ha hopen hclose, list_atom ha' hopen hclose]
            exact ih _ hsize hs rfl
    · rw [list_error ha, list_error ha']
      exact .error (.lexical he) hs

theorem openList_alike {opening : Opening} (h : s.Alike E s') :
    Outcome.Alike E (openList limit opening s) (openList limit opening s') := by
  cases limit with
  | zero => exact .error (.other nofun) h
  | succ room => exact list_alike h

/-! ## Definitions -/

theorem params_alike (name : String) (done : List String) (h : s.Alike E s') :
    Outcome.Alike E (params name done s) (params name done s') := by
  induction hk : s.size using Nat.strongRecOn generalizing done s s' with
  | _ k ih =>
    subst hk
    rw [params_apply, params_apply name done s']
    rcases (token_alike h).cases with ⟨t, s₁, s₁', ht, ht', hs⟩ | ⟨e, e', s₁, s₁', ht, ht', he, hs⟩
    · rw [ht, ht']
      cases t with
      | closeParen => exact .ok hs
      | symbol p => exact ih _ (token_size ht) (p :: done) hs rfl
      | openParen | integer _ | string _ | foreign _ _ => exact .error (.other nofun) hs
    · rw [ht, ht']
      exact .error he hs

theorem definition_alike (h : s.Alike E s') :
    Outcome.Alike E (definition limit s) (definition limit s') := by
  unfold definition
  rcases (token_alike h).cases with ⟨t, s₁, s₁', h₁, h₁', hs₁⟩ | ⟨e, e', s₁, s₁', h₁, h₁', he, hs₁⟩
  · rw [h₁, h₁']
    cases t with
    | symbol name =>
        dsimp only
        rcases (token_alike hs₁).cases with
          ⟨t, s₂, s₂', h₂, h₂', hs₂⟩ | ⟨e, e', s₂, s₂', h₂, h₂', he, hs₂⟩
        · rw [h₂, h₂']
          cases t with
          | openParen =>
              dsimp only
              split
              · exact .error (.other nofun) hs₂
              · rcases (params_alike name [] hs₂).cases with
                  ⟨ps, s₃, s₃', h₃, h₃', hs₃⟩ | ⟨e, e', s₃, s₃', h₃, h₃', he, hs₃⟩
                · rw [h₃, h₃']
                  exact openList_alike hs₃
                · rw [h₃, h₃']
                  exact .error he hs₃
          | closeParen | symbol _ | integer _ | string _ | foreign _ _ =>
              exact .error (.other nofun) hs₂
        · rw [h₂, h₂']
          exact .error he hs₂
    | openParen | closeParen | integer _ | string _ | foreign _ _ =>
        exact .error (.other nofun) hs₁
  · rw [h₁, h₁']
    exact .error he hs₁

/-! ## Expressions, statements, programs -/

theorem expression_alike (h : s.Alike E s') :
    Outcome.Alike E (expression limit s) (expression limit s') := by
  unfold expression
  rcases (token_alike h).cases with ⟨t, s₁, s₁', ht, ht', hs⟩ | ⟨e, e', s₁, s₁', ht, ht', he, hs⟩
  · rw [ht, ht']
    cases t with
    | openParen => exact openList_alike hs
    | closeParen => exact .error (.other nofun) hs
    | symbol _ | integer _ | string _ | foreign _ _ => exact .ok hs
  · rw [ht, ht']
    exact .error he hs

theorem statement_alike (limit : Nat) (h : s.Alike E s') :
    Outcome.Alike E (statement limit s) (statement limit s') := by
  unfold statement
  rcases (token_alike h).cases with ⟨t, s₁, s₁', ht, ht', hs⟩ | ⟨e, e', s₁, s₁', ht, ht', he, hs⟩
  · rw [ht, ht']
    cases t with
    | openParen =>
        dsimp only
        rcases hs.peek.cases with
          ⟨next, s₂, s₂', hp, hp', hs₂⟩ | ⟨e, e', s₂, s₂', hp, hp', he, hs₂⟩
        · rw [hp, hp']
          dsimp only
          split
          · exact definition_alike hs₂.advance.streams
          · exact openList_alike hs₂
        · rw [hp, hp']
          exact .error (.lexical he) hs₂
    | closeParen => exact .error (.other nofun) hs
    | symbol _ | integer _ | string _ | foreign _ _ => exact .ok hs
  · rw [ht, ht']
    exact .error he hs

theorem statements_alike {done : List Node} (h : s.Alike E s') :
    Outcome.Alike E (statements limit done s) (statements limit done s') := by
  induction hk : s.size using Nat.strongRecOn generalizing done s s' with
  | _ k ih =>
    subst hk
    rcases h.peek.cases with ⟨t, s₁, s₁', hp, hp', hs⟩ | ⟨e, e', s₁, s₁', hp, hp', he, hs⟩
    · cases t with
      | none =>
          rw [statements_end hp, statements_end hp']
          exact .ok hs
      | some t =>
          rw [statements_step hp, statements_step hp']
          rcases (statement_alike limit hs).cases with
            ⟨n, s₂, s₂', hn, hn', hs₂⟩ | ⟨e, e', s₂, s₂', hn, hn', he, hs₂⟩
          · rw [hn, hn']
            have hsize := Nat.lt_of_lt_of_le (statement_size hn) (TokenStream.peek_size hp)
            exact ih _ hsize hs₂ rfl
          · rw [hn, hn']
            exact .error he hs₂
    · rw [statements_error hp, statements_error hp']
      exact .error (.lexical he) hs

/-! ## Rows of moves -/

/-- What can be done with a stream. -/
inductive Move where
  | peek
  | advance
  | expression
  /-- A definition is recognised. -/
  | statement
  /-- All that is left. -/
  | program
deriving DecidableEq, Repr

/-- What a move answers with. -/
inductive Answer where
  | token (t : Option Token)
  | node (n : Node)
  | program (ns : List Node)

/-- What a stream answers to a move, and the stream after it. -/
def Move.make (limit : Nat) (s : TokenStream) : Move → Outcome Answer
  | .peek => ((s.peek.1.mapError .lexical).map .token, s.peek.2)
  | .advance => ((s.advance.1.mapError .lexical).map .token, s.advance.2)
  | .expression => ((Reader.expression limit s).1.map .node, (Reader.expression limit s).2)
  | .statement => ((Reader.statement limit s).1.map .node, (Reader.statement limit s).2)
  | .program => ((Reader.program limit s).1.map .program, (Reader.program limit s).2)

/-- What a stream answers to a row of moves.  After an error the next move finds the stream as the
error has left it. -/
def answers (limit : Nat) : List Move → TokenStream → List (Except ReadError Answer)
  | [], _ => []
  | m :: ms, s => (m.make limit s).1 :: answers limit ms (m.make limit s).2

theorem make_alike (m : Move) (h : s.Alike E s') :
    Outcome.Alike E (m.make limit s) (m.make limit s') := by
  cases m with
  | peek => exact (h.peek.mapError ReadError.Alike.lexical).map Answer.token
  | advance => exact (h.advance.mapError ReadError.Alike.lexical).map Answer.token
  | expression => exact (expression_alike h).map Answer.node
  | statement => exact (statement_alike limit h).map Answer.node
  | program => exact (statements_alike h).map Answer.program

/-- Streams that are alike answer alike to any row of moves. -/
theorem answers_alike (h : s.Alike E s') (ms : List Move) :
    List.Forall₂ (Agree (· = ·) (ReadError.Alike E)) (answers limit ms s)
      (answers limit ms s') := by
  induction ms generalizing s s' with
  | nil => exact .nil
  | cons m ms ih =>
      have hm : Outcome.Alike E (m.make limit s) (m.make limit s') := make_alike m h
      exact .cons hm.results (ih hm.streams)

end Reader

end MiniLisp
