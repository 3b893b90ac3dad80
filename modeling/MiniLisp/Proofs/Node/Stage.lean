/-
# MiniLisp.Proofs.Node.Stage — the grammar of a program as a machine.

The rows of statements are those that a machine accepts which takes one token at a time.  Its stage
says where in a program it is: how many lists are open, or how far the head of a definition has got.
A token that has no stage behind it cannot be continued, and from every stage there is a way to the
end of a program.  So the machine knows of each row of tokens whether some program begins with it.
-/
import MiniLisp.Proofs.Node.Phrase

namespace MiniLisp

/-- Where in a program a reader is. -/
inductive Stage where
  /-- In this many open lists; in none, between two statements. -/
  | inside (depth : Nat)
  /-- Behind the parenthesis that opens a statement. -/
  | opened
  /-- Where the name of a definition comes. -/
  | name
  /-- Where the parameter list of a definition comes. -/
  | paramList
  /-- In the parameter list of a definition. -/
  | params
deriving DecidableEq, Repr

/-! ## Phrases are not empty -/

theorem Phrase.Expression.ne_nil {row : List Token} (h : Phrase.Expression row) : row ≠ [] := by
  cases h <;> simp

theorem Phrase.Statement.ne_nil {row : List Token} (h : Phrase.Statement row) : row ≠ [] := by
  cases h with
  | expression h _ => exact h.ne_nil
  | definition h =>
      obtain ⟨_, _, _⟩ := h
      simp

namespace Stage

/-! ## The machine -/

/-- The stage behind a token in `depth` open lists. -/
def insideNext (depth : Nat) : Token → Option Stage
  | .integer _ | .string _ | .symbol _ => some (inside depth)
  | .openParen => some (if depth = 0 then opened else inside (depth + 1))
  | .closeParen => if depth = 0 then none else some (inside (depth - 1))
  | .foreign _ _ => none

/-- The stage behind a token; `none` where no program goes on with it. -/
def next : Stage → Token → Option Stage
  | inside depth, t => insideNext depth t
  | opened, t => if t = .symbol Node.definitionKeyword then some name else insideNext 1 t
  | name, .symbol _ => some paramList
  | paramList, .openParen => some params
  | params, .symbol _ => some params
  | params, .closeParen => some (inside 1)
  | _, _ => none

/-- In a list whatever comes behind a parenthesis is in a list of its own. -/
theorem next_inside_open (depth : Nat) :
    next (inside (depth + 1)) .openParen = some (inside (depth + 2)) := rfl

/-- Behind an open parenthesis only the keyword is told apart. -/
theorem next_opened {t : Token} (h : t ≠ .symbol Node.definitionKeyword) :
    next opened t = next (inside 1) t := if_neg h

/-- The stage behind a row of tokens. -/
def run (st : Stage) (row : List Token) : Option Stage := row.foldlM next st

/-- The way from a stage to the end of a program. -/
def completion : Stage → List Token
  | inside depth => List.replicate depth .closeParen
  | opened => [.closeParen]
  | name => [.symbol "f", .openParen, .closeParen, .closeParen]
  | paramList => [.openParen, .closeParen, .closeParen]
  | params => [.closeParen, .closeParen]

variable {st st' : Stage} {t : Token} {row us : List Token} {parts : List (List Token)}
  {depth : Nat}

@[simp] theorem run_nil (st : Stage) : run st [] = some st := rfl

@[simp] theorem run_cons (st : Stage) (t : Token) (us : List Token) :
    run st (t :: us) = (next st t).bind (run · us) := by
  simp [run, List.foldlM_cons]

theorem run_append (st : Stage) (row us : List Token) :
    run st (row ++ us) = (run st row).bind (run · us) := by
  simp [run, List.foldlM_append]

theorem run_concat (h : run st row = some st') : run st (row ++ [t]) = next st' t := by
  simp [run_append, h]

/-- Parts that lead back to where they began can be repeated. -/
theorem run_flatten (h : ∀ part ∈ parts, run st part = some st) :
    run st parts.flatten = some st := by
  induction parts with
  | nil => rfl
  | cons part parts ih =>
      obtain ⟨hpart, hparts⟩ := List.forall_mem_cons.mp h
      rw [List.flatten_cons, run_append, hpart]
      exact ih hparts

/-- From every stage a program can be ended. -/
theorem run_completion (st : Stage) : run st st.completion = some (inside 0) := by
  cases st with
  | inside depth =>
      induction depth with
      | zero => rfl
      | succ depth ih => exact ih
  | opened | name | paramList | params => rfl

/-! ## The rows that it accepts -/

/-- An expression in a list leads back into that list. -/
theorem run_expression (h : Phrase.Expression row) (depth : Nat) :
    run (inside (depth + 1)) row = some (inside (depth + 1)) := by
  induction h generalizing depth with
  | integer _ | string _ | symbol _ => rfl
  | list _ ih =>
      rw [List.cons_append, run_cons, next_inside_open, Option.bind_some, run_append,
        run_flatten fun part hpart => ih part hpart (depth + 1)]
      rfl

/-- Expressions and a parenthesis lead out of a list. -/
theorem run_parts (h : ∀ part ∈ parts, Phrase.Expression part) (depth : Nat) :
    run (inside (depth + 1)) (parts.flatten ++ [.closeParen]) = some (inside depth) := by
  rw [run_append, run_flatten fun part hpart => run_expression (h part hpart) depth]
  rfl

/-- A statement leads back between two statements. -/
theorem run_statement (h : Phrase.Statement row) : run (inside 0) row = some (inside 0) := by
  cases h with
  | expression h plain =>
      cases h with
      | integer _ | string _ | symbol _ => rfl
      | @list parts h =>
          rw [List.cons_append, ← run_parts h 0]
          cases hinner : parts.flatten ++ [Token.closeParen] with
          | nil => simp at hinner
          | cons t us =>
              -- the first token behind the parenthesis is not the keyword
              have hkeyword : t ≠ .symbol Node.definitionKeyword := by
                rintro rfl
                exact plain ⟨us, congrArg (Token.openParen :: ·) hinner.symm⟩
              have hopened : run opened (t :: us) = run (inside 1) (t :: us) := by
                rw [run_cons, run_cons, next_opened hkeyword]
              exact hopened
  | definition h =>
      obtain ⟨name, params, h⟩ := h
      have hparams : run Stage.params (params.map .symbol) = some .params := by
        induction params with
        | nil => rfl
        | cons p params ih => exact ih
      show run Stage.params (params.map Token.symbol ++ _ :: _ ++ _) = _
      rw [List.append_assoc, run_append, hparams]
      exact run_parts h 0

/-- What leads out of a list is a row of expressions and the parenthesis that closes it. -/
theorem exists_parts (h : run (inside (depth + 1)) us = some (inside 0)) :
    ∃ (parts : List (List Token)) (rest : List Token),
      (∀ part ∈ parts, Phrase.Expression part) ∧ us = parts.flatten ++ .closeParen :: rest ∧
        run (inside depth) rest = some (inside 0) := by
  -- behind an inner list the rest is shorter, whatever was in that list
  induction hk : us.length using Nat.strongRecOn generalizing us depth with
  | _ k ih =>
    subst hk
    cases us with
    | nil => cases h
    | cons t us =>
        -- one expression, and on in the same list
        have push {part tail : List Token} (hpart : Phrase.Expression part)
            (hrun : run (inside (depth + 1)) tail = some (inside 0))
            (hsplit : t :: us = part ++ tail) :
            ∃ (parts : List (List Token)) (rest : List Token),
              (∀ part ∈ parts, Phrase.Expression part) ∧
                t :: us = parts.flatten ++ .closeParen :: rest ∧
                run (inside depth) rest = some (inside 0) := by
          have hlength : tail.length < (t :: us).length := by
            have := List.length_pos_iff.mpr hpart.ne_nil
            rw [hsplit, List.length_append]
            omega
          obtain ⟨parts, rest, hparts, rfl, hrest⟩ := ih _ hlength hrun rfl
          refine ⟨part :: parts, rest, List.forall_mem_cons.mpr ⟨hpart, hparts⟩, ?_, hrest⟩
          rw [hsplit, List.flatten_cons, List.append_assoc]
        rw [run_cons] at h
        cases t with
        | integer n => exact push (.integer n) h rfl
        | string text => exact push (.string text) h rfl
        | symbol x => exact push (.symbol x) h rfl
        | closeParen => exact ⟨[], us, by simp, rfl, h⟩
        | openParen =>
            obtain ⟨inner, rest, hinner, rfl, hrest⟩ := ih us.length (Nat.lt_succ_self _) h rfl
            exact push (.list hinner) hrest (by simp)
        | foreign _ _ => cases h

/-- What leads through the head of a definition into its body. -/
theorem exists_params (h : run params us = some (inside 0)) :
    ∃ (ps : List String) (rest : List Token), us = ps.map .symbol ++ .closeParen :: rest ∧
      run (inside 1) rest = some (inside 0) := by
  induction us with
  | nil => cases h
  | cons t us ih =>
      rw [run_cons] at h
      cases t with
      | symbol p =>
          obtain ⟨ps, rest, rfl, hrest⟩ := ih h
          exact ⟨p :: ps, rest, rfl, hrest⟩
      | closeParen => exact ⟨[], us, rfl, h⟩
      | integer _ | string _ | openParen | foreign _ _ => cases h

/-- What leads from a keyword to the end of a program completes a definition and goes on. -/
theorem exists_definition (h : run name us = some (inside 0)) :
    ∃ row rest, Phrase.Definition row ∧
      .openParen :: .symbol Node.definitionKeyword :: us = row ++ rest ∧
      run (inside 0) rest = some (inside 0) := by
  rcases us with _ | ⟨t, _ | ⟨u, us⟩⟩
  · cases h
  · cases t <;> cases h
  · rw [run_cons] at h
    cases t with
    | symbol f =>
        cases u with
        | openParen =>
            obtain ⟨ps, body, rfl, hbody⟩ := exists_params h
            obtain ⟨parts, rest, hparts, rfl, hrest⟩ := exists_parts hbody
            exact ⟨_, rest, .intro f ps hparts, by simp, hrest⟩
        | integer _ | string _ | symbol _ | closeParen | foreign _ _ => cases h
    | integer _ | string _ | openParen | closeParen | foreign _ _ => cases h

/-- What leads from an open parenthesis to the end of a program completes a statement and goes on.
-/
theorem exists_statement (h : run opened us = some (inside 0)) :
    ∃ row rest, Phrase.Statement row ∧ .openParen :: us = row ++ rest ∧
      run (inside 0) rest = some (inside 0) := by
  cases us with
  | nil => cases h
  | cons t us =>
      by_cases hkeyword : t = .symbol Node.definitionKeyword
      · subst hkeyword
        obtain ⟨row, rest, hrow, hsplit, hrest⟩ := exists_definition h
        exact ⟨row, rest, .definition hrow, hsplit, hrest⟩
      · rw [run_cons, next, if_neg hkeyword] at h
        have hlist : run (inside (0 + 1)) (t :: us) = some (inside 0) := h
        obtain ⟨parts, rest, hparts, hsplit, hrest⟩ := exists_parts hlist
        refine ⟨_, rest, .expression (.list hparts) ?_, by simp [hsplit], hrest⟩
        rintro ⟨vs, hvs⟩
        have hkeywords : .symbol Node.definitionKeyword :: vs =
            parts.flatten ++ [Token.closeParen] := (List.cons.inj hvs).2
        -- the first token of the list is that of the row
        have hhead : (parts.flatten ++ .closeParen :: rest).head? =
            (parts.flatten ++ [Token.closeParen]).head? := by
          cases parts.flatten <;> rfl
        rw [← hsplit, ← hkeywords] at hhead
        exact hkeyword (Option.some.inj hhead)

end Stage

open Stage (run inside)

/-- A row of statements. -/
def Phrase.Program (row : List Token) : Prop :=
  ∃ rows : List (List Token), row = rows.flatten ∧ ∀ part ∈ rows, Phrase.Statement part

/-- The machine accepts the rows of statements. -/
theorem Stage.run_eq_some_iff {row : List Token} :
    run (inside 0) row = some (inside 0) ↔ Phrase.Program row := by
  constructor
  · intro h
    induction hk : row.length using Nat.strongRecOn generalizing row with
    | _ k ih =>
      subst hk
      -- one statement, and on between statements
      have push {part tail : List Token} (hpart : Phrase.Statement part)
          (hrun : run (inside 0) tail = some (inside 0))
          (hsplit : row = part ++ tail) : Phrase.Program row := by
        have hlength : tail.length < row.length := by
          have := List.length_pos_iff.mpr hpart.ne_nil
          rw [hsplit, List.length_append]
          omega
        obtain ⟨rows, rfl, hrows⟩ := ih _ hlength hrun rfl
        exact ⟨part :: rows, hsplit, List.forall_mem_cons.mpr ⟨hpart, hrows⟩⟩
      have atom {t : Token} (ht : Phrase.Expression [t]) {us : List Token} (hrow : row = t :: us)
          (hrun : run (inside 0) us = some (inside 0)) : Phrase.Program row :=
        push (.expression ht (by simp [Phrase.BeginsDefinition])) hrun hrow
      cases hrow : row with
      | nil => exact ⟨[], rfl, by simp⟩
      | cons t us =>
          rw [← hrow]
          rw [hrow, run_cons] at h
          cases t with
          | integer n => exact atom (.integer n) hrow h
          | string text => exact atom (.string text) hrow h
          | symbol x => exact atom (.symbol x) hrow h
          | openParen =>
              obtain ⟨part, rest, hpart, hsplit, hrest⟩ := exists_statement h
              exact push hpart hrest (hrow.trans hsplit)
          | closeParen | foreign _ _ => cases h
  · rintro ⟨rows, rfl, hrows⟩
    exact run_flatten fun part hpart => run_statement (hrows part hpart)

end MiniLisp
