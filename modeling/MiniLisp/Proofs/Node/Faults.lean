/-
# MiniLisp.Proofs.Node.Faults — where the reader gives up.

The reader goes through the stages of the grammar, and it never scans a token before it needs it.
So it stops at the first token that has no stage behind it, or where no token can be formed, or at
the end of the tokens, and each time the tokens in front lead to a stage.  A text has one lexical
error at most, since the lexer stops at the first, and a reader need not get there.  But a lexical
error that the reader answers with is that of the text.
-/
import MiniLisp.Proofs.Node.Stage
import MiniLisp.Proofs.Token.Cursor

namespace MiniLisp

open Stage (run inside)

/-! ## What stops the reader -/

/-- What stopped the reader. -/
inductive ReadError.Cause where
  /-- A token that fits nowhere. -/
  | token (t : Token)
  | lexical (e : LexError)
  /-- The end of the tokens. -/
  | ended
  /-- Too many open lists. -/
  | room
deriving DecidableEq, Repr

/-- What stopped the reader when it answers with this error. -/
def ReadError.cause : ReadError → Cause
  | .lexical e => .lexical e
  | .noToken | .unclosedCall | .unclosedDefinition _ => .ended
  | .unexpectedClose => .token .closeParen
  | .definitionName t | .parameterList _ t | .parameter _ t => .token t
  | .tooDeep => .room

namespace Reader

open ReadError (Cause)

/-- Some stage of the grammar is behind the tokens that the stream has handed over. -/
def Reached (source : String) (st : Stage) (s : TokenStream) : Prop :=
  ∃ ts, s.At source ts ∧ run (inside 0) ts = some st

/-- The reader stops where it has to: at a token without a stage behind it, in front of a bad
lexeme, or at the end of the tokens but not of a program. -/
inductive Stops (source : String) : Cause → TokenStream → Prop
  | token {s : TokenStream} {t : Token} {ts : List Token} {st : Stage}
      (behind : s.At source (ts ++ [t])) (buffer : s.buffer = none)
      (stage : run (inside 0) ts = some st) (stuck : st.next t = none) : Stops source (.token t) s
  | lexical {s : TokenStream} {e : LexError} {ts : List Token} {st : Stage} {front bad : List Char}
      (split : source.toList = front ++ bad) (breaks : Breaks e.fault bad source.toList ts)
      (position : e.position = Text.placeAfter front) (stage : run (inside 0) ts = some st) :
      Stops source (.lexical e) s
  | ended {s : TokenStream} {ts : List Token} {st : Stage} (tokens : tokenize source = .ok ts)
      (stage : run (inside 0) ts = some st) (unfinished : st ≠ inside 0) : Stops source .ended s
  | room {s : TokenStream} : Stops source .room s

/-- A part of the reader that ends at this stage, or stops where it has to. -/
def Follows {α : Type} (source : String) (st : Stage) : Outcome α → Prop
  | (.ok _, s) => Reached source st s
  | (.error e, s) => Stops source e.cause s

/-! ## One token -/

section

variable {source : String} {st st' : Stage} {s s' : TokenStream} {t : Token} {e : LexError}

theorem reached_start (source : String) : Reached source (inside 0) (.ofText source) :=
  ⟨[], .start source, rfl⟩

theorem Reached.lexeme (h : Reached source st s) (ha : s.advance = (.ok (some t), s')) :
    ∃ lexeme, t.Lexeme lexeme := by
  obtain ⟨ts, hat, -⟩ := h
  exact (hat.advance ha).1.lexical t (by simp)

theorem Reached.next (h : Reached source st s) (ha : s.advance = (.ok (some t), s'))
    (hnext : st.next t = some st') : Reached source st' s' := by
  obtain ⟨ts, hat, hst⟩ := h
  exact ⟨ts ++ [t], (hat.advance ha).1, (Stage.run_concat hst).trans hnext⟩

theorem Reached.stuck (h : Reached source st s) (ha : s.advance = (.ok (some t), s'))
    (hnext : st.next t = none) : Stops source (.token t) s' := by
  obtain ⟨ts, hat, hst⟩ := h
  obtain ⟨hat', hbuffer⟩ := hat.advance ha
  exact .token hat' hbuffer hst hnext

theorem Reached.ended (h : Reached source st s) (hend : s.future = ([], none))
    (hne : st ≠ inside 0) : Stops source .ended s' := by
  obtain ⟨ts, hat, hst⟩ := h
  exact .ended (hat.tokenize_of_end hend) hst hne

theorem Reached.breaks (h : Reached source st s) (herror : s.future = ([], some e)) :
    Stops source (.lexical e) s' := by
  obtain ⟨ts, hat, hst⟩ := h
  obtain ⟨front, bad, hsplit, hbreaks, hposition⟩ := hat.breaks herror
  exact .lexical hsplit hbreaks hposition hst

theorem Reached.peek {shown : Option Token} (h : Reached source st s)
    (hp : s.peek = (.ok shown, s')) : Reached source st s' := by
  obtain ⟨ts, hat, hst⟩ := h
  exact ⟨ts, hat.peek hp, hst⟩

theorem advance_of_token (h : token s = (.ok t, s')) : s.advance = (.ok (some t), s') := by
  simp only [token] at h
  split at h <;> cases h
  next ha => exact ha

/-- A missing token stops the reader where a program is not at its end. -/
theorem Reached.token_error {e : ReadError} (h : Reached source st s) (hne : st ≠ inside 0)
    (ht : token s = (.error e, s')) : Stops source e.cause s' := by
  simp only [token] at ht
  split at ht <;> cases ht
  · next ha => exact h.breaks (TokenStream.future_of_advance_error ha)
  · next ha => exact h.ended (TokenStream.future_of_advance_none ha) hne

/-! ## Lists -/

theorem cause_unclosed (opening : Opening) : opening.unclosed.cause = .ended := by
  cases opening <;> rfl

/-- A token that is an expression leads back into the list. -/
theorem next_inside_atom {depth : Nat} (hlexeme : ∃ lexeme, t.Lexeme lexeme)
    (hclose : t ≠ .closeParen) (hopen : t ≠ .openParen) :
    (inside depth).next t = some (inside depth) := by
  obtain ⟨lexeme, hl⟩ := hlexeme
  cases hl with
  | openParen => exact absurd rfl hopen
  | closeParen => exact absurd rfl hclose
  | string _ | integer _ _ _ _ | symbol _ => rfl

variable {limit room : Nat}

/-- A list is followed from any stage that goes on like the inside of the list. -/
theorem list_follows {current : Unfinished} {outer : List Unfinished} (h : Reached source st s)
    (hne : st ≠ inside 0)
    (hlike : ∀ t s', s.advance = (.ok (some t), s') →
      st.next t = (inside (outer.length + 1)).next t) :
    Follows source (inside 0) (list room current outer s) := by
  induction hk : s.size using Nat.strongRecOn generalizing room current outer s st with
  | _ k ih =>
    subst hk
    -- whichever list is read on, one more token is taken
    have step : ∀ {t room' current' outer' s₁}, s.advance = (.ok (some t), s₁) →
        (inside (outer.length + 1)).next t = some (inside (List.length outer' + 1)) →
        Follows source (inside 0) (list room' current' outer' s₁) := by
      intro t room' current' outer' s₁ ha hnext
      have hreached := h.next ha ((hlike t s₁ ha).trans hnext)
      exact ih s₁.size (TokenStream.advance_size ha) hreached (by simp) (fun _ _ _ => rfl) rfl
    rw [list]
    split
    · next ha => exact h.breaks (TokenStream.future_of_advance_error ha)
    · next s' ha =>
      have hstops : Stops source .ended s' := h.ended (TokenStream.future_of_advance_none ha) hne
      rw [← cause_unclosed current.opening] at hstops
      exact hstops
    · next ha =>
      split
      · exact h.next ha (hlike _ _ ha)
      · exact step ha rfl
    · next ha =>
      split
      · exact .room
      · exact step ha rfl
    · next hclose hopen ha => exact step ha (next_inside_atom (h.lexeme ha) hclose hopen)

theorem openList_follows {opening : Opening} (h : Reached source st s) (hne : st ≠ inside 0)
    (hlike : ∀ t s', s.advance = (.ok (some t), s') → st.next t = (inside 1).next t) :
    Follows source (inside 0) (openList limit opening s) := by
  cases limit with
  | zero => exact .room
  | succ room => exact list_follows h hne hlike

/-! ## Definitions -/

theorem params_follows {name : String} {done : List String} {o : Outcome (List String)}
    (h : Reached source .params s) (hread : params name done s = o) :
    Follows source (inside 1) o := by
  subst hread
  induction hk : s.size using Nat.strongRecOn generalizing done s with
  | _ k ih =>
    subst hk
    rw [params]
    split
    · next ht => exact h.token_error (by simp) ht
    · next ht => exact h.next (advance_of_token ht) rfl
    · next ht => exact ih _ (token_size ht) (h.next (advance_of_token ht) rfl) rfl
    · next t _ hclose hsymbol ht =>
      refine h.stuck (advance_of_token ht) ?_
      cases t with
      | closeParen => exact absurd rfl hclose
      | symbol p => exact absurd rfl (hsymbol p)
      | _ => rfl

theorem definition_follows (h : Reached source .name s) :
    Follows source (inside 0) (definition limit s) := by
  unfold definition
  split
  · next h₁ => exact h.token_error (by simp) h₁
  · next h₁ =>
    have hlist : Reached source .paramList _ := h.next (advance_of_token h₁) rfl
    split
    · next h₂ => exact hlist.token_error (by simp) h₂
    · next h₂ =>
      have hparams : Reached source .params _ := hlist.next (advance_of_token h₂) rfl
      split
      · exact .room
      · split
        · next h₃ => exact params_follows hparams h₃
        · next h₃ =>
          exact openList_follows (params_follows hparams h₃) (by simp) fun _ _ _ => rfl
    · next t _ hopen h₂ =>
      refine hlist.stuck (advance_of_token h₂) ?_
      cases t with
      | openParen => exact absurd rfl hopen
      | _ => rfl
  · next t _ hsymbol h₁ =>
    refine h.stuck (advance_of_token h₁) ?_
    cases t with
    | symbol x => exact absurd rfl (hsymbol x)
    | _ => rfl

/-! ## Statements -/

/-- A statement is followed where a token is known to come. -/
theorem statement_follows {o : Outcome Node} (h : Reached source (inside 0) s)
    (ha : s.advance = (.ok (some t), s')) (hread : statement limit s = o) :
    Follows source (inside 0) o := by
  subst hread
  have ht : token s = (.ok t, s') := by simp [token, ha]
  unfold statement
  rw [ht]
  split
  · next heq => cases heq
  · next heq =>
    cases heq
    exact h.stuck ha rfl
  · next heq =>
    cases heq
    have hopened : Reached source .opened s' := h.next ha rfl
    split
    · next hp => exact hopened.breaks (TokenStream.future_of_peek_error hp)
    · next shown s₂ hp =>
      have hshown : Reached source .opened s₂ := hopened.peek hp
      split
      · next hkeyword =>
        subst hkeyword
        have hadvance := TokenStream.advance_of_peek hp
        rw [hadvance]
        exact definition_follows (hshown.next hadvance rfl)
      · next hkeyword =>
        refine openList_follows hshown (by simp) fun u s₃ hadvance => ?_
        -- the token that comes is the one that was shown
        refine Stage.next_opened ?_
        rintro rfl
        obtain ⟨hsame, hhead⟩ := TokenStream.future_of_peek hp
        rw [← hsame, TokenStream.future_of_advance hadvance] at hhead
        exact hkeyword hhead.symm
  · next u _ hclose hopen heq =>
    cases heq
    exact h.next ha (next_inside_atom (h.lexeme ha) hclose hopen)

theorem statements_follows {done : List Node} (h : Reached source (inside 0) s) :
    Follows source (inside 0) (statements limit done s) := by
  induction hk : s.size using Nat.strongRecOn generalizing done s with
  | _ k ih =>
    subst hk
    rw [statements]
    split
    · next hp => exact h.breaks (TokenStream.future_of_peek_error hp)
    · next hp => exact h.peek hp
    · next hp =>
      have hadvance := TokenStream.advance_of_peek hp
      split
      · next hst => exact statement_follows (h.peek hp) hadvance hst
      · next hst =>
        have hread := statement_follows (h.peek hp) hadvance hst
        have hsize := Nat.lt_of_lt_of_le (statement_size hst) (TokenStream.peek_size hp)
        exact ih _ hsize hread rfl

end

/-! ## Texts -/

variable {limit : Nat} {source : String} {e : LexError}

theorem program_follows (limit : Nat) (source : String) :
    Follows source (inside 0) (program limit (.ofText source)) :=
  statements_follows (reached_start source)

/-- A lexical error that reading answers with is that of the text. -/
theorem tokenize_of_parse_lexical (h : parse limit source = .error (.lexical e)) :
    tokenize source = .error e := by
  have hprogram : program limit (.ofText source) = (.error (.lexical e), _) := Prod.ext h rfl
  have hfollows := program_follows limit source
  rw [hprogram] at hfollows
  have hstops : Stops source (.lexical e) _ := hfollows
  cases hstops with
  | lexical split breaks position _ =>
      exact tokenize_eq_error_iff.mpr ⟨_, _, _, split, breaks, position⟩

/-- A text that is read has no lexical error. -/
theorem tokenize_of_parse {ns : List Node} (h : parse limit source = .ok ns) :
    tokenize source = .ok (Node.tokensAll ns) := by
  obtain ⟨-, hlexed, -⟩ := parse_eq_ok_iff.mp h
  exact tokenize_eq_ok_iff.mpr (lexed_eq_iff_spells.mp hlexed)

end Reader

end MiniLisp
