/-
# MiniLisp.Proofs.Node.FirstFault — the error that is reported for a text.

A row of tokens can be continued if some text is read whose tokens begin with it.  The machine of
the grammar knows these rows: they are the ones that lead to a stage.  So in front of the token that
a reader stops at some program could still go on, and with it none can.  A lexical error is met only
where a program could go on too, and the tokens run out only in the middle of a program.
-/
import MiniLisp.Failure
import MiniLisp.Proofs.Node.Faults

namespace MiniLisp

open Stage (run inside)

/-! ## Rows that are read -/

/-- A row of tokens that is read, with room enough, as the tokens of some text. -/
def Accepted (row : List Token) : Prop :=
  ∃ source, tokenize source = .ok row ∧ ∃ limit ns, Reader.parse limit source = .ok ns

/-- A row of tokens with which some row that is read begins. -/
def Viable (row : List Token) : Prop := ∃ whole, Accepted whole ∧ row <+: whole

section

variable {row us : List Token} {cause : LexFault} {bad text : List Char} {ts : List Token}

theorem Phrase.Lexical.append (h : Phrase.Lexical row) (h' : Phrase.Lexical us) :
    Phrase.Lexical (row ++ us) := by
  intro t ht
  rcases List.mem_append.mp ht with ht | ht
  · exact h t ht
  · exact h' t ht

theorem Breaks.lexical (h : Breaks cause bad text ts) : Phrase.Lexical ts := by
  induction h with
  | here _ _ => simp [Phrase.Lexical]
  | cons _ lexeme_of _ _ ih => exact List.forall_mem_cons.mpr ⟨⟨_, lexeme_of⟩, ih⟩

/-- The rows that are read are the rows of statements that can be written. -/
theorem accepted_iff : Accepted row ↔ Phrase.Program row ∧ Phrase.Lexical row := by
  constructor
  · rintro ⟨source, htokens, limit, ns, hparse⟩
    obtain ⟨hsplit, hstatements⟩ := Phrase.splits_of_parse hparse
    obtain rfl := Except.ok.inj (htokens.symm.trans hsplit)
    exact ⟨⟨_, rfl, hstatements⟩, .of_tokenize htokens⟩
  · rintro ⟨⟨rows, rfl, hstatements⟩, hlex⟩
    obtain ⟨ns, hns, rfl⟩ := Phrase.exists_nodes fun row hrow =>
      (hstatements row hrow).exists_node (hlex.of_mem_flatten hrow)
    -- the text that is printed for the trees has their tokens
    have hwellFormed : (Node.program ns).WellFormed := hns
    have hspells := hwellFormed.spells_format
    refine ⟨(Node.program ns).format, ?_, Node.nestingAll ns, ns, ?_⟩
    · rw [tokenize_eq_ok_iff, ← Node.tokensAll_eq_flatten]
      exact hspells
    · exact (Reader.parse_of_spells hns hspells).trans (if_pos (Nat.le_refl _))

theorem Stage.lexical_completion (st : Stage) : Phrase.Lexical st.completion := by
  have hopen : ∃ lexeme, Token.openParen.Lexeme lexeme := ⟨_, .openParen⟩
  have hclose : ∃ lexeme, Token.closeParen.Lexeme lexeme := ⟨_, .closeParen⟩
  have hname : ∃ lexeme, (Token.symbol "f").Lexeme lexeme :=
    ⟨_, IsName.lexeme (x := "f") (by decide)⟩
  intro t ht
  cases st with
  | inside depth =>
      rw [List.eq_of_mem_replicate ht]
      exact hclose
  | opened | name | paramList | params =>
      simp only [Stage.completion, List.mem_cons, List.not_mem_nil, or_false] at ht
      rcases ht with rfl | rfl | rfl | rfl <;> assumption

/-- A row can be continued exactly if it leads to a stage. -/
theorem viable_iff : Viable row ↔ Phrase.Lexical row ∧ ∃ st, run (inside 0) row = some st := by
  constructor
  · rintro ⟨_, haccepted, us, rfl⟩
    obtain ⟨hprogram, hlex⟩ := accepted_iff.mp haccepted
    have hrun := Stage.run_eq_some_iff.mpr hprogram
    rw [Stage.run_append, Option.bind_eq_some_iff] at hrun
    obtain ⟨st, hst, -⟩ := hrun
    exact ⟨fun t ht => hlex t (List.mem_append_left us ht), st, hst⟩
  · rintro ⟨hlex, st, hst⟩
    refine ⟨row ++ st.completion, accepted_iff.mpr ⟨?_, hlex.append st.lexical_completion⟩,
      List.prefix_append _ _⟩
    rw [← Stage.run_eq_some_iff, Stage.run_append, hst]
    exact st.run_completion

/-- A row that leads between two statements is read. -/
theorem accepted_iff_run :
    Accepted row ↔ Phrase.Lexical row ∧ run (inside 0) row = some (inside 0) := by
  rw [accepted_iff, Stage.run_eq_some_iff, and_comm]

end

/-! ## Texts that are not read -/

/-- An error in the syntax stands at a token, or at the end of the tokens. -/
theorem kindOfReading_eq_parse_iff {e : ReadError} :
    Failure.kindOfReading e = .parse ↔ (∃ t, e.cause = .token t) ∨ e.cause = .ended := by
  cases e with
  | lexical e =>
      obtain ⟨fault, position⟩ := e
      cases fault <;> simp [Failure.kindOfReading, ReadError.cause]
  | _ => simp [Failure.kindOfReading, ReadError.cause]

/-- The reader reports the first fault of a text.  If it stops at a token, then some program begins
with the tokens in front of it and none with this one behind them, and nothing of the text is
scanned but them.  If it stops at a lexical error, then some program begins with all tokens in front
of the bad lexeme.  If the tokens ran out, then the text has no lexical error, and its tokens are no
program but the beginning of one.  An error in the syntax is of the first or the last sort. -/
theorem first_fault_is_reported {limit : Nat} {source : String} {e : ReadError} {s : TokenStream}
    (h : Reader.program limit (.ofText source) = (.error e, s)) :
    (Failure.kindOfReading e = .parse ↔ (∃ t, e.cause = .token t) ∨ e.cause = .ended) ∧
    (∀ t, e.cause = .token t → ∃ before, Viable before ∧ ¬Viable (before ++ [t]) ∧
      Scans source.toList (before ++ [t]) s.rest ∧ s.buffer = none) ∧
    (∀ err, e.cause = .lexical err → ∃ before front bad, Viable before ∧
      source.toList = front ++ bad ∧ Breaks err.fault bad source.toList before ∧
        err.position = Text.placeAfter front) ∧
    (e.cause = .ended → ∃ ts, tokenize source = .ok ts ∧ ¬Accepted ts ∧
      ∃ whole, Accepted whole ∧ ts <+: whole ∧ ts ≠ whole) := by
  have hfollows := Reader.program_follows limit source
  rw [h] at hfollows
  have hstops : Reader.Stops source e.cause s := hfollows
  refine ⟨kindOfReading_eq_parse_iff, fun t ht => ?_, fun err herr => ?_, fun hended => ?_⟩
  · rw [ht] at hstops
    cases hstops with
    | @token _ _ ts st behind buffer stage stuck =>
      have hlex := behind.lexical
      refine ⟨ts, ?_, ?_, ?_, buffer⟩
      · exact viable_iff.mpr ⟨fun u hu => hlex u (List.mem_append_left _ hu), st, stage⟩
      · rintro hviable
        obtain ⟨-, st', hst'⟩ := viable_iff.mp hviable
        rw [Stage.run_concat stage, stuck] at hst'
        cases hst'
      · have hscans := behind.scans
        rwa [buffer, Option.toList_none, List.append_nil] at hscans
  · rw [herr] at hstops
    cases hstops with
    | lexical split breaks position stage =>
      exact ⟨_, _, _, viable_iff.mpr ⟨breaks.lexical, _, stage⟩, split, breaks, position⟩
  · rw [hended] at hstops
    cases hstops with
    | @ended _ ts st tokens stage unfinished =>
      have hunread : ¬Accepted ts := by
        intro haccepted
        obtain ⟨-, hrun⟩ := accepted_iff_run.mp haccepted
        exact unfinished (Option.some.inj (stage.symm.trans hrun))
      obtain ⟨whole, hwhole, hbegins⟩ := viable_iff.mpr ⟨.of_tokenize tokens, _, stage⟩
      exact ⟨_, tokens, hunread, whole, hwhole, hbegins, fun heq => hunread (heq ▸ hwhole)⟩

/-- A parenthesis that closes nothing is reported, and the string behind it that does not end is not
looked at. -/
theorem first_fault_is_reported_strayClose :
    (∃ before, Viable before ∧ ¬Viable (before ++ [.closeParen]) ∧
      Scans "a)\"x".toList (before ++ [.closeParen]) ['"', 'x']) ∧
    Failure.kindOfReading .unexpectedClose = .parse := by
  have hfirst : (TokenStream.ofText "a)\"x").peek = (.ok (some (.symbol "a")), _) := rfl
  have hsecond : ({ source := "a)\"x".toList, rest := [')', '"', 'x'] } : TokenStream).peek =
      (.ok (some .closeParen), _) := rfl
  have hread : Reader.program 1 (.ofText "a)\"x") =
      (.error .unexpectedClose, { source := "a)\"x".toList, rest := ['"', 'x'] }) :=
    (Reader.statements_step hfirst).trans (Reader.statements_step hsecond)
  obtain ⟨hkind, htoken, -, -⟩ := first_fault_is_reported hread
  obtain ⟨before, hviable, hdead, hscans, -⟩ := htoken .closeParen rfl
  exact ⟨⟨before, hviable, hdead, hscans⟩, hkind.mpr (.inl ⟨_, rfl⟩)⟩

end MiniLisp
