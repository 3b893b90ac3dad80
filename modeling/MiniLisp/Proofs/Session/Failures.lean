/-
# MiniLisp.Proofs.Session.Failures — how a request can fail.

A request ends with a value or with a failure, and a failure is reported under a heading if it is an
error of the language.  A nesting too deep is made one, so what is left is an integer with more
digits than are converted at all: the lexer does not catch the conversion, although such an integer
is out of range like the shorter ones that it refuses.  A request escapes exactly if its reader gets
as far as such an integer.

A session talks to a `Console`, which is about texts.  So the failures of streams are none of the
failures here: input that cannot be decoded, and output that cannot be encoded.
-/
import MiniLisp.Proofs.Node.Faults
import MiniLisp.Proofs.Session.Step
import MiniLisp.Proofs.Token.Faults

namespace MiniLisp

/-! ## Failures without a heading -/

/-- A failure that is no error of the language. -/
def Failure.Escapes (f : Failure) : Prop := f.heading? = none

/-- The lexical error of an integer that is too long to be converted. -/
def LexError.TooLong (e : LexError) : Prop := ∃ n, e.fault = .integerTooLong n

/-- Among lexical errors those of long integers are of another kind than the rest. -/
theorem LexError.kind_eq_lexical_iff (e : LexError) :
    (Failure.reading (.lexical e)).kind = .lexical ↔ ¬e.TooLong := by
  obtain ⟨fault, position⟩ := e
  cases fault <;> simp [LexError.TooLong, Failure.kind, Failure.kindOfReading]

/-- A text that cannot be read lets a request escape if it is for a long integer. -/
theorem escapes_reading_iff (e : ReadError) :
    (Session.reportDepth (.reading e)).Escapes ↔ ∃ e', e = .lexical e' ∧ e'.TooLong := by
  cases e with
  | lexical e =>
      obtain ⟨fault, position⟩ := e
      cases fault <;> simp [Session.reportDepth, Failure.Escapes, Failure.heading?, Failure.kind,
        Failure.kindOfReading, Failure.Kind.heading?, LexError.TooLong]
  | _ => simp [Session.reportDepth, Failure.Escapes, Failure.heading?, Failure.kind,
      Failure.kindOfReading, Failure.Kind.heading?]

/-- No error of an evaluation lets a request escape. -/
theorem not_escapes_evaluation (e : EvalError) :
    ¬(Session.reportDepth (.evaluation e)).Escapes := by
  cases e <;> simp [Session.reportDepth, Failure.Escapes, Failure.heading?, Failure.kind,
    Failure.kindOfEvaluation, Failure.Kind.heading?]

/-! ## Requests -/

namespace Session

/-- A failure of an evaluation. -/
def Evaluating (f : Failure) : Prop := ∃ e, f = .evaluation e

/-- A statement fails in its evaluation only. -/
theorem statement_evaluating (limits : Limits) {n : Node} (hn : ∀ ns, n ≠ .program ns)
    (s : Session) :
    (statement limits n).Ensures s (fun _ _ => True) fun f _ => Evaluating f := by
  rcases statement_cases limits s hn with ⟨operands, -, heq⟩ | ⟨e, -, heq⟩ | ⟨-, heq⟩
  · refine Step.ensures_of_eq heq ((install_ensures operands).mono (fun _ _ _ => trivial) ?_)
    rintro f s' ⟨⟨e, rfl, -⟩, -⟩
    exact ⟨e, rfl⟩
  · exact .of_error heq ⟨e, rfl⟩
  · refine Step.ensures_of_eq heq ?_
    refine (perform_ensures (eval s.tables limits.depth n scope)).mono (fun _ _ _ => trivial) ?_
    rintro f s' ⟨⟨e, rfl, -⟩, -⟩
    exact ⟨e, rfl⟩

end Session

/-- A request that fails escapes exactly if its text is not read for a long integer. -/
theorem Request.escapes_iff (r : Request) {s : Session} {f : Failure}
    (h : (r.serve s).1 = .error f) :
    f.Escapes ↔ ∃ e, Reader.parse r.limits.nesting r.source = .error (.lexical e) ∧ e.TooLong := by
  cases hparse : Reader.parse r.limits.nesting r.source with
  | error e =>
      rw [serve_of_unread hparse] at h
      obtain rfl : Session.reportDepth (.reading e) = f := Except.error.inj h
      rw [escapes_reading_iff]
      simp
  | ok ns =>
      rw [serve_of_parse hparse] at h
      have hns : ∀ n ∈ ns, n.Statement := (Reader.parse_eq_ok_iff.mp hparse).1
      -- the statements fail while they are evaluated
      have hexecute := execute_ensures (r := r) (I := fun _ => True) (V := fun _ => True)
        (F := Session.Evaluating) (v := .unit) (s := s.read ns) trivial
        (fun n hn s _ => (Session.statement_evaluating r.limits (hns n hn).ne_program s).mono
          (fun _ _ _ => ⟨trivial, trivial⟩) fun _ _ hf => ⟨hf, trivial⟩) trivial trivial
      obtain ⟨g, rfl, ⟨e, rfl⟩, -⟩ :=
        (Session.boundDepth_ensures hexecute).error (Prod.ext h rfl)
      simp [not_escapes_evaluation]

/-- A reader meets the lexical error of a text that begins with a bad lexeme. -/
theorem Reader.parse_of_breaks {limit : Nat} {source : String} {e : LexError}
    {front bad : List Char} (happ : source.toList = front ++ bad)
    (h : Breaks e.fault bad source.toList []) (hposition : e.position = Text.placeAfter front) :
    Reader.parse limit source = .error (.lexical e) := by
  have hpull : (TokenStream.ofText source).pull.1 = .error e :=
    (TokenStream.pull_eq_error_iff .start).mpr ⟨front, bad, happ, h, hposition⟩
  have hpeek : (TokenStream.ofText source).peek.1 = .error e :=
    TokenStream.peek_eq_error_iff.mpr ⟨rfl, hpull⟩
  rw [parse, program, statements]
  split
  · next hp =>
    rw [hp] at hpeek
    obtain rfl := Except.error.inj hpeek
    rfl
  · next hp =>
    rw [hp] at hpeek
    cases hpeek
  · next hp =>
    rw [hp] at hpeek
    cases hpeek

/-- A text of too many digits is neither tokenized nor read. -/
theorem unread_of_long_digits {source : String}
    (hall : ∀ c ∈ source.toList, Text.isDigit c = true)
    (hlong : Text.maxDigits < source.toList.length) :
    tokenize source = .error ⟨.integerTooLong source.toList.length, ⟨1, 1⟩⟩ ∧ ∀ limit,
      Reader.parse limit source =
        .error (.lexical ⟨.integerTooLong source.toList.length, ⟨1, 1⟩⟩) := by
  have hbad : BadLexeme (.integerTooLong source.toList.length) (source.toList ++ []) := by
    have hne : source.toList ≠ [] := by
      intro hnil
      simp [hnil] at hlong
    exact .numeral hne hall (.tooLong hlong) (by simp [WordEnds])
  rw [List.append_nil] at hbad
  have happ : source.toList = [] ++ source.toList := rfl
  have hbreaks : Breaks (.integerTooLong source.toList.length) source.toList source.toList [] :=
    breaks_nil_iff.mpr ⟨[], happ, by simp, hbad⟩
  exact ⟨tokenize_eq_error_iff.mpr ⟨[], [], _, happ, hbreaks, rfl⟩,
    fun limit => Reader.parse_of_breaks happ hbreaks rfl⟩

/-- The failures of requests are errors of the language, but for one, as long as the session reads
and writes texts: what a request fails with is an error of the language unless its reader meets an
integer that is too long to be converted.  A line of input that cannot be decoded and a line of
output that cannot be encoded are outside `Console`, and nothing is said of them.  Where no token
can be formed, tokenization and a stream fail with the line and the column of the bad lexeme, which
is where the text breaks; a stream does so when it is asked for this token, and then it is at its
end.  Of all these errors the one for a long integer is of another kind than lexical errors are.
-/
theorem only_long_integers_escape (r : Request) (s : Session) :
    ((∀ f, (r.serve s).1 = .error f → ¬f.Escapes) ↔
      ∀ e, Reader.parse r.limits.nesting r.source = .error (.lexical e) → ¬e.TooLong) ∧
    (∀ e, tokenize r.source = .error e ↔
      ∃ ts front bad, r.source.toList = front ++ bad ∧ Breaks e.fault bad r.source.toList ts ∧
        e.position = Text.placeAfter front) ∧
    (∀ t : TokenStream, t.Over r.source → ∀ e,
      (t.peek.1 = .error e ↔ t.advance.1 = .error e) ∧
      (t.advance.1 = .error e ↔ t.buffer = none ∧
        ∃ front bad, r.source.toList = front ++ bad ∧ Breaks e.fault bad t.rest [] ∧
          e.position = Text.placeAfter front)) ∧
    ∀ e, (Failure.reading (.lexical e)).kind = .lexical ↔ ¬e.TooLong := by
  refine ⟨⟨fun h e hparse hlong => ?_, fun h f hf hescapes => ?_⟩, fun e => tokenize_eq_error_iff,
    fun t ht e => ?_, LexError.kind_eq_lexical_iff⟩
  · have hserve := congrArg Prod.fst (Request.serve_of_unread hparse s)
    exact h _ hserve ((escapes_reading_iff _).mpr ⟨e, rfl, hlong⟩)
  · obtain ⟨e, hparse, hlong⟩ := (r.escapes_iff hf).mp hescapes
    exact h e hparse hlong
  · rw [TokenStream.peek_eq_error_iff, TokenStream.advance_eq_error_iff,
      TokenStream.pull_eq_error_iff ht]
    exact ⟨Iff.rfl, Iff.rfl⟩

/-- An integer with one digit more than can be converted. -/
def longInteger : String := String.ofList (List.replicate (Text.maxDigits + 1) '1')

/-- The error of the long integer. -/
def longIntegerError : LexError := ⟨.integerTooLong (Text.maxDigits + 1), ⟨1, 1⟩⟩

/-- The long integer cannot be tokenized, its error is of no lexical kind, and it lets a program
escape. -/
theorem long_integer_escapes :
    tokenize longInteger = .error longIntegerError ∧
      (Failure.reading (.lexical longIntegerError)).kind ≠ .lexical ∧
      (Request.serve ⟨.run, {}, longInteger⟩ (.start {})).1 =
        .error (.reading (.lexical longIntegerError)) ∧
      (Failure.reading (.lexical longIntegerError)).Escapes := by
  have hdigits : longInteger.toList = List.replicate (Text.maxDigits + 1) '1' :=
    String.toList_ofList
  have hlength : longInteger.toList.length = Text.maxDigits + 1 := by simp [hdigits]
  have hall : ∀ c ∈ longInteger.toList, Text.isDigit c = true := by
    rw [hdigits]
    intro c hc
    rw [List.eq_of_mem_replicate hc]
    decide
  obtain ⟨htokenize, hparse⟩ := unread_of_long_digits hall (by omega)
  rw [hlength] at htokenize hparse
  have hserve := Request.serve_of_unread (r := ⟨.run, {}, longInteger⟩) (hparse _) (.start {})
  have hreport : Session.reportDepth (.reading (.lexical longIntegerError)) =
      .reading (.lexical longIntegerError) := rfl
  refine ⟨htokenize, fun h => (LexError.kind_eq_lexical_iff _).mp h ⟨_, rfl⟩, ?_, rfl⟩
  rw [hserve, ← hreport]
  rfl

end MiniLisp
