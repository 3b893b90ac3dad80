/-
# MiniLisp.Proofs.Command.Debug — what the debug option changes.

The option asks for records, and records have no influence on a run.  But it also has the tokens of
the whole text made before anything is read, so that they can be recorded.  A reader asks for tokens
one by one and may find an error in the syntax before the lexer finds its own.  So with the option
the command ends in the same way exactly if the reader gets as far as the lexical error, where the
text has one.
-/
import MiniLisp.Command
import MiniLisp.Proofs.Node.Faults
import MiniLisp.Proofs.Session.Beside

namespace MiniLisp.Command

/-! ## Outcomes but for records -/

/-- The text of a notice that is no record. -/
def Notice.text? : Notice → Option String
  | .record _ => none
  | .text s => some s

/-- The error stream of a run when the records are removed. -/
def Outcome.plainStderr (o : Outcome) : String := String.join (o.stderr.filterMap Notice.text?)

/-- Outcomes that differ in records only. -/
structure Outcome.SameButRecords (o o' : Outcome) : Prop where
  ending : o.ending = o'.ending
  stdout : o.stdout = o'.stdout
  plainStderr : o.plainStderr = o'.plainStderr

theorem Outcome.SameButRecords.refl (o : Outcome) : o.SameButRecords o := ⟨rfl, rfl, rfl⟩

theorem records_plain (level : Nat) (s : Session) :
    (records level s).filterMap Notice.text? = [] := by
  unfold records
  split
  · simp [List.filterMap_map, Function.comp_def, Notice.text?]
  · rfl

/-! ## What shows of a failure -/

/-- How the command ends with a failure. -/
def endingOf (f : Failure) : Ending := f.heading?.elim (.escape (.failure f)) fun _ => .exit 1

/-- What the command reports of a failure. -/
def reportOf (f : Failure) : String := f.heading?.elim "" (failureReport · f)

theorem heading_cases {k : Failure.Kind} {h : String} (hk : k.heading? = some h) :
    h = "ParseError" ∨ h = "Tokenization Error" ∨ h = "RuntimeError" := by
  cases k <;> cases hk <;> simp

/-- The heading begins behind the first word of a report. -/
theorem report_letter {h : String} (hne : h.toList ≠ []) (f : Failure) :
    ((failureReport h f).toList.drop 12).head? = h.toList.head? := by
  obtain ⟨c, cs, hcs⟩ := List.exists_cons_of_ne_nil hne
  have hlength : "Encountered ".toList.length = 12 := rfl
  simp only [failureReport, String.toList_append, List.append_assoc, List.drop_left' hlength, hcs]
  rfl

/-- The first letters of the headings tell them apart. -/
theorem heading_of_report {k k' : Failure.Kind} {h h' : String} (hk : k.heading? = some h)
    (hk' : k'.heading? = some h') {f f' : Failure} (heq : failureReport h f = failureReport h' f') :
    h = h' := by
  have hcases := heading_cases hk
  have hcases' := heading_cases hk'
  have hne : h.toList ≠ [] := by rcases hcases with rfl | rfl | rfl <;> decide
  have hne' : h'.toList ≠ [] := by rcases hcases' with rfl | rfl | rfl <;> decide
  have hletter : h.toList.head? = h'.toList.head? := by
    rw [← report_letter hne f, heq, report_letter hne' f']
  rcases hcases with rfl | rfl | rfl <;> rcases hcases' with rfl | rfl | rfl <;>
    first | rfl | exact absurd hletter (by decide)

/-- Failures that show in the same way have the same heading, and without one they are the same. -/
theorem heading_of_shown {f f' : Failure} (hending : endingOf f = endingOf f')
    (hreport : reportOf f = reportOf f') :
    f.heading? = f'.heading? ∧ (f.heading? = none → f = f') := by
  unfold endingOf at hending
  unfold reportOf at hreport
  cases hf : f.heading? with
  | none =>
      cases hf' : f'.heading? with
      | none =>
          rw [hf, hf'] at hending
          cases hending
          exact ⟨rfl, fun _ => rfl⟩
      | some h' =>
          rw [hf, hf'] at hending
          cases hending
  | some h =>
      cases hf' : f'.heading? with
      | none =>
          rw [hf, hf'] at hending
          cases hending
      | some h' =>
          rw [hf, hf'] at hreport
          obtain rfl : h = h' := heading_of_report hf hf' hreport
          exact ⟨rfl, nofun⟩

/-! ## Source texts -/

/-- How the processing of a source text fails that cannot be read. -/
def unread (tree : Bool) (e : ReadError) : Failure :=
  if tree then .reading e else Session.reportDepth (.reading e)

theorem unread_eq_reading {tree : Bool} {e e' : ReadError} (h : .reading e = unread tree e') :
    e = e' := by
  cases tree with
  | true => exact Failure.reading.inj h
  | false =>
      cases e' with
      | tooDeep => cases h
      | _ => exact Failure.reading.inj h

/-- A failure under the heading of lexical errors is a lexical error. -/
theorem lexical_of_heading {tree : Bool} {e : ReadError}
    (h : (unread tree e).heading? = some "Tokenization Error") : ∃ e', e = .lexical e' := by
  cases e with
  | lexical e' => exact ⟨e', rfl⟩
  | _ => cases tree <;> simp [unread, Session.reportDepth, Failure.heading?, Failure.kind,
      Failure.kindOfReading, Failure.Kind.heading?] at h

/-- Nothing but a lexical error shows like one. -/
theorem lexical_of_shown {tree : Bool} {e : LexError} {e' : ReadError}
    (hending : endingOf (.reading (.lexical e)) = endingOf (unread tree e'))
    (hreport : reportOf (.reading (.lexical e)) = reportOf (unread tree e')) :
    ∃ e'', e' = .lexical e'' := by
  obtain ⟨hheading, hsame⟩ := heading_of_shown hending hreport
  obtain ⟨fault, position⟩ := e
  cases fault with
  | integerTooLong n => exact ⟨_, (unread_eq_reading (hsame rfl)).symm⟩
  | _ => exact lexical_of_heading hheading.symm

section

variable {limits : Limits} {o : Options} {level : Nat} {input source : String} {s s' : Session}

theorem runSource_ok {printed : String}
    (h : process limits o source (Session.start (.ofInput input)) = (.ok printed, s)) :
    runSource limits o level input source =
      { ending := .exit 0, stdout := s.console.output ++ printed, stderr := records level s } := by
  have h' : process limits o source { console := .ofInput input } = (.ok printed, s) := h
  rw [runSource, h']

theorem runSource_error (level : Nat) {f : Failure}
    (h : process limits o source (Session.start (.ofInput input)) = (.error f, s)) :
    (runSource limits o level input source).ending = endingOf f ∧
      (runSource limits o level input source).stdout = s.console.output ∧
      (runSource limits o level input source).plainStderr = reportOf f := by
  have h' : process limits o source { console := .ofInput input } = (.error f, s) := h
  rw [runSource, h']
  unfold endingOf reportOf
  cases hheading : f.heading? with
  | none => simp [hheading, Outcome.plainStderr, records_plain]
  | some heading => simp [hheading, Outcome.plainStderr, records_plain, Notice.text?]

/-- Processing that ends alike leaves outcomes that differ in records only. -/
theorem runSource_alike {o' : Options} {level' : Nat}
    (h : Step.EndAlike (· = ·) (· = ·)
      (process limits o source (Session.start (.ofInput input)))
      (process limits o' source (Session.start (.ofInput input)))) :
    (runSource limits o level input source).SameButRecords
      (runSource limits o' level' input source) := by
  rcases hp : process limits o source (Session.start (.ofInput input)) with ⟨r, s⟩
  rcases hp' : process limits o' source (Session.start (.ofInput input)) with ⟨r', s'⟩
  rw [hp, hp'] at h
  obtain ⟨hresults, hsessions⟩ := h
  cases hresults with
  | @ok printed printed' heq =>
      rw [runSource_ok hp, runSource_ok hp']
      refine ⟨rfl, ?_, ?_⟩
      · show s.console.output ++ printed = s'.console.output ++ printed'
        rw [heq, hsessions.console]
      · simp [Outcome.plainStderr, records_plain]
  | @error f f' heq =>
      obtain rfl : f = f' := heq
      obtain ⟨hending, hstdout, hplain⟩ := runSource_error level hp
      obtain ⟨hending', hstdout', hplain'⟩ := runSource_error level' hp'
      exact ⟨hending.trans hending'.symm,
        (hstdout.trans (congrArg Console.output hsessions.console)).trans hstdout'.symm,
        hplain.trans hplain'.symm⟩

theorem recordTokens_apply (source : String) (s : Session) :
    recordTokens source s = match tokenize source with
      | .ok ts => (.ok (), { s with events := s.events ++ [.tokens ts] })
      | .error e => (.error (.reading (.lexical e)), s) := by
  unfold recordTokens
  cases tokenize source <;> rfl

/-- With the option the tokens come first, and then all goes on as without it. -/
theorem process_debug (limits : Limits) (tree : Bool) (program source : String) :
    process limits { debug := true, emitTree := tree, program } source = (do
      recordTokens source
      process limits { emitTree := tree, program } source) := rfl

theorem process_tree (limits : Limits) (program source : String) :
    process limits { emitTree := true, program } source = (do
      let ns ← Session.parse limits source
      return Node.layout Node.defaultWidth 0 (.program ns) ++ "\n") := rfl

theorem process_run (limits : Limits) (program source : String) :
    process limits { emitTree := false, program } source = (do
      let _ ← MiniLisp.Request.serve ⟨.run, limits, source⟩
      return "") := rfl

/-- A text that cannot be read fails without a trace. -/
theorem process_unread {e : ReadError} (h : Reader.parse limits.nesting source = .error e)
    (tree : Bool) (program : String) (s : Session) :
    process limits { emitTree := tree, program } source s = (.error (unread tree e), s) := by
  cases tree with
  | true =>
      rw [process_tree, bind_apply, Session.parse_apply, h]
      rfl
  | false =>
      have hserve := MiniLisp.Request.serve_apply ⟨.run, limits, source⟩ s
      rw [h] at hserve
      rw [process_run, bind_apply, hserve]
      rfl

/-- What a session has recorded has no influence on the processing of a text. -/
theorem process_unrecorded (limits : Limits) (tree : Bool) (program source : String)
    (h : s.Beside (· = ·) s') :
    Step.EndAlike (· = ·) (· = ·) (process limits { emitTree := tree, program } source s)
      (process limits { emitTree := tree, program } source s') := by
  cases tree with
  | true =>
      rw [process_tree]
      refine .bind (Session.parse_alike source h) ?_
      rintro ns _ s₁ s₁' rfl h₁
      exact .ok rfl h₁
  | false =>
      rw [process_run]
      refine .bind (MiniLisp.Request.serve_unrecorded _ h) ?_
      rintro v _ s₁ s₁' rfl h₁
      exact .ok rfl h₁

/-- On a source text the option adds records and no more, exactly if the reader gets as far as the
lexical error of the text, where it has one. -/
theorem runSource_debug_iff (limits : Limits) (tree : Bool) (program : String) (level level' : Nat)
    (input source : String) :
    (runSource limits { debug := true, emitTree := tree, program } level input source).SameButRecords
        (runSource limits { emitTree := tree, program } level' input source) ↔
      ∀ e, tokenize source = .error e →
        Reader.parse limits.nesting source = .error (.lexical e) := by
  have hdebug := process_debug limits tree program source
  cases htokens : tokenize source with
  | ok ts =>
      refine ⟨fun _ => nofun, fun _ => runSource_alike ?_⟩
      rw [hdebug, bind_apply, recordTokens_apply, htokens]
      exact process_unrecorded limits tree program source ⟨rfl, rfl, rfl⟩
  | error e =>
      have hprocess (s : Session) : process limits { debug := true, emitTree := tree, program }
          source s = (.error (.reading (.lexical e)), s) := by
        rw [hdebug, bind_apply, recordTokens_apply, htokens]
      cases hparse : Reader.parse limits.nesting source with
      | ok ns =>
          rw [Reader.tokenize_of_parse hparse] at htokens
          cases htokens
      | error e' =>
          have hprocess' := process_unread hparse tree program
          constructor
          · rintro ⟨hending, -, hplain⟩ _ ⟨⟩
            obtain ⟨hending₁, -, hplain₁⟩ := runSource_error level (hprocess _)
            obtain ⟨hending₂, -, hplain₂⟩ := runSource_error level' (hprocess' _)
            rw [hending₁, hending₂] at hending
            rw [hplain₁, hplain₂] at hplain
            obtain ⟨e'', rfl⟩ := lexical_of_shown hending hplain
            -- there is one lexical error in a text
            rw [Reader.tokenize_of_parse_lexical hparse] at htokens
            cases htokens
            rfl
          · intro h
            obtain rfl : e' = .lexical e := Except.error.inj (h e rfl)
            refine runSource_alike ?_
            rw [hprocess, hprocess']
            cases tree <;> exact .error ⟨rfl, rfl, rfl⟩

end

/-! ## Arguments -/

/-- The request with the debug option. -/
def Request.withDebug : Request → Request
  | .run o => .run { o with debug := true }
  | r => r

theorem takeJoined_withDebug (letters : List Char) :
    (takeJoined letters).withDebug = takeJoined letters := by
  induction letters with
  | nil => rfl
  | cons c rest ih =>
      rw [takeJoined]
      split
      · exact ih
      · rfl

/-- The option is kept while the other arguments are taken. -/
theorem take_debug (taken : Taken) (words : List Word) :
    take { taken with debug := true } words = (take taken words).withDebug := by
  fun_induction take taken words with
  | case1 taken h => simp [take, h, Request.withDebug]
  | case2 taken program h hextras | case3 taken program h hextras =>
      simp [take, h, hextras, Request.withDebug]
  | case4 | case5 => rfl
  | case6 taken rest ih | case7 taken rest ih | case9 taken text rest ih => exact ih
  | case8 taken letters rest => exact (takeJoined_withDebug letters).symm
  -- a program is taken, or it comes too late
  | case10 taken text rest h ih | case14 taken text rest h ih =>
      rw [take, if_pos h]
      exact ih
  | case11 taken text rest h ih | case15 taken text rest h ih =>
      rw [take, if_neg h]
      exact ih
  | case12 taken text rest hnext h ih =>
      rw [take, if_pos h]
      · exact ih
      · exact hnext
  | case13 taken text rest hnext h ih =>
      rw [take, if_neg h]
      · exact ih
      · exact hnext
  | case16 taken rest hnext ih =>
      rw [take]
      · exact ih
      · exact hnext

/-- The option in front of the arguments asks for the same with records. -/
theorem request_debug (args : List String) :
    request ("--debug" :: args) = (request args).withDebug := by
  have hclassify : classify "--debug" = .ok (.option .debug none) := rfl
  unfold request
  rw [classifyAll, if_neg (by decide), hclassify]
  cases classifyAll args with
  | error e => rfl
  | ok words => exact take_debug {} words

/-! ## The command -/

section

variable {limits : Limits} {around : Surroundings} {o : Options} {source : String}

/-- The command gets as far as the source text of the program: the depth can be set, and the program
can be read. -/
structure Surroundings.Opens (around : Surroundings) (program source : String) : Prop where
  depth : ∃ n, Settings.depth around.environment = .ok n ∧ n ≤ Settings.maxDepth
  path : '\x00' ∉ program.toList
  text : ∃ bytes, around.read (Path.ofString program) = .ok bytes ∧ decode bytes = .ok source

theorem Surroundings.Opens.unique {program source' : String} (h : around.Opens program source)
    (h' : around.Opens program source') : source = source' := by
  obtain ⟨bytes, hbytes, hdecode⟩ := h.text
  obtain ⟨bytes', hbytes', hdecode'⟩ := h'.text
  obtain rfl : bytes = bytes' := Except.ok.inj (hbytes.symm.trans hbytes')
  exact Except.ok.inj (hdecode.symm.trans hdecode')

/-- The text that the program can read. -/
def Surroundings.input (around : Surroundings) : String :=
  String.ofList (Text.unifyNewlines around.stdin.toList)

theorem runOptions_of_opens (h : around.Opens o.program source) :
    runOptions limits around o = runSource limits o
      (if o.debug then Settings.debugLevel else Settings.logLevel around.environment) around.input
      source := by
  obtain ⟨hdepth, hpath, bytes, hbytes, hdecode⟩ := h
  have hcheck : checkDepth around.environment = .ok () := checkDepth_eq_ok_iff.mpr hdepth
  simp [runOptions, hcheck, hpath, hbytes, hdecode, Surroundings.input]

/-- Where there is no source text the option is not looked at. -/
theorem runOptions_of_not_opens (h : ∀ source, ¬around.Opens o.program source) :
    runOptions limits around { o with debug := true } = runOptions limits around o := by
  unfold runOptions
  cases hcheck : checkDepth around.environment with
  | error e => rfl
  | ok =>
      by_cases hpath : '\x00' ∈ o.program.toList
      · simp [hpath]
      · cases hread : around.read (Path.ofString o.program) with
        | error fault => simp [hread]
        | ok bytes =>
            cases hdecode : decode bytes with
            | error reason => simp [hread, hdecode]
            | ok source =>
                have hdepth := checkDepth_eq_ok_iff.mp hcheck
                exact absurd ⟨hdepth, hpath, bytes, hread, hdecode⟩ (h source)

/-- On a program the option adds records and no more, exactly if the reader gets as far as the
lexical error of its text. -/
theorem runOptions_debug_iff (limits : Limits) (around : Surroundings) (hquiet : o.debug = false) :
    (runOptions limits around { o with debug := true }).SameButRecords
        (runOptions limits around o) ↔
      ∀ source e, around.Opens o.program source → tokenize source = .error e →
        Reader.parse limits.nesting source = .error (.lexical e) := by
  obtain ⟨debug, tree, program⟩ := o
  obtain rfl : debug = false := hquiet
  by_cases hopens : ∃ source, around.Opens program source
  · obtain ⟨source, hsource⟩ := hopens
    rw [runOptions_of_opens (o := { debug := true, emitTree := tree, program }) hsource,
      runOptions_of_opens (o := { emitTree := tree, program }) hsource, runSource_debug_iff]
    constructor
    · intro h source' e hsource' he
      obtain rfl := hsource.unique hsource'
      exact h e he
    · exact fun h e he => h source e hsource he
  · have hnot : ∀ source, ¬around.Opens program source := fun source h => hopens ⟨source, h⟩
    rw [runOptions_of_not_opens (o := { emitTree := tree, program }) hnot]
    exact ⟨fun _ source e h => absurd h (hnot source), fun _ => .refl _⟩

end

/-- The debug option adds records and changes nothing else, on all programs but these: the text has
a lexical error, and the reader does not get there, since it finds an error in the syntax or has no
room for the nesting before.  With the option the command then ends with the lexical error in place
of the other.

Room is counted while a text is read and while it is evaluated, and not while its tree is printed
for a record.  So nothing is said here of a tree that nests too deep to be printed, though it can be
read and evaluated. -/
theorem debug_adds_records_iff (limits : Limits) (around : Surroundings) (args : List String) :
    (run limits around ("--debug" :: args)).SameButRecords (run limits around args) ↔
      ∀ o source e, request args = .run o → o.debug = false → around.Opens o.program source →
        tokenize source = .error e → Reader.parse limits.nesting source = .error (.lexical e) := by
  unfold run
  rw [request_debug]
  cases hrequest : request args with
  | help => exact ⟨fun _ => nofun, fun _ => .refl _⟩
  | refuse e => exact ⟨fun _ => nofun, fun _ => .refl _⟩
  | run o =>
      show (runOptions limits around { o with debug := true }).SameButRecords
        (runOptions limits around o) ↔ _
      cases hdebug : o.debug with
      | true =>
          have hsame : { o with debug := true } = o := by rw [← hdebug]
          rw [hsame]
          refine ⟨fun _ => ?_, fun _ => .refl _⟩
          rintro _ source e ⟨⟩ hquiet
          rw [hdebug] at hquiet
          cases hquiet
      | false =>
          rw [runOptions_debug_iff limits around hdebug]
          constructor
          · rintro h _ source e ⟨⟩ -
            exact h source e
          · exact fun h source e => h o source e rfl hdebug

/-- A program of which the reader accepts nothing and the lexer only the first character. -/
def misplacedQuote : Surroundings where
  read _ := .ok ⟨#[')'.toUInt8, ' '.toUInt8, '"'.toUInt8]⟩

theorem misplacedQuote_opens : misplacedQuote.Opens "p" ") \"" where
  depth := ⟨_, rfl, by decide⟩
  path := by decide
  text := ⟨_, rfl, rfl⟩

/-- With the debug option the error in the syntax is hidden by a lexical error behind it. -/
theorem debug_hides_syntax_error :
    ¬(run {} misplacedQuote ["--debug", "p"]).SameButRecords (run {} misplacedQuote ["p"]) := by
  intro h
  have hiff := runOptions_debug_iff {} misplacedQuote (o := { program := "p" }) rfl
  have hsyntax : Reader.parse 10000 ") \"" = .error .unexpectedClose := by
    have hpeek : (TokenStream.ofText ") \"").peek = (.ok (some .closeParen), _) := rfl
    rw [Reader.parse, Reader.program, Reader.statements_step hpeek]
    rfl
  have hlexical : tokenize ") \"" = .error ⟨.unterminatedString, ⟨1, 3⟩⟩ := by
    have hclose : scan ") \"".toList = .token .closeParen [' ', '"'] := rfl
    have hquote : scan [' ', '"'] = .fault .unterminatedString 1 := rfl
    rw [tokenize, tokensFrom_eq, lexed_token hclose, lexed_fault hquote]
    rfl
  have hparse := hiff.mp h _ _ misplacedQuote_opens hlexical
  rw [show Reader.parse ({} : Limits).nesting ") \"" = _ from hsyntax] at hparse
  cases hparse

end MiniLisp.Command
