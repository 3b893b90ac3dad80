/-
# MiniLisp.Proofs.Command.Run — a program in a file and a program in memory.

The command runs the program in a file against standard input, and its output goes to a stream.  The
same text can be run in a session of its own that keeps its output in memory, with the same text to
read.  Without options and settings the command writes what the session keeps, to the last line
before a failure, and it ends as the session does: with status 0 and an empty error stream, or with
status 1 and the report of the very same failure.  There is one exception, which is no error of the
language: an integer too long to be converted.

Both ways the program talks to one and the same kind of console, for the reasons that are given
where it is defined.  What is left to show is that the command adds nothing to what comes out there,
takes nothing from it, and has no other way to end.
-/
import MiniLisp.Proofs.Command.NormalForm
import MiniLisp.Proofs.Session.Failures

namespace MiniLisp.Command

/-! ## Arguments and settings -/

/-- A name that begins with no dash asks for a plain run of the program. -/
theorem request_program {program : String} (h : program.toList.head? ≠ some '-') :
    request [program] = .run { program } := by
  -- every spelling of an option begins with a dash
  have hspelling : ∀ spelled ∈ spellings, (program != spelled.1) = true := by
    intro spelled hmem
    refine bne_iff_ne.mpr ?_
    rintro rfl
    revert h
    simp only [spellings, List.mem_cons, List.not_mem_nil, or_false] at hmem
    rcases hmem with rfl | rfl | rfl | rfl <;> decide
  have hlookup : spellings.lookup program = none := List.lookup_eq_none_iff.mpr hspelling
  have hclassify : classify program = .ok (.positional program) := by
    simp only [classify, hlookup]
    split
    · next heq => exact absurd (congrArg List.head? heq) h
    · rfl
  have hseparator : program ≠ "--" := by
    rintro rfl
    exact h rfl
  unfold request
  rw [classifyAll, if_neg hseparator, hclassify]
  rfl

/-- Where no log level is set there are no records of a run. -/
theorem records_of_unset {environment : Environment} (s : Session)
    (h : environment.lookup Settings.levelVariable = none) :
    records (Settings.logLevel environment) s = [] := by
  rw [Settings.logLevel, h]
  rfl

/-! ## Endings -/

/-- A run of the command ends as the result of a session says.  A value is status 0 and nothing on
the error stream, a failure is status 1 and its report under its heading. -/
inductive Ends (command : String) : Except Failure Value → Outcome → Prop
  | value {v : Value} {o : Outcome} (ending : o.ending = .exit 0)
      (stderr : o.stderrText command = "") : Ends command (.ok v) o
  | failure {f : Failure} {heading : String} {o : Outcome} (heading_of : f.heading? = some heading)
      (ending : o.ending = .exit 1)
      (stderr : o.stderrText command =
        "Encountered " ++ heading ++ ".\nMessage: " ++ f.message ++ "\n") :
      Ends command (.error f) o

section

variable {limits : Limits} {program input source : String} {level : Nat} {f : Failure} {v : Value}
  {s : Session}

/-- To process a text without options is to run it in a session. -/
theorem process_runProgram (limits : Limits) (program input source : String) :
    process limits { program } source (Session.start (.ofInput input)) =
      match Session.runProgram limits source input with
      | (.ok _, s) => (.ok "", s)
      | (.error f, s) => (.error f, s) := by
  have hserve : MiniLisp.Request.serve ⟨.run, limits, source⟩ (Session.start (.ofInput input)) =
      Session.runProgram limits source input := rfl
  rw [process_run, bind_apply, hserve]
  rcases Session.runProgram limits source input with ⟨_ | _, _⟩ <;> rfl

theorem runSource_of_value (h : Session.runProgram limits source input = (.ok v, s)) :
    runSource limits { program } level input source =
      { ending := .exit 0, stdout := s.console.output, stderr := records level s } := by
  have hprocess := process_runProgram limits program input source
  rw [h] at hprocess
  rw [runSource_ok hprocess, String.append_empty]

theorem runSource_of_failure (h : Session.runProgram limits source input = (.error f, s)) :
    runSource limits { program } level input source =
      { ending := endingOf f
        stdout := s.console.output
        stderr := records level s ++
          (f.heading?.elim [] fun heading => [.text (failureReport heading f)]) } := by
  have hprocess : process limits { program } source { console := .ofInput input } =
      (.error f, s) := by
    have hstart := process_runProgram limits program input source
    rw [h] at hstart
    exact hstart
  unfold runSource endingOf
  rw [hprocess]
  cases hheading : f.heading? with
  | none => simp [hheading]
  | some heading => simp [hheading]

/-- The failure of a program in a session is that of a request. -/
theorem escapes_of_runProgram (h : Session.runProgram limits source input = (.error f, s)) :
    f.Escapes ↔ ∃ e, Reader.parse limits.nesting source = .error (.lexical e) ∧ e.TooLong := by
  have hserve : (MiniLisp.Request.serve ⟨.run, limits, source⟩ (Session.start (.ofInput input))).1 =
      .error f := congrArg Prod.fst h
  exact MiniLisp.Request.escapes_iff _ hserve

/-- On a source text, without records, the command ends as a session does, unless the reader meets
an integer that is too long to be converted. -/
theorem runSource_ends_iff (name : String) (hlevel : ∀ s, records level s = []) :
    Ends name (Session.runProgram limits source input).1
        (runSource limits { program } level input source) ↔
      ∀ e, Reader.parse limits.nesting source = .error (.lexical e) → ¬e.TooLong := by
  rcases hrun : Session.runProgram limits source input with ⟨f | v, s⟩
  · rw [runSource_of_failure hrun, hlevel]
    constructor
    · rintro (_ | ⟨hheading, -, -⟩) e hparse hlong
      have hescapes : f.heading? = none := (escapes_of_runProgram hrun).mpr ⟨e, hparse, hlong⟩
      rw [hescapes] at hheading
      cases hheading
    · intro hshort
      have hheading : f.heading? ≠ none := by
        intro hescapes
        obtain ⟨e, hparse, hlong⟩ := (escapes_of_runProgram hrun).mp hescapes
        exact hshort e hparse hlong
      obtain ⟨heading, hheading⟩ := Option.ne_none_iff_exists'.mp hheading
      refine .failure hheading ?_ ?_
      · simp [endingOf, hheading]
      · simp [Outcome.stderrText, hheading, Notice.render, failureReport, String.join]
  · rw [runSource_of_value hrun, hlevel]
    refine ⟨fun _ e hparse => ?_, fun _ => .value rfl rfl⟩
    -- a text that is not read gives no value
    have hserve := congrArg Prod.fst (MiniLisp.Request.serve_of_unread (r := ⟨.run, limits, source⟩)
      hparse (Session.start (.ofInput input)))
    cases hserve.symm.trans (congrArg Prod.fst hrun)

end

/-! ## The command -/

/-- The command and a session of its own agree on every program.  Where the file is readable and
neither options nor settings are given, the command writes exactly what a session with the same text
to read keeps in memory, whether it fails or not.  It ends with the result of that session too: with
status 0 and an empty error stream, or with status 1 and the kind and the message of the same
failure.  Only where the reader meets an integer that is too long to be converted is there another
ending.  A plain run is asked for by the name of the file alone, if it does not begin with a dash. -/
theorem command_agrees_with_session (limits : Limits) (around : Surroundings)
    (program source name : String) (hopens : around.Opens program source)
    (hlevel : around.environment.lookup Settings.levelVariable = none) :
    (program.toList.head? ≠ some '-' → request [program] = .run { program }) ∧
    ∀ args, request args = .run { program } →
      let inMemory := Session.runProgram limits source around.input
      let outcome := run limits around args
      outcome.stdout = inMemory.2.console.kept .memory ∧
        (Ends name inMemory.1 outcome ↔
          ∀ e, Reader.parse limits.nesting source = .error (.lexical e) → ¬e.TooLong) := by
  refine ⟨request_program, fun args hargs => ?_⟩
  have hrun : run limits around args =
      runSource limits { program } (Settings.logLevel around.environment) around.input source :=
    run_of_opens hargs hopens
  have hquiet := fun s => records_of_unset s hlevel
  intro inMemory outcome
  refine ⟨?_, ?_⟩
  · show (run limits around args).stdout = _
    rw [hrun]
    rcases hsession : Session.runProgram limits source around.input with ⟨f | v, s⟩
    · rw [runSource_of_failure hsession]
      simp only [inMemory, hsession, Console.kept]
    · rw [runSource_of_value hsession]
      simp only [inMemory, hsession, Console.kept]
  · show Ends name inMemory.1 (run limits around args) ↔ _
    rw [hrun]
    exact runSource_ends_iff name hquiet

/-- A program that reads two lines and writes each of them, in a file. -/
def echoTwice : Surroundings where
  stdin := "a\r"
  read _ := .ok "(write (readline))\r(write (readline))".toUTF8

theorem echoTwice_opens : echoTwice.Opens "p" "(write (readline))\n(write (readline))" where
  depth := ⟨_, rfl, by decide⟩
  path := by decide
  text := by
    refine ⟨_, rfl, ?_⟩
    rw [decode, Text.decodeUtf8_toUTF8]
    rfl

theorem command_agrees_with_session_echoTwice :
    let outcome := run {} echoTwice ["p"]
    request ["p"] = .run { program := "p" } ∧ outcome.stdout = "a\n" ∧ outcome.ending = .exit 1 ∧
      outcome.stderrText "p" =
        "Encountered RuntimeError.\nMessage: readline reached the end of input\n" := by
  intro outcome
  obtain ⟨hrequest, hagree⟩ :=
    command_agrees_with_session {} echoTwice "p" _ "p" echoTwice_opens rfl
  have hargs := hrequest (by decide)
  obtain ⟨hstdout, hends⟩ := hagree ["p"] hargs
  have hns : (Node.program (echoLine ++ echoLine)).WellFormed := by decide
  have hparse : Reader.parse 10000 "(write (readline))\n(write (readline))" =
      .ok (echoLine ++ echoLine) :=
    (Reader.parse_of_spells hns hns.spells_format).trans (if_pos (by decide))
  -- the second line is the one that is missing
  have hserve := MiniLisp.Request.serve_of_parse (r := ⟨.run, {}, _⟩) hparse
    (Session.start (.ofInput echoTwice.input))
  have hsession : ∃ s,
      Session.runProgram {} "(write (readline))\n(write (readline))" echoTwice.input =
        (.error (.evaluation .endOfInput), s) ∧ s.console.output = "a\n" := ⟨_, hserve, rfl⟩
  obtain ⟨s, hsession, houtput⟩ := hsession
  rw [hsession] at hstdout hends
  have hread : ∀ e, Reader.parse ({} : Limits).nesting "(write (readline))\n(write (readline))" =
      .error (.lexical e) → ¬e.TooLong := by
    intro e he
    cases hparse.symm.trans he
  cases hends.mpr hread with
  | failure hheading hending hstderr =>
      cases hheading
      exact ⟨hargs, hstdout.trans houtput, hending, hstderr⟩

end MiniLisp.Command
