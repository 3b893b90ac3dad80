/-
# MiniLisp.Proofs.Command.NormalForm — a program in normal form stands for the program.

The command prints a program in normal form where it is asked for the tree.  It reads no input for
this and evaluates nothing.  What it prints can be stored as a file of its own, and then the command
cannot tell the two files apart: it makes the same tokens and the same tree of both.  This takes that
the text comes back from its bytes, and that no line end is unified in it, since a carriage return is
printed only where one was read, and of a file none is left when it is read.
-/
import MiniLisp.Proofs.Command.Debug
import MiniLisp.Proofs.Node.Characters
import MiniLisp.Proofs.Text.Utf8

namespace MiniLisp.Command

/-! ## The normal form -/

/-- The text that stands for a program. -/
def normalText (ns : List Node) : String :=
  Node.layout Node.defaultWidth 0 (.program ns) ++ "\n"

section

variable {limit : Nat} {source : String} {ns : List Node}

theorem spells_normalText (hns : (Node.program ns).WellFormed) :
    Spells (normalText ns).toList (Node.tokensAll ns) := by
  have hpiece : Piece (Node.layout Node.defaultWidth 0 (.program ns)) (Node.tokensAll ns) :=
    Spells.piece (hns.spells_layout 0)
  have hblank : ∀ c ∈ ['\n'], Text.isBlank c = true := by simp; decide
  have hspells := hpiece ['\n'] [] (wordEnds_of_blank (by decide)) (.nil hblank)
  rw [List.append_nil] at hspells
  rw [normalText, String.toList_append]
  exact hspells

/-- The normal form of a program is read as the program. -/
theorem parse_normalText (h : Reader.parse limit source = .ok ns) :
    Reader.parse limit (normalText ns) = .ok ns := by
  obtain ⟨hns, -, hroom⟩ := Reader.parse_eq_ok_iff.mp h
  rw [Reader.parse_of_spells hns (spells_normalText hns)]
  exact if_pos hroom

/-- Of a text without carriage returns the normal form has none. -/
theorem normalText_noReturn (h : Reader.parse limit source = .ok ns)
    (hsource : '\r' ∉ source.toList) : '\r' ∉ (normalText ns).toList := by
  have hplain : Text.Plain (· ≠ '\r') :=
    ⟨by decide, by decide, by decide, by decide, by rintro _ h rfl; exact absurd h (by decide)⟩
  obtain ⟨hns, hlexed, -⟩ := Reader.parse_eq_ok_iff.mp h
  have htokens : (Node.program ns).Consists (· ≠ '\r') :=
    (lexed_eq_iff_spells.mp hlexed).consists hplain fun c hc => ne_of_mem_of_not_mem hc hsource
  have htext : Text.Consists (· ≠ '\r') (normalText ns) :=
    (Node.WellFormed.consists_layout hns hplain htokens 0).append hplain.consists_lineFeed
  exact fun hmem => htext _ hmem rfl

end

/-! ## Files -/

theorem decode_toUTF8 {text : String} (h : '\r' ∉ text.toList) : decode text.toUTF8 = .ok text := by
  simp only [decode, Text.decodeUtf8_toUTF8, Text.unifyNewlines_of_not_mem h, String.ofList_toList]

/-- No carriage return is left in the text of a file. -/
theorem noReturn_of_decode {bytes : ByteArray} {source : String} (h : decode bytes = .ok source) :
    '\r' ∉ source.toList := by
  unfold decode at h
  split at h
  · cases h
    rw [String.toList_ofList]
    exact Text.not_mem_unifyNewlines _
  · cases h

/-- The surroundings with a text stored in a file. -/
def Surroundings.store (around : Surroundings) (name text : String) : Surroundings :=
  { around with
    read := fun p => if p = Path.ofString name then .ok text.toUTF8 else around.read p }

theorem Surroundings.Opens.store {around : Surroundings} {program source name text : String}
    (h : around.Opens program source) (hname : '\x00' ∉ name.toList) (htext : '\r' ∉ text.toList) :
    (around.store name text).Opens name text where
  depth := h.depth
  path := hname
  text := ⟨text.toUTF8, if_pos rfl, decode_toUTF8 htext⟩

/-! ## Runs -/

section

variable {limits : Limits} {o o' : Options} {source source' : String}

/-- Nothing is done for the tree of a program but to print it and to record what happens: the table
and the console stay as they are. -/
theorem process_emits {ns : List Node} (htree : o.emitTree = true)
    (hparse : Reader.parse limits.nesting source = .ok ns) :
    ∃ news, ∀ s : Session, process limits o source s =
      (.ok (normalText ns), { s with events := s.events ++ news }) := by
  obtain ⟨debug, tree, program⟩ := o
  obtain rfl : tree = true := htree
  have hquiet (s : Session) : process limits { emitTree := true, program } source s =
      (.ok (normalText ns), s.read ns) := by
    rw [process_tree, bind_apply, Session.parse_apply, hparse]
    rfl
  cases debug with
  | false => exact ⟨_, hquiet⟩
  | true =>
      refine ⟨[.tokens (Node.tokensAll ns), .parsed ns], fun s => ?_⟩
      rw [process_debug, bind_apply, recordTokens_apply, Reader.tokenize_of_parse hparse]
      simp only [hquiet, Session.read, List.append_assoc, List.singleton_append]

/-- What the options ask for is done with the tokens and the tree of a text, and with nothing else of
it. -/
theorem runSource_congr (hdebug : o.debug = o'.debug) (htree : o.emitTree = o'.emitTree)
    (hparse : Reader.parse limits.nesting source = Reader.parse limits.nesting source')
    (htokens : tokenize source = tokenize source') (level : Nat) (input : String) :
    runSource limits o level input source = runSource limits o' level input source' := by
  have hprocess : process limits o source = process limits o' source' := by
    simp only [process, recordTokens, normalForm, Session.runSource, Session.parse, hdebug, htree,
      hparse, htokens]
  rw [runSource, runSource, hprocess]

end

/-! ## The command -/

section

variable {limits : Limits} {around : Surroundings} {args : List String} {o : Options}
  {source : String} {ns : List Node}

/-- What is on standard input decides nothing about the text of the program. -/
theorem Surroundings.Opens.withInput {program : String} (h : around.Opens program source)
    (stdin : String) : Surroundings.Opens { around with stdin } program source :=
  ⟨h.depth, h.path, h.text⟩

theorem run_of_opens (hargs : request args = .run o) (hopens : around.Opens o.program source) :
    run limits around args = runSource limits o
      (if o.debug then Settings.debugLevel else Settings.logLevel around.environment) around.input
      source := by
  rw [run, hargs]
  exact runOptions_of_opens hopens

/-- The command prints the normal form of a program, whatever the input is. -/
theorem run_emits (hargs : request args = .run o) (htree : o.emitTree = true)
    (hopens : around.Opens o.program source)
    (hparse : Reader.parse limits.nesting source = .ok ns) :
    ∃ stderr, ∀ stdin, run limits { around with stdin } args =
      { ending := .exit 0, stdout := normalText ns, stderr } := by
  obtain ⟨news, hprocess⟩ := process_emits htree hparse
  refine ⟨records (if o.debug then Settings.debugLevel else Settings.logLevel around.environment)
    { events := news }, fun stdin => ?_⟩
  rw [run_of_opens hargs (hopens.withInput stdin), runSource_ok (hprocess _)]
  simp [Session.start, Console.ofInput, records]

/-- The command cannot tell apart two files of which the same is read. -/
theorem run_alike {around' : Surroundings} {args' : List String} {o' : Options} {source' : String}
    (hargs : request args = .run o) (hargs' : request args' = .run o')
    (hopens : around.Opens o.program source) (hopens' : around'.Opens o'.program source')
    (hdebug : o.debug = o'.debug) (htree : o.emitTree = o'.emitTree)
    (henvironment : around.environment = around'.environment)
    (hstdin : around.stdin = around'.stdin)
    (hparse : Reader.parse limits.nesting source = Reader.parse limits.nesting source')
    (htokens : tokenize source = tokenize source') :
    run limits around args = run limits around' args' := by
  have hinput : around.input = around'.input := by
    rw [Surroundings.input, Surroundings.input, hstdin]
  rw [run_of_opens hargs hopens, run_of_opens hargs' hopens', hdebug, henvironment, hinput]
  exact runSource_congr hdebug htree hparse htokens _ _

end

/-- The tree of a program is a faithful normal form.  Where the text of a program file can be read,
the command that is asked for its tree prints the program in normal form and ends with status 0:
whatever the input, and without a change to what is defined, to what has been read and to what has
been written.  If this text is stored in a file, then its tree is the same text, and with every
choice of options the command does the same with the two files. -/
theorem tree_stands_for_program {limits : Limits} {around : Surroundings} {args : List String}
    {o : Options} {source : String} {ns : List Node} (hargs : request args = .run o)
    (htree : o.emitTree = true) (hopens : around.Opens o.program source)
    (hparse : Reader.parse limits.nesting source = .ok ns) :
    let text := (run limits around args).stdout
    text = normalText ns ∧
    (∃ stderr, ∀ stdin, run limits { around with stdin } args =
      { ending := .exit 0, stdout := text, stderr }) ∧
    (∃ news, ∀ s : Session, process limits o source s =
      (.ok text, { s with events := s.events ++ news })) ∧
    ∀ name stdin, '\x00' ∉ name.toList →
      let original : Surroundings := { around with stdin }
      let stored := original.store name text
      (∀ args' o', request args' = .run o' → o'.emitTree = true → o'.program = name →
        (run limits stored args').ending = .exit 0 ∧ (run limits stored args').stdout = text) ∧
      ∀ args₁ args₂ debug tree,
        request args₁ = .run { debug, emitTree := tree, program := o.program } →
        request args₂ = .run { debug, emitTree := tree, program := name } →
        run limits stored args₂ = run limits original args₁ := by
  obtain ⟨stderr, hemits⟩ := run_emits hargs htree hopens hparse
  have htext : (run limits around args).stdout = normalText ns :=
    congrArg Outcome.stdout (hemits around.stdin)
  obtain ⟨bytes, -, hdecode⟩ := hopens.text
  have hreturn : '\r' ∉ (normalText ns).toList :=
    normalText_noReturn hparse (noReturn_of_decode hdecode)
  have hparse' : Reader.parse limits.nesting (normalText ns) = .ok ns := parse_normalText hparse
  rw [htext]
  intro text
  refine ⟨rfl, ⟨stderr, hemits⟩, process_emits htree hparse, fun name stdin hname => ?_⟩
  intro original stored
  have hstored : stored.Opens name (normalText ns) :=
    (hopens.withInput stdin).store hname hreturn
  constructor
  · rintro args' o' hargs' htree' rfl
    obtain ⟨stderr', hemits'⟩ := run_emits hargs' htree' hstored hparse'
    have hrun : run limits stored args' = _ := hemits' stdin
    rw [hrun]
    exact ⟨rfl, rfl⟩
  · intro args₁ args₂ debug tree hargs₁ hargs₂
    refine run_alike hargs₂ hargs₁ hstored (hopens.withInput stdin) rfl rfl rfl rfl ?_ ?_
    · rw [hparse', hparse]
    · rw [Reader.tokenize_of_parse hparse', Reader.tokenize_of_parse hparse]

/-- A program that writes the line it reads. -/
def echoLine : List Node := [.call [.identifier "write", .call [.identifier "readline"]]]

/-- The program in a file, with an empty line behind it and line ends of two characters. -/
def echoFile : Surroundings where
  read _ := .ok "(write (readline))\r\n\r\n".toUTF8

theorem echoFile_opens : echoFile.Opens "p" "(write (readline))\n\n" where
  depth := ⟨_, rfl, by decide⟩
  path := by decide
  text := by
    refine ⟨_, rfl, ?_⟩
    rw [decode, Text.decodeUtf8_toUTF8]
    rfl

theorem parse_echoFile : Reader.parse 10000 "(write (readline))\n\n" = .ok echoLine := by
  have hns : (Node.program echoLine).WellFormed := by decide
  have hblank : ∀ c ∈ ['\n', '\n'], Text.isBlank c = true := by simp; decide
  have hspells : Spells "(write (readline))\n\n".toList (Node.tokensAll echoLine) :=
    (Spells.piece hns.spells_format) ['\n', '\n'] [] (wordEnds_of_blank (by decide)) (.nil hblank)
  rw [Reader.parse_of_spells hns hspells]
  exact if_pos (by decide)

theorem tree_stands_for_program_echoFile :
    let text := (run {} echoFile ["--emit-ast", "p"]).stdout
    let stored := Surroundings.store { echoFile with stdin := "hello" } "q" text
    text = "(write (readline))\n" ∧ (run {} stored ["--emit-ast", "q"]).stdout = text ∧
      run {} stored ["q"] = run {} { echoFile with stdin := "hello" } ["p"] := by
  have hargs : request ["--emit-ast", "p"] = .run { emitTree := true, program := "p" } := rfl
  have hparse : Reader.parse ({} : Limits).nesting "(write (readline))\n\n" = .ok echoLine :=
    parse_echoFile
  obtain ⟨htext, -, -, hstored⟩ := tree_stands_for_program hargs rfl echoFile_opens hparse
  obtain ⟨htree, hrun⟩ := hstored "q" "hello" (by decide)
  exact ⟨htext.trans (by decide),
    (htree ["--emit-ast", "q"] { emitTree := true, program := "q" } rfl rfl rfl).2,
    hrun ["p"] ["q"] false false rfl rfl⟩

end MiniLisp.Command
