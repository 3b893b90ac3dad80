/-
# MiniLisp.Proofs.Console.Lines — what is written in lines is read in lines.

Line feeds cut a text into pieces.  Reading line by line gives these pieces, each without the
carriage returns at its end, and then fails for ever.  Behind the last line feed there is a piece
only if there is some text, so a blank line is never taken for the end of the input, nor the other
way round.  Each line written ends with a line feed, so the lines written come back one by one.
-/
import Mathlib.Data.List.Forall2
import MiniLisp.Eval
import MiniLisp.Proofs.Console

namespace MiniLisp

namespace Console

variable {line rest : List Char}

/-! ## Pieces of a text -/

/-- What line feeds separate, but for an empty piece at the end. -/
def pieces (text : List Char) : List (List Char) :=
  let parts := text.splitOn '\n'
  if parts.getLast? = some [] then parts.dropLast else parts

theorem pieces_nil : pieces [] = [] := by simp [pieces]

/-- What stands in front of the first line feed is the first piece. -/
theorem pieces_line (h : '\n' ∉ line) : pieces (line ++ '\n' :: rest) = line :: pieces rest := by
  have hfirst : ∀ c ∈ line, (c == '\n') = false := by
    intro c hc
    simpa using ne_of_mem_of_not_mem hc h
  have hsplit : (line ++ '\n' :: rest).splitOn '\n' = line :: rest.splitOn '\n' :=
    List.splitOnP_append_cons_of_forall_mem hfirst '\n' (by simp) rest
  have hne : rest.splitOn '\n' ≠ [] := List.splitOnP_ne_nil _ _
  simp only [pieces, hsplit, List.getLast?_cons_of_ne_nil hne, List.dropLast_cons_of_ne_nil hne]
  split <;> rfl

/-- A text without a line feed is a piece, unless it is empty. -/
theorem pieces_last (hne : line ≠ []) (h : '\n' ∉ line) : pieces line = [line] := by
  have hsplit : line.splitOn '\n' = [line] := by
    refine List.splitOnP_eq_singleton fun c hc => ?_
    simpa using ne_of_mem_of_not_mem hc h
  simp [pieces, hsplit, hne]

/-- A text is empty, or it is the last piece, or it is a piece with a line feed in front of another
text. -/
theorem pieces_induction {P : List Char → Prop} (nil : P [])
    (last : ∀ line, line ≠ [] → '\n' ∉ line → P line)
    (line : ∀ line rest, '\n' ∉ line → P rest → P (line ++ '\n' :: rest)) (text : List Char) :
    P text := by
  induction hlength : text.length using Nat.strong_induction_on generalizing text with
  | _ k ih =>
      by_cases hfeed : '\n' ∈ text
      · obtain ⟨first, rest, rfl, hfirst⟩ := List.eq_append_cons_of_mem hfeed
        refine line first rest hfirst (ih rest.length ?_ rest rfl)
        simp only [List.length_append, List.length_cons] at hlength
        omega
      · by_cases hempty : text = []
        · rwa [hempty]
        · exact last text hempty hfeed

/-! ## Carriage returns -/

/-- A text without the carriage returns at its end. -/
def Chomped (piece line : List Char) : Prop :=
  (∃ k, piece = line ++ List.replicate k '\r') ∧ line.getLast? ≠ some '\r'

theorem chomped_chomp (piece : List Char) : Chomped piece (chomp piece) := by
  constructor
  · -- in the other direction the carriage returns come first
    have hreturns : ∀ c ∈ piece.reverse.takeWhile (· = '\r'), c = '\r' :=
      fun c hc => by simpa using List.mem_takeWhile_imp hc
    refine ⟨(piece.reverse.takeWhile (· = '\r')).length, ?_⟩
    calc
      piece = (piece.reverse.takeWhile (· = '\r') ++
          piece.reverse.dropWhile (· = '\r')).reverse := by
        rw [List.takeWhile_append_dropWhile, List.reverse_reverse]
      _ = chomp piece ++ (piece.reverse.takeWhile (· = '\r')).reverse := List.reverse_append
      _ = chomp piece ++ List.replicate (piece.reverse.takeWhile (· = '\r')).length '\r' := by
        rw [← List.length_reverse, ← List.eq_replicate_of_mem fun c hc =>
          hreturns c (List.mem_reverse.mp hc)]
  · intro hlast
    rw [chomp, List.getLast?_reverse] at hlast
    have hnot := List.head?_dropWhile_not (· = '\r') piece.reverse
    rw [hlast] at hnot
    simp at hnot

/-- Other carriage returns stay. -/
theorem chomp_eq_self (h : line.getLast? ≠ some '\r') : chomp line = line := by
  have hhead : line.reverse.dropWhile (· = '\r') = line.reverse := by
    cases hreverse : line.reverse with
    | nil => rfl
    | cons c cs =>
        have hc : c ≠ '\r' := by
          rintro rfl
          rw [← List.head?_reverse, hreverse] at h
          exact h rfl
        exact List.dropWhile_cons_of_neg (by simpa using hc)
  rw [chomp, hhead, List.reverse_reverse]

/-! ## Lines written -/

/-- Every line ends with a line feed. -/
theorem output_writeLines (texts : List String) (c : Console) :
    (texts.foldl writeLine c).output.toList =
      c.output.toList ++ texts.flatMap fun text => text.toList ++ ['\n'] := by
  induction texts generalizing c with
  | nil => simp
  | cons text texts ih =>
      rw [List.foldl_cons, ih]
      simp [writeLine]

/-- The pieces of what is written are the lines. -/
theorem pieces_writeLines {texts : List String} (h : ∀ text ∈ texts, '\n' ∉ text.toList) :
    pieces (texts.flatMap fun text => text.toList ++ ['\n']) = texts.map String.toList := by
  induction texts with
  | nil => exact pieces_nil
  | cons text texts ih =>
      obtain ⟨htext, htexts⟩ := List.forall_mem_cons.mp h
      rw [List.flatMap_cons, List.append_assoc, List.singleton_append, pieces_line htext, ih htexts,
        List.map_cons]

end Console

/-! ## Reading in a row -/

namespace Eval

open Console

/-- The results of so many reads, one after the other. -/
def reads : Nat → Console → List (Except EvalError String)
  | 0, _ => []
  | k + 1, c => (readLine c).1 :: reads k (readLine c).2

/-- At the end of the input every read fails. -/
theorem reads_end (k : Nat) (output : String) :
    reads k ⟨[], output⟩ = List.replicate k (.error .endOfInput) := by
  induction k with
  | zero => rfl
  | succ k ih =>
      have hend : readLine ⟨[], output⟩ = (.error .endOfInput, ⟨[], output⟩) := rfl
      rw [reads, hend, ih, List.replicate_succ]

/-- Reads give the pieces of the input, without the carriage returns at their ends, and then fail.
-/
theorem reads_pieces (text : List Char) (k : Nat) (output : String) :
    reads ((pieces text).length + k) ⟨text, output⟩ =
      (pieces text).map (fun piece => .ok (String.ofList (chomp piece))) ++
        List.replicate k (.error .endOfInput) := by
  induction text using pieces_induction with
  | nil => simpa [pieces_nil] using reads_end k output
  | last line hne h =>
      have hread : readLine ⟨line, output⟩ =
          (.ok (String.ofList (chomp line)), ⟨[], output⟩) := by
        simp only [readLine, readLine?_last hne h]
      simp [pieces_last hne h, Nat.add_comm 1 k, reads, hread, reads_end]
  | line line rest h ih =>
      have hread : readLine ⟨line ++ '\n' :: rest, output⟩ =
          (.ok (String.ofList (chomp line)), ⟨rest, output⟩) := by
        simp only [readLine, readLine?_line h]
      rw [pieces_line h, List.length_cons, Nat.add_right_comm, reads, hread, ih]
      rfl

end Eval

open Console Eval

/-- Lines that are written can be read back, and reading cuts any text without loss.  Let no text of
a list contain a line feed or end with a carriage return.  When all of them are written, one after
the other, reading what was written gives the same list again, and every further read fails.  And
what is read of any text are its pieces between line feeds, each without the carriage returns at its
end, and after that every read fails. -/
theorem lines_read_back :
    (∀ (texts : List String) (input : String),
      (∀ text ∈ texts, '\n' ∉ text.toList ∧ text.toList.getLast? ≠ some '\r') →
      ∀ k, reads (texts.length + k) (.ofInput (texts.foldl writeLine (.ofInput input)).output) =
        texts.map .ok ++ List.replicate k (.error .endOfInput)) ∧
    ∀ text : String, ∃ lines : List String,
      List.Forall₂ (fun piece line => Chomped piece line.toList) (pieces text.toList) lines ∧
      ∀ k, reads (lines.length + k) (.ofInput text) =
        lines.map .ok ++ List.replicate k (.error .endOfInput) := by
  constructor
  · intro texts input h k
    have hwritten : (texts.foldl writeLine (.ofInput input)).output.toList =
        texts.flatMap fun text => text.toList ++ ['\n'] := output_writeLines texts (.ofInput input)
    have hpieces : pieces (texts.foldl writeLine (.ofInput input)).output.toList =
        texts.map String.toList := by
      rw [hwritten]
      exact pieces_writeLines fun text htext => (h text htext).1
    have hreads := reads_pieces (texts.foldl writeLine (.ofInput input)).output.toList k ""
    rw [hpieces, List.length_map, List.map_map] at hreads
    refine hreads.trans (congrArg (· ++ _) (List.map_congr_left fun text htext => ?_))
    rw [Function.comp_apply, chomp_eq_self (h text htext).2, String.ofList_toList]
  · intro text
    refine ⟨(pieces text.toList).map fun piece => String.ofList (chomp piece), ?_, fun k => ?_⟩
    · rw [List.forall₂_map_right_iff, List.forall₂_same]
      intro piece _
      rw [String.toList_ofList]
      exact chomped_chomp piece
    · rw [List.length_map, List.map_map]
      exact reads_pieces text.toList k ""

/-- Blank lines in front and at the end, and a carriage return inside a line. -/
theorem lines_read_back_blank :
    let written : Console := ["", "a\rb", ""].foldl writeLine {}
    written.output = "\na\rb\n\n" ∧
      reads 5 (.ofInput written.output) =
        [.ok "", .ok "a\rb", .ok "", .error .endOfInput, .error .endOfInput] := by
  intro written
  exact ⟨rfl, lines_read_back.1 ["", "a\rb", ""] "" (by decide) 2⟩

/-- Several carriage returns in front of a line feed, and a last line without one. -/
example : reads 4 (.ofInput "a\r\r\n\r\n\rb") =
    [.ok "a", .ok "", .ok "\rb", .error .endOfInput] := rfl

end MiniLisp
