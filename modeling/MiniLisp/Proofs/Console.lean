/-
# MiniLisp.Proofs.Console — reading and writing in time.

A line is read up to its line feed, and the last one up to the end of the input.  A console never
goes back: `Console.Before` says that one is a later state of another, with more written and more of
the input taken.
-/
import MiniLisp.Console
import MiniLisp.Proofs.Token.Spelling

namespace MiniLisp.Console

/-! ## Reading a line -/

variable {line rest : List Char} {output : String}

/-- Where a line ends, at its line feed or with the input. -/
theorem span_line (h : '\n' ∉ line) (hrest : ∀ c ∈ rest.head?, c = '\n') :
    (line ++ rest).takeWhile (· ≠ '\n') = line ∧ (line ++ rest).dropWhile (· ≠ '\n') = rest := by
  refine span_iff.mpr ⟨rfl, fun c hc => ?_, fun c hc => ?_⟩
  · exact decide_eq_true (ne_of_mem_of_not_mem hc h)
  · exact decide_eq_false (not_not_intro (hrest c hc))

/-- The text in front of the first line feed is read as a line. -/
theorem readLine?_line (h : '\n' ∉ line) :
    readLine? ⟨line ++ '\n' :: rest, output⟩ =
      some (String.ofList (chomp line), ⟨rest, output⟩) := by
  have hrest : ∀ c ∈ ('\n' :: rest).head?, c = '\n' := by simp
  obtain ⟨htake, hdrop⟩ := span_line h hrest
  simp only [readLine?, htake, hdrop]
  simp

/-- Where there is no line feed, the whole input is read as a line, unless it is empty. -/
theorem readLine?_last (hne : line ≠ []) (h : '\n' ∉ line) :
    readLine? ⟨line, output⟩ = some (String.ofList (chomp line), ⟨[], output⟩) := by
  have hrest : ∀ c ∈ ([] : List Char).head?, c = '\n' := by simp
  obtain ⟨htake, hdrop⟩ := span_line h hrest
  rw [List.append_nil] at htake hdrop
  simp only [readLine?, htake, hdrop]
  simp [hne]

/-! ## Later states -/

/-- The console `c'` is a later state of `c`: output has been appended, and input has been taken from
the front. -/
structure Before (c c' : Console) : Prop where
  written : ∃ text, c'.output = c.output ++ text
  taken : c'.input <:+ c.input

namespace Before

variable {a b c : Console}

theorem refl (c : Console) : c.Before c := ⟨⟨"", by simp⟩, List.suffix_refl _⟩

theorem trans (h : a.Before b) (h' : b.Before c) : a.Before c := by
  obtain ⟨⟨text, hb⟩, htaken⟩ := h
  obtain ⟨⟨text', hc⟩, htaken'⟩ := h'
  refine ⟨⟨text ++ text', ?_⟩, htaken'.trans htaken⟩
  rw [hc, hb, String.append_assoc]

end Before

end MiniLisp.Console
