/-
# MiniLisp.Text.Newline — one spelling for the end of a line.

Files and console input may end a line with a carriage return, a line feed, or the pair.  Before
the language sees the text each of the three becomes a single line feed.
-/

namespace MiniLisp.Text

/-- Every line end becomes a line feed; a pair counts once. -/
def unifyNewlines : List Char → List Char
  | [] => []
  | '\r' :: '\n' :: rest => '\n' :: unifyNewlines rest
  | c :: rest => (if c = '\r' then '\n' else c) :: unifyNewlines rest

/-- No carriage return is left. -/
theorem not_mem_unifyNewlines (text : List Char) : '\r' ∉ unifyNewlines text := by
  fun_induction unifyNewlines text with
  | case1 => simp
  | case2 rest ih => simp [ih]
  | case3 c rest _ ih => by_cases h : c = '\r' <;> simp [h, ih, eq_comm]

/-- A text without carriage returns is left alone. -/
theorem unifyNewlines_of_not_mem {text : List Char} (h : '\r' ∉ text) :
    unifyNewlines text = text := by
  fun_induction unifyNewlines text with
  | case1 => rfl
  | case2 rest _ => simp at h
  | case3 c rest _ ih =>
    simp only [List.mem_cons, not_or] at h
    rw [ih h.2, if_neg fun hc => h.1 hc.symm]

end MiniLisp.Text
