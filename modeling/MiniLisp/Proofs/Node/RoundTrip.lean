/-
# MiniLisp.Proofs.Node.RoundTrip — printing and reading undo each other.

The reader makes well-formed programs only, and of every text a printer writes for one it makes that
program again, whatever the layout.  The only other answer is that the lists of the program nest
deeper than there is room for.
-/
import MiniLisp.Proofs.Node.Printing
import MiniLisp.Proofs.Node.Reading

namespace MiniLisp

open Node (tokensAll nestingAll)

namespace Reader

variable {limit : Nat} {ns : List Node}

/-- What reading answers to any text of some statements. -/
def readBack (limit : Nat) (ns : List Node) : Except ReadError (List Node) :=
  if nestingAll ns ≤ limit then .ok ns else .error .tooDeep

/-- Every text that spells the tokens of a program is read as that program. -/
theorem parse_of_spells {text : String} (hns : (Node.program ns).WellFormed)
    (h : Spells text.toList (tokensAll ns)) : parse limit text = readBack limit ns := by
  have hlexed : lexed text.toList text.toList = (tokensAll ns, none) := h.lexed_eq
  unfold readBack
  split
  · next hroom => exact parse_eq_ok_iff.mpr ⟨hns, hlexed, hroom⟩
  · next hroom => exact parse_eq_tooDeep hns hlexed (by omega)

/-- The printed text of some statements is read as these, where there is room. -/
theorem parse_format (hns : (Node.program ns).WellFormed) (hroom : nestingAll ns ≤ limit) :
    parse limit (Node.program ns).format = .ok ns := by
  rw [parse_of_spells hns hns.spells_format]
  exact if_pos hroom

end Reader

open Reader (parse readBack)

/-- Reading makes well-formed programs, and it undoes both printers on every one of them: the
printer of one line a statement, and the printer of limited width, from any depth and to any width.
-/
theorem parse_undoes_printing :
    (∀ limit source ns, parse limit source = .ok ns → (Node.program ns).WellFormed) ∧
    ∀ ns, (Node.program ns).WellFormed → ∀ limit,
      parse limit (Node.program ns).format = readBack limit ns ∧
      ∀ width depth, parse limit ((Node.program ns).layout width depth) = readBack limit ns := by
  constructor
  · intro limit source ns h
    exact (Reader.parse_eq_ok_iff.mp h).1
  · intro ns hns limit
    have hformat : Spells (Node.program ns).format.toList (tokensAll ns) := hns.spells_format
    refine ⟨Reader.parse_of_spells hns hformat, ?_⟩
    intro width depth
    have hlayout : Spells ((Node.program ns).layout width depth).toList (tokensAll ns) :=
      hns.spells_layout depth
    exact Reader.parse_of_spells hns hlayout

/-- A definition whose body begins like another definition, with a text full of parentheses. -/
def nestedKeyword : List Node :=
  [.definition "f" ["x"] [.call [.identifier "defun", .literal (.string ")\n("), .call []]],
    .literal (.integer 7)]

theorem parse_undoes_printing_nestedKeyword :
    parse 3 (Node.program nestedKeyword).format = .ok nestedKeyword ∧
      parse 3 ((Node.program nestedKeyword).layout (-1) (-3)) = .ok nestedKeyword ∧
      (Node.program nestedKeyword).WellFormed := by
  obtain ⟨hread, hprint⟩ := parse_undoes_printing
  obtain ⟨hformat, hlayout⟩ := hprint nestedKeyword (by decide) 3
  have hroom : readBack 3 nestedKeyword = .ok nestedKeyword := if_pos (by decide)
  rw [hroom] at hformat hlayout
  exact ⟨hformat, hlayout (-1) (-3), hread 3 _ _ hformat⟩

end MiniLisp
