/-
# MiniLisp.Proofs.Value.Printing — what has a text, and where the two printers agree.

Programs write a value by `display`, which can fail; logs show it by `inspect`, which cannot.  Both
walk through lists, and all that matters to them is the row of `leaves`, the parts that are no
lists, from left to right.  Displaying fails exactly if there is a mute leaf, and then the first one
is to blame.  Inspecting is displaying too, of the `annotated` value: there texts stand in their
quotes, and what is mute has its description for a text.
-/
import MiniLisp.Eval
import MiniLisp.Failure

namespace MiniLisp

namespace Value

/-! ## Leaves -/

mutual

/-- The parts of a value that are no lists, from left to right. -/
def leaves : Value → List Value
  | .list items => leavesAll items
  | v => [v]

/-- The leaves of each value in turn. -/
def leavesAll : List Value → List Value
  | [] => []
  | v :: vs => v.leaves ++ leavesAll vs

end

/-- A value without a text: the unit, or a callable. -/
def isMute : Value → Bool
  | .unit => true
  | v => v.isCallable

/-- A text. -/
def isText : Value → Bool
  | .str _ => true
  | _ => false

/-! ## What can be displayed -/

/-- The result of displaying values with these leaves: a text, or else the first leaf without one.
-/
def Displays {α : Type} (leaves : List Value) (result : Except Value α) : Prop :=
  match leaves.find? isMute with
  | some w => result = .error w
  | none => ∃ a, result = .ok a

mutual

theorem display_displays : (v : Value) → Displays v.leaves v.display
  | .int n => ⟨toString n, rfl⟩
  | .bool b => ⟨displayBool b, rfl⟩
  | .str text => ⟨text, rfl⟩
  | .list items => by
      have hitems := displayAll_displays items
      unfold Displays at hitems ⊢
      rw [leaves, display]
      cases hmute : (leavesAll items).find? isMute with
      | some w =>
          rw [hmute] at hitems
          simp only [hitems]
      | none =>
          rw [hmute] at hitems
          obtain ⟨texts, htexts⟩ := hitems
          simp [htexts]
  | .unit | .builtin _ | .form _ | .definer | .closure _ _ => rfl

theorem displayAll_displays : (vs : List Value) → Displays (leavesAll vs) (displayAll vs)
  | [] => ⟨[], rfl⟩
  | v :: vs => by
      have hv := display_displays v
      have hvs := displayAll_displays vs
      unfold Displays at hv hvs ⊢
      rw [leavesAll, displayAll, List.find?_append]
      cases hmute : v.leaves.find? isMute with
      | some w =>
          -- the values behind do not count then
          rw [hmute] at hv
          simp [hv]
      | none =>
          rw [hmute] at hv
          obtain ⟨text, htext⟩ := hv
          rw [Option.none_or]
          cases hmutes : (leavesAll vs).find? isMute with
          | some w =>
              rw [hmutes] at hvs
              simp [htext, hvs]
          | none =>
              rw [hmutes] at hvs
              obtain ⟨texts, htexts⟩ := hvs
              simp [htext, htexts]

end

/-- Where the first mute leaf is, there displaying fails. -/
theorem display_of_find? {v w : Value} (h : v.leaves.find? isMute = some w) :
    v.display = .error w := by
  have hdisplays := display_displays v
  rw [Displays, h] at hdisplays
  exact hdisplays

theorem display_eq_ok_iff {v : Value} :
    (∃ text, v.display = .ok text) ↔ ∀ w ∈ v.leaves, w.isMute = false := by
  have hdisplays := display_displays v
  constructor
  · rintro ⟨text, htext⟩ w hw
    cases hfind : v.leaves.find? isMute with
    | some u => simp [display_of_find? hfind] at htext
    | none => simpa using List.find?_eq_none.mp hfind w hw
  · intro h
    have hfind : v.leaves.find? isMute = none := List.find?_eq_none.mpr (by simpa using h)
    rw [Displays, hfind] at hdisplays
    exact hdisplays

/-! ## Inspecting is displaying -/

mutual

/-- The value as logs have it: texts in quotes, and descriptions in place of what is mute. -/
def annotated : Value → Value
  | .int n => .int n
  | .bool b => .bool b
  | .str text => .str ("\"" ++ text ++ "\"")
  | .list items => .list (annotatedAll items)
  | v => .str v.describe

/-- Each value as logs have it. -/
def annotatedAll : List Value → List Value
  | [] => []
  | v :: vs => v.annotated :: annotatedAll vs

end

mutual

/-- To inspect a value is to display it annotated; that never fails. -/
theorem display_annotated : (v : Value) → v.annotated.display = .ok v.inspect
  | .int _ | .bool _ | .str _ | .unit | .builtin _ | .form _ | .definer | .closure _ _ => rfl
  | .list items => by rw [annotated, display, displayAll_annotated items, inspect]

theorem displayAll_annotated : (vs : List Value) →
    displayAll (annotatedAll vs) = .ok (inspectAll vs)
  | [] => rfl
  | v :: vs => by
      rw [annotatedAll, displayAll, display_annotated v, displayAll_annotated vs, inspectAll]

end

mutual

/-- There is nothing to annotate where all leaves are numbers and truth values. -/
theorem annotated_eq_self : (v : Value) →
    (∀ w ∈ v.leaves, w.isMute = false ∧ w.isText = false) → v.annotated = v
  | .int _, _ | .bool _, _ => rfl
  | .list items, h => by rw [annotated, annotatedAll_eq_self items h]
  | .str _, h => by simpa [isText] using (h _ (List.mem_singleton_self _)).2
  | .unit, h | .builtin _, h | .form _, h | .definer, h | .closure _ _, h => by
      simpa [isMute, isCallable] using (h _ (List.mem_singleton_self _)).1

theorem annotatedAll_eq_self : (vs : List Value) →
    (∀ w ∈ leavesAll vs, w.isMute = false ∧ w.isText = false) → annotatedAll vs = vs
  | [], _ => rfl
  | v :: vs, h => by
      obtain ⟨hv, hvs⟩ := List.forall_mem_append.mp h
      rw [annotatedAll, annotated_eq_self v hv, annotatedAll_eq_self vs hvs]

end

end Value

/-! ## The theorem -/

open Eval (displayText)

/-- The two printers of values.  A value of any nesting has a text for programs exactly if none of
its leaves is the unit or a callable.  Otherwise the error is about the first such leaf, and it
names the leaf's type and has its description.  Every value has a text for logs: it is what programs
would write for the annotated value.  Where no leaf is a text, the unit or a callable, the two texts
are the same. -/
theorem printers_agree (v : Value) :
    ((∃ text, displayText v = .ok text) ↔ ∀ w ∈ v.leaves, w.isMute = false) ∧
    (∀ w, v.leaves.find? Value.isMute = some w → ∃ e, displayText v = .error e ∧
      Failure.kindOfEvaluation e = .notPrintable ∧ e.message =
        "Could not convert " ++ w.typeName ++ " value to a string: " ++ w.describe) ∧
    displayText v.annotated = .ok v.inspect ∧
    ((∀ w ∈ v.leaves, w.isMute = false ∧ w.isText = false) → displayText v = .ok v.inspect) := by
  have htext : ∀ {u : Value} {text}, displayText u = .ok text ↔ u.display = .ok text := by
    intro u text
    unfold displayText
    cases u.display <;> simp
  have hannotated : displayText v.annotated = .ok v.inspect := htext.mpr v.display_annotated
  refine ⟨?_, ?_, hannotated, ?_⟩
  · simp only [htext]
    exact Value.display_eq_ok_iff
  · intro w hw
    refine ⟨.notPrintable w, ?_, rfl, rfl⟩
    rw [displayText, Value.display_of_find? hw]
  · intro h
    rwa [v.annotated_eq_self h] at hannotated

/-- A list with a text, a list of a procedure and the unit, and a number. -/
def mixedList : Value :=
  .list [.str "a", .list [.closure { name := none, params := ["x"], body := [] } (.top 0), .unit],
    .int 1]

theorem printers_agree_mixedList :
    (∃ e, displayText mixedList = .error e ∧
      e.message = "Could not convert Closure value to a string: <lambda (x)>") ∧
    mixedList.inspect = "(\"a\" (<lambda (x)> Unit) 1)" ∧
    displayText (.list [.int (-2), .list [], .bool true]) = .ok "(-2 () true)" := by
  obtain ⟨-, hfirst, -, -⟩ := printers_agree mixedList
  obtain ⟨e, he, -, hmessage⟩ := hfirst _ rfl
  obtain ⟨-, -, -, hsame⟩ := printers_agree (.list [.int (-2), .list [], .bool true])
  refine ⟨⟨e, he, hmessage⟩, rfl, ?_⟩
  rw [hsame (by decide)]
  rfl

end MiniLisp
