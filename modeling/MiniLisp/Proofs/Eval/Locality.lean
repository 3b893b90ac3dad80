/-
# MiniLisp.Proofs.Eval.Locality — evaluation sees the lines that it reads, and nothing else.

What an evaluation does depends on the input that it takes and on nothing that was written before or
is left to be read.  Reading looks at a whole line, so this is put with care: the end of a line is
seen where the line feed is, and where there is none it is the end of the input that was seen.  An
`Exchange` says all this of one run of a conversation, and `Local` asks for one on every input.
-/
import Mathlib.Data.List.Basic
import MiniLisp.Proofs.Console
import MiniLisp.Proofs.Eval.Effects

namespace MiniLisp

/-! ## Conversations -/

/-- A text that ends where a line ends. -/
def WholeLines (text : List Char) : Prop := text = [] ∨ text.getLast? = some '\n'

theorem WholeLines.append {a b : List Char} (ha : WholeLines a) (hb : WholeLines b) :
    WholeLines (a ++ b) := by
  rcases hb with rfl | hb
  · rwa [List.append_nil]
  · exact .inr (by rw [List.getLast?_append, hb]; rfl)

/-- The end of a text is the end of its last part. -/
theorem WholeLines.right {a b : List Char} (h : WholeLines (a ++ b)) : WholeLines b := by
  by_cases hb : b = []
  · exact .inl hb
  · rcases h with h | h
    · exact .inl (List.append_eq_nil_iff.mp h).2
    · exact .inr (by rwa [List.getLast?_append_of_ne_nil a hb] at h)

/-- A computation that talks to a console. -/
abbrev Conversation (α : Type) := StateM Console α

namespace Conversation

variable {α β : Type}

/-- One run of a conversation: it takes the input `taken`, leaves the input `rest`, writes `written`
and has an outcome, whatever was written before.  It has no need to see what it leaves: if it has
taken whole lines, and its outcome is not that the input has ended, then it does the same in front of
any other input.  A part of a line is taken at the end of the input only. -/
structure Exchange (ended : α → Prop) (x : Conversation α) (outcome : α)
    (taken rest : List Char) (written : String) : Prop where
  run : ∀ output, x ⟨taken ++ rest, output⟩ = (outcome, ⟨rest, output ++ written⟩)
  lines : rest = [] ∨ WholeLines taken
  elsewhere : WholeLines taken → ¬ended outcome → ∀ rest' output,
    x ⟨taken ++ rest', output⟩ = (outcome, ⟨rest', output ++ written⟩)

/-- On every input a conversation is an exchange. -/
def Local (ended : α → Prop) (x : Conversation α) : Prop :=
  ∀ input, ∃ outcome taken rest written,
    input = taken ++ rest ∧ Exchange ended x outcome taken rest written

variable {ended : α → Prop} {x : Conversation α}

/-- What does not look at the console is local. -/
theorem Local.silent (a : α) : Local ended (fun c => (a, c)) := by
  intro input
  have hrun : ∀ rest output, (fun c => (a, c)) (⟨[] ++ rest, output⟩ : Console) =
      (a, ⟨rest, output ++ ""⟩) := by simp
  exact ⟨a, [], input, "", rfl, hrun input, .inr (.inl rfl), fun _ _ => hrun⟩

/-- Two exchanges in a row are one. -/
theorem Exchange.bind {ended' : β → Prop} {f : α → Conversation β} {a : α} {b : β}
    {taken taken' rest : List Char} {written written' : String}
    (h : Exchange ended x a taken (taken' ++ rest) written)
    (h' : Exchange ended' (f a) b taken' rest written')
    (hends : ended a → ended' b) :
    Exchange ended' (x >>= f) b (taken ++ taken') rest (written ++ written') := by
  have hbind : ∀ c, (x >>= f) c = f (x c).1 (x c).2 := fun _ => rfl
  refine ⟨fun output => ?_, ?_, fun hlines hended rest' output => ?_⟩
  · rw [hbind, List.append_assoc, h.run, h'.run, String.append_assoc]
  · rcases h'.lines with hrest | hlines'
    · exact .inl hrest
    · rcases h.lines with hend | hlines
      · exact .inl (List.append_eq_nil_iff.mp hend).2
      · exact .inr (hlines.append hlines')
  · -- the first part has left something, or the second one has taken nothing
    have hfirst : WholeLines taken := by
      rcases h.lines with hend | hfirst
      · obtain ⟨rfl, -⟩ := List.append_eq_nil_iff.mp hend
        rwa [List.append_nil] at hlines
      · exact hfirst
    rw [hbind, List.append_assoc, h.elsewhere hfirst (fun ha => hended (hends ha)),
      h'.elsewhere hlines.right hended, String.append_assoc]

/-- Conversations in a row are local if each of them is, where the end of the input is the outcome of
both if it is that of the first. -/
theorem Local.bind {ended' : β → Prop} {f : α → Conversation β} (hx : Local ended x)
    (hf : ∀ a, Local ended' (f a)) (hends : ∀ a, ended a → ∀ c, ended' (f a c).1) :
    Local ended' (x >>= f) := by
  intro input
  obtain ⟨a, taken, rest, written, rfl, h⟩ := hx input
  obtain ⟨b, taken', rest', written', rfl, h'⟩ := hf a rest
  refine ⟨b, taken ++ taken', rest', written ++ written', by rw [List.append_assoc], h.bind h' ?_⟩
  intro ha
  have hb := hends a ha ⟨taken' ++ rest', ""⟩
  rwa [h'.run] at hb

/-- A local conversation leaves a later console. -/
theorem Local.before (h : Local ended x) (c : Console) : c.Before (x c).2 := by
  obtain ⟨input, output⟩ := c
  obtain ⟨outcome, taken, rest, written, rfl, hx⟩ := h input
  rw [hx.run]
  exact ⟨⟨written, rfl⟩, List.suffix_append taken rest⟩

end Conversation

/-! ## Actions -/

namespace Action

variable {α β : Type}

/-- An action that is local as a conversation, where the input has ended for one that fails for this
reason. -/
def Local (x : Action α) : Prop :=
  Conversation.Local (fun r : Except EvalError α => r = .error .endOfInput) x

theorem Local.bind {x : Action α} {f : α → Action β} (hx : x.Local) (hf : ∀ a, (f a).Local) :
    (x >>= f).Local := by
  refine Conversation.Local.bind (f := ExceptT.bindCont f) hx ?_ ?_
  · rintro (e | a)
    · exact .silent _
    · exact hf a
  · -- a failure of the first part is the outcome of both
    rintro _ rfl _
    rfl

theorem writeLine_local (text : String) : Local (Eval.writeLine text) := by
  intro input
  have hwrite : ∀ input output, Eval.writeLine text ⟨input, output⟩ =
      (.ok (), ⟨input, output ++ (text ++ "\n")⟩) := by
    intro input output
    simp [Eval.writeLine, Console.writeLine, String.append_assoc]
  exact ⟨_, [], input, _, rfl, hwrite input, .inr (.inl rfl), fun _ _ => hwrite⟩

theorem readLine_local : Local Eval.readLine := by
  have hread {c : Console} {line : String} {c' : Console} (h : c.readLine? = some (line, c')) :
      Eval.readLine c = (.ok line, c') := by
    simp [Eval.readLine, h]
  intro input
  by_cases hline : '\n' ∈ input
  · obtain ⟨line, rest, rfl, hfree⟩ := List.eq_append_cons_of_mem hline
    have hrun : ∀ rest output, Eval.readLine ⟨line ++ ['\n'] ++ rest, output⟩ =
        (.ok (String.ofList (Console.chomp line)), ⟨rest, output ++ ""⟩) := by
      intro rest output
      rw [String.append_empty, List.append_assoc]
      exact hread (Console.readLine?_line hfree)
    refine ⟨_, line ++ ['\n'], rest, "", by simp, hrun rest, .inr (.inr (by simp)), ?_⟩
    exact fun _ _ => hrun
  · cases input with
    | nil =>
        refine ⟨_, [], [], "", rfl, fun output => ?_, .inl rfl, fun _ hended => absurd rfl hended⟩
        rw [String.append_empty]
        rfl
    | cons c cs =>
        refine ⟨.ok (String.ofList (Console.chomp (c :: cs))), c :: cs, [], "", by simp, ?_,
          .inl rfl, fun hlines => ?_⟩
        · intro output
          rw [String.append_empty, List.append_nil]
          exact hread (Console.readLine?_last (by simp) hline)
        · -- without a line feed the last line is no whole line
          rcases hlines with hnil | hlast
          · cases hnil
          · exact absurd (List.mem_of_getLast? hlast) hline

/-- Local actions, each beside itself. -/
def locality : Action.Relation where
  Holds x y := x = y ∧ x.Local
  pure a := ⟨rfl, .silent (Except.ok a)⟩
  throw e := ⟨rfl, .silent (Except.error e)⟩
  bind := by
    rintro α β x _ f g ⟨rfl, hx⟩ hfg
    obtain rfl : f = g := funext fun a => (hfg a).1
    exact ⟨rfl, hx.bind fun a => (hfg a).2⟩
  writeLine text := ⟨rfl, writeLine_local text⟩
  readLine := ⟨rfl, readLine_local⟩

end Action

/-- Evaluation is local. -/
theorem Eval.eval_local (ts : Tables) (depth : Nat) (n : Node) (s : Scope) :
    (eval ts depth n s).Local :=
  (Action.locality.eval_holds_self ts depth n s).2

end MiniLisp
