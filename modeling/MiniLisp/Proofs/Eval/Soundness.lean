/-
# MiniLisp.Proofs.Eval.Soundness — sound programs stay sound.

Evaluating an expression that can be written, in a sound scope above a sound table, makes sound
values only, and never runs into an error that speaks of a tree no text gives or of a call that the
checks in front of it rule out.  This is a simulation of the run with itself.
-/
import MiniLisp.Proofs.Eval.Simulation
import MiniLisp.Proofs.Value.Sound

namespace MiniLisp

/-- Errors that a program from a text never meets: a node or a token that no text gives, a
predefined callable that runs with operands its arity rules out, and a value that is applied but not
callable. -/
def EvalError.Internal : EvalError → Prop
  | .misplaced _ | .notNode _ | .notLiteral _ | .miscounted .. | .notApplicable _ => True
  | _ => False

/-- Calls raise no internal errors by themselves. -/
theorem EvalError.Congr.not_internal {V : Value → Value → Prop} {N : Node → Node → Prop}
    {P : Procedure → Procedure → Prop} {e f : EvalError} (h : Congr V N P e f) : ¬e.Internal := by
  cases h <;> exact id

namespace Eval

variable {t : Table} {ts : Tables}

/-- A literal that can be written denotes a sound value. -/
theorem literal_sound {tok : Token} (h : tok.IsLiteral) :
    ∃ v, Eval.literal tok = .ok v ∧ v.Sound := by
  cases tok with
  | integer n =>
      refine ⟨.int n, rfl, .int ?_ h.2⟩
      have hmin : minInt ≤ 0 := by decide
      have hnonneg := h.1
      omega
  | string text => exact ⟨.str text, rfl, .str text⟩
  | _ => exact h.elim

theorem find_sound (ht : t.Sound) {s : Scope} (hs : s.Sound) (x : String) :
    Agree (fun v w => v = w ∧ v.Sound) (fun e f => e = f ∧ ¬e.Internal) (find (t :: ts) s x)
      (find (t :: ts) s x) := by
  unfold find
  cases hx : s.lookup? (t :: ts) x with
  | some v => exact .ok ⟨rfl, hs.lookup? ht hx⟩
  | none => exact .error ⟨rfl, id⟩

theorem forall_mem_of_forall₂ {α : Type} {P : α → Prop} {l k : List α}
    (h : List.Forall₂ (fun a b => a = b ∧ P a) l k) : l = k ∧ ∀ a ∈ l, P a := by
  induction h with
  | nil => exact ⟨rfl, by simp⟩
  | cons hab _ ih =>
      obtain ⟨rfl, ha⟩ := hab
      obtain ⟨rfl, hall⟩ := ih
      exact ⟨rfl, List.forall_mem_cons.mpr ⟨ha, hall⟩⟩

theorem forall₂_of_forall_mem {α : Type} {P : α → Prop} {l : List α} (h : ∀ a ∈ l, P a) :
    List.Forall₂ (fun a b => a = b ∧ P a) l l :=
  List.forall₂_same.mpr fun a ha => ⟨rfl, h a ha⟩

/-- Sound evaluations, each beside itself. -/
def soundness (ht : t.Sound) : Simulation (t :: ts) (t :: ts) where
  Val v w := v = w ∧ v.Sound
  Err e f := e = f ∧ ¬e.Internal
  At n s m u := (n = m ∧ s = u) ∧ n.Expression ∧ s.Sound
  val_congr := by
    rintro v _ ⟨rfl, hv⟩
    cases hv with
    | list h => exact .list (forall₂_of_forall_mem h)
    | _ => constructor
  int hmin hmax := ⟨rfl, .int hmin hmax⟩
  bool b := ⟨rfl, .bool b⟩
  str text := ⟨rfl, .str text⟩
  unit := ⟨rfl, .unit⟩
  list h := by
    obtain ⟨rfl, hall⟩ := forall_mem_of_forall₂ h
    exact ⟨rfl, .list hall⟩
  at_congr := by
    rintro n _ s _ ⟨⟨rfl, rfl⟩, hn, hs⟩
    cases hn with
    | literal => constructor
    | identifier => constructor
    | call h => exact .call (List.forall₂_same.mpr fun m hm => ⟨⟨rfl, rfl⟩, h m hm, hs⟩)
  atom := by
    rintro n _ s _ ⟨⟨rfl, rfl⟩, hn, hs⟩ hcall depth
    cases hn with
    | literal h =>
        obtain ⟨v, hv, hsound⟩ := literal_sound h
        rw [eval, hv]
        exact .lift (.ok ⟨rfl, hsound⟩)
    | identifier h => exact .lift (find_sound ht hs _)
    | @call ns h =>
        cases ns with
        | nil => exact .pure ⟨rfl, .list (by simp)⟩
        | cons head operands => exact absurd rfl (hcall head operands)
  binding := by
    rintro x y n _ s _ v _ ⟨⟨hx, rfl⟩, -, -⟩ ⟨⟨rfl, -⟩, hn, hs⟩ ⟨rfl, hv⟩
    cases hx
    exact ⟨⟨rfl, rfl⟩, hn, .frame hv hs⟩
  procedure := by
    rintro xs ys n _ s _ ⟨⟨hxs, rfl⟩, -, -⟩ ⟨⟨rfl, -⟩, hn, hs⟩
    obtain rfl : xs = ys := Node.map_identifier_inj (Node.call.inj hxs)
    exact ⟨rfl, .closure (by simpa using hn) hs⟩
  params_length := by
    rintro p _ s _ ⟨h, -⟩
    cases h
    rfl
  body := by
    rintro p _ s _ vs ws ⟨h, hsound⟩ hargs -
    cases h
    cases hsound with
    | closure hbody hs =>
        -- sound arguments in front of the sound scope that was captured
        obtain ⟨rfl, hvs⟩ := forall_mem_of_forall₂ hargs
        have hextend := hs.extend fun b (hb : b ∈ p.params.zip vs) =>
          hvs b.2 (List.of_mem_zip hb).2
        exact List.forall₂_same.mpr fun n hn => ⟨⟨rfl, rfl⟩, hbody n hn, hextend⟩
  err := by
    intro e f h
    refine ⟨h.eq And.left ?_ ?_, h.not_internal⟩
    · rintro n m ⟨s, u, ⟨hnm, -⟩, -⟩
      exact hnm
    · rintro p q ⟨s, u, hpq, -⟩
      cases hpq
      rfl

/-- The value of an expression that can be written, in a sound scope, is sound, and its error is no
internal one. -/
theorem eval_sound (ht : t.Sound) {n : Node} {s : Scope} (hn : n.Expression) (hs : s.Sound)
    (depth : Nat) (c : Console) :
    (∀ v, (eval (t :: ts) depth n s c).1 = .ok v → v.Sound) ∧
      ∀ e, (eval (t :: ts) depth n s c).1 = .error e → ¬e.Internal := by
  obtain ⟨-, hagree⟩ := (soundness ht).eval_agree ⟨⟨rfl, rfl⟩, hn, hs⟩ depth c
  constructor
  · intro v hv
    rw [hv] at hagree
    cases hagree with | ok h => exact h.2
  · intro e he
    rw [he] at hagree
    cases hagree with | error h => exact h.2

/-- The values of operands that can be written are sound. -/
theorem evalAll_sound (ht : t.Sound) {ns : List Node} {s : Scope} (hns : ∀ n ∈ ns, n.Expression)
    (hs : s.Sound) {depth : Nat} {c c' : Console} {vs : List Value}
    (h : evalAll (eval (t :: ts) depth) s ns c = (.ok vs, c')) : ∀ v ∈ vs, v.Sound := by
  have hev : (soundness ht).Follows (eval (t :: ts) depth) (eval (t :: ts) depth) :=
    fun h => (soundness ht).eval_agree h depth
  obtain ⟨-, hagree⟩ := (soundness ht).evalAll_agree hev
    (List.forall₂_same.mpr fun n hn => ⟨⟨rfl, rfl⟩, hns n hn, hs⟩) c
  rw [h] at hagree
  cases hagree with
  | ok hvs => exact (forall_mem_of_forall₂ hvs.1).2

/-- Binding sound arguments in front of a sound scope. -/
theorem bind_sound {p : Procedure} {captured s : Scope} {vs : List Value}
    (h : Eval.bind p captured vs = .ok s) (hcaptured : captured.Sound) (hvs : ∀ v ∈ vs, v.Sound) :
    s.Sound := by
  unfold Eval.bind at h
  split at h
  · cases h
    exact hcaptured.extend fun b hb => hvs b.2 (List.of_mem_zip hb).2
  · cases h

end Eval

end MiniLisp
