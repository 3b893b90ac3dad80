/-
# MiniLisp.Proofs.Session.Soundness — what texts can do to a session.

However many texts a session is given, and whatever becomes of them, its table stays sound.  So the
bodies of all procedures that are ever reached are expressions that can be written, and no run ends
with an error that only a tree built by hand could cause.
-/
import MiniLisp.Proofs.Eval.Soundness
import MiniLisp.Proofs.Session.Step

namespace MiniLisp

/-- Failures that a program from a text never meets. -/
def Failure.Internal : Failure → Prop
  | .evaluation e => e.Internal
  | _ => False

namespace Session

variable {limits : Limits} {s : Session} {n : Node}

/-- Where a step of a sound session can end: with a sound value or an error of the language, in a
sound session. -/
abbrev SoundStep (s : Session) (x : Step Value) : Prop :=
  x.Ensures s (fun v s' => v.Sound ∧ s'.table.Sound) (fun f s' => ¬f.Internal ∧ s'.table.Sound)

/-! ## Definitions -/

theorem procedureOf_not_internal {operands : List Node} {e : EvalError}
    (h : procedureOf operands = .error e) : ¬e.Internal := by
  unfold procedureOf at h
  split at h
  · next name params body =>
      split at h
      · cases h
      · next he =>
          cases h
          obtain rfl | ⟨m, rfl⟩ := Eval.parameters_eq_error he
          · exact id
          · exact id
  · cases h
    exact id
  · cases h
    exact id

/-- The body that a statement hands to the definition form consists of expressions. -/
theorem Defines.expression_of_mem_drop {t : Table} {operands : List Node}
    (h : Defines t n operands) (hn : n.Statement) : ∀ m ∈ operands.drop 2, m.Expression := by
  intro m hm
  cases h with
  | definition _ =>
      cases hn with
      | expression h _ => cases h
      | definition _ _ hbody => exact hbody m hm
  | call _ =>
      cases hn with
      | expression h _ =>
          cases h with
          | call hall => exact hall m (List.mem_cons_of_mem _ (List.mem_of_mem_drop hm))

theorem install_sound {operands : List Node} (hs : s.table.Sound) (hn : n.Statement)
    (hdefines : Defines s.table n operands) : SoundStep s (install operands) := by
  refine (install_ensures operands).mono ?_ ?_
  · rintro v s' ⟨rfl, name, p, rfl, -, rfl⟩
    have hbody : ∀ m ∈ p.body, m.Expression := hdefines.expression_of_mem_drop hn
    exact ⟨.unit, hs.define (.closure hbody .top)⟩
  · rintro f s' ⟨⟨e, rfl, he⟩, rfl⟩
    exact ⟨procedureOf_not_internal he, hs⟩

/-! ## Statements -/

theorem evaluate_sound (hs : s.table.Sound) (hn : n.Expression) :
    SoundStep s (evaluate limits n) := by
  obtain ⟨hvalue, herror⟩ := Eval.eval_sound hs hn .top limits.depth s.console
  refine Step.Ensures.mono (perform_ensures (eval s.tables limits.depth n scope)) ?_ ?_
  · rintro v s' ⟨hv, rfl⟩
    exact ⟨hvalue v hv, hs⟩
  · rintro f s' ⟨⟨e, rfl, he⟩, rfl⟩
    exact ⟨herror e he, hs⟩

/-- A statement that can be written is a sound step. -/
theorem statement_sound (hs : s.table.Sound) (hn : n.Statement) :
    SoundStep s (statement limits n) := by
  -- a definition brings its body into the table, and only an expression is evaluated
  rcases statement_cases limits s hn.ne_program with
    ⟨operands, hdefines, heq⟩ | ⟨e, he, heq⟩ | ⟨hdefinition, heq⟩
  · exact Step.ensures_of_eq heq (install_sound hs hn hdefines)
  · refine .of_error heq ⟨?_, hs⟩
    rcases he with rfl | ⟨v, rfl⟩ <;> exact id
  · refine Step.ensures_of_eq heq (evaluate_sound hs ?_)
    cases hn with
    | expression h _ => exact h
    | definition => exact absurd rfl (hdefinition _ _ _)

theorem reportDepth_not_internal {f : Failure} (h : ¬f.Internal) : ¬(reportDepth f).Internal := by
  unfold reportDepth
  split
  · exact id
  · exact id
  · exact h

end Session

/-! ## Requests -/

/-- Executing statements that can be written is a sound step. -/
theorem Request.execute_sound {r : Request} {s : Session} {v : Value} {ns : List Node}
    (hs : s.table.Sound) (hv : v.Sound) (hns : ∀ n ∈ ns, n.Statement) :
    Session.SoundStep s (r.execute v ns) :=
  execute_ensures .unit (fun n hn _ hs => Session.statement_sound hs (hns n hn)) hv hs

/-- A request is a sound step of a sound session. -/
theorem Request.serve_sound {s : Session} (hs : s.table.Sound) (r : Request) :
    Session.SoundStep s r.serve :=
  serve_ensures .unit (fun _ => id) (fun _ => Session.reportDepth_not_internal)
    (fun _ _ hn hs => Session.statement_sound hs hn) hs

/-- Requests keep the table of a session sound. -/
theorem Session.after_keeps_sound {s : Session} (hs : s.table.Sound) (rs : List Request) :
    (s.after rs).table.Sound := by
  refine Session.after_induction (I := fun s => s.table.Sound) hs ?_ rs
  intro s r hs
  exact ((r.serve_sound hs).mono (fun _ _ h => h.2) fun _ _ h => h.2).left

/-- The table of a session that was given texts is sound. -/
theorem Session.after_sound (console : Console) (rs : List Request) :
    ((Session.start console).after rs).table.Sound :=
  Session.after_keeps_sound Table.initial_sound rs

/-- A procedure whose body consists of expressions that can be written, where it is one. -/
def Value.BodyWritten : Value → Prop
  | .closure p _ => ∀ n ∈ p.body, n.Expression
  | _ => True

theorem Value.Sound.bodyWritten {v : Value} (h : v.Sound) : v.BodyWritten := by
  cases h with
  | closure body _ => exact body
  | _ => trivial

/-- Texts alone never lead to an internal failure.  After any requests, each of which may have
failed, one more request ends with a value or with an error of the language, and all procedures that
are reached from the table or from this value have bodies that can be written. -/
theorem texts_never_fail_internally (console : Console) (rs : List Request) (r : Request) :
    (∀ f s', r.serve ((Session.start console).after rs) = (.error f, s') → ¬f.Internal) ∧
    (∀ b ∈ ((Session.start console).after rs).table.entries,
      ∀ v, b.2.Reaches ((Session.start console).after rs).tables v → v.BodyWritten) ∧
    ∀ u s', r.serve ((Session.start console).after rs) = (.ok u, s') →
      ∀ v, u.Reaches s'.tables v → v.BodyWritten := by
  have hs := Session.after_sound console rs
  have hserve := r.serve_sound hs
  refine ⟨?_, ?_, ?_⟩
  · intro f s' h
    exact (hserve.error h).1
  · intro b hb v hv
    exact (Value.Sound.of_reaches hs (hs b hb) hv).bodyWritten
  · intro u s' h v hv
    obtain ⟨hu, hs'⟩ := hserve.ok h
    exact (Value.Sound.of_reaches hs' hu hv).bodyWritten

/-- A procedure that returns its argument. -/
def keep : Procedure := { name := some "keep", params := ["x"], body := [.identifier "x"] }

/-- The request that defines it. -/
def defineKeep : Request := .printed .run [.definition "keep" keep.params keep.body]

theorem texts_never_fail_internally_keep :
    ¬(Failure.evaluation (.argumentCount keep 0)).Internal ∧
      (Value.closure keep Session.scope).BodyWritten := by
  have hdefine : (Session.start {}).after [defineKeep] =
      ((Session.start {}).read [.definition "keep" keep.params keep.body]).defined "keep" keep :=
    congrArg Prod.snd (Request.printed_serve (by decide) (by decide) (Session.start {}))
  -- a call without the argument fails, and the name by itself gives the procedure
  have hcall : ∃ s', (Request.printed .eval [.call [.identifier "keep"]]).serve
      ((Session.start {}).after [defineKeep]) =
        (.error (.evaluation (.argumentCount keep 0)), s') := by
    rw [hdefine, Request.printed_serve (by decide) (by decide)]
    exact ⟨_, rfl⟩
  have hname : ∃ s', (Request.printed .eval [.identifier "keep"]).serve
      ((Session.start {}).after [defineKeep]) = (.ok (.closure keep Session.scope), s') := by
    rw [hdefine, Request.printed_serve (by decide) (by decide)]
    exact ⟨_, rfl⟩
  obtain ⟨s₁, hcall⟩ := hcall
  obtain ⟨s₂, hname⟩ := hname
  obtain ⟨herror, -, -⟩ := texts_never_fail_internally {} [defineKeep]
    (.printed .eval [.call [.identifier "keep"]])
  obtain ⟨-, -, hvalue⟩ := texts_never_fail_internally {} [defineKeep]
    (.printed .eval [.identifier "keep"])
  exact ⟨herror _ _ hcall, hvalue _ _ hname _ (.refl _)⟩

end MiniLisp
