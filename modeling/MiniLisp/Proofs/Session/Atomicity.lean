/-
# MiniLisp.Proofs.Session.Atomicity — a statement defines one procedure or nothing.

The tables of a session change in one way only: a statement installs the procedure that it writes in
the session's own table.  A statement that fails changes no binding, however deep the evaluation was
that failed, since evaluation reads the tables and nothing more.  For a text it follows that its
first failing statement ends it, and what the statements in front of it defined stays.
-/
import MiniLisp.Proofs.Node.Reading
import MiniLisp.Proofs.Session.Step

namespace MiniLisp

namespace Session

variable {limits : Limits} {s : Session} {n : Node}

/-- A statement that is no program leaves the tables as they were, or it is a definition and adds
its procedure to the session. -/
theorem statement_ensures (limits : Limits) (s : Session) (hn : ∀ ns, n ≠ .program ns) :
    (statement limits n).Ensures s
      (fun v s' => s'.tables = s.tables ∨ v = .unit ∧ ∃ name p, p.name = some name ∧
        Defines s.table n (Node.definitionOperands name p.params p.body) ∧ s' = s.defined name p)
      (fun _ s' => s'.tables = s.tables) := by
  rcases statement_cases limits s hn with ⟨operands, hdefines, heq⟩ | ⟨e, -, heq⟩ | ⟨-, heq⟩
  · refine Step.ensures_of_eq heq ((install_ensures operands).mono ?_ ?_)
    · rintro v s' ⟨hv, name, p, rfl, hname, rfl⟩
      exact .inr ⟨hv, name, p, hname, hdefines, rfl⟩
    · rintro f s' ⟨-, rfl⟩
      rfl
  · exact .of_error heq rfl
  · -- an evaluation gets the tables to read and the console to change
    refine Step.ensures_of_eq heq ?_
    refine Step.Ensures.mono (perform_ensures (eval s.tables limits.depth n scope)) ?_ ?_
    · rintro v s' ⟨-, rfl⟩
      exact .inl rfl
    · rintro f s' ⟨-, rfl⟩
      rfl

end Session

/-! ## The first failure -/

namespace Request

variable {r : Request} {v : Value} {s s' : Session} {f : Failure}

/-- The first statement that fails ends the execution. -/
theorem execute_of_first_failure {pre : List Node} {n : Node} {w : Value} {s₁ : Session}
    (hpre : r.execute v pre s = (.ok w, s₁))
    (hn : Session.statement r.limits n s₁ = (.error f, s')) (post : List Node) :
    r.execute v (pre ++ n :: post) s = (.error f, s') := by
  -- along the statements in front, which all succeed
  induction pre generalizing v s with
  | nil =>
      obtain ⟨u, -, heq⟩ := r.execute_nil v s
      rw [heq] at hpre
      cases hpre
      rw [List.nil_append, r.execute_cons, bind_apply, hn]
  | cons m pre ih =>
      rw [r.execute_cons, bind_apply] at hpre
      rw [List.cons_append, r.execute_cons, bind_apply]
      rcases hm : Session.statement r.limits m s with ⟨g | u, s₂⟩
      · rw [hm] at hpre
        cases hpre
      · obtain ⟨events, hnote⟩ := r.note_apply u s₂
        rw [hm] at hpre
        simp only [bind_apply, hnote] at hpre ⊢
        exact ih hpre

/-- An execution that fails has a first statement that fails. -/
theorem exists_first_failure {ns : List Node} (h : r.execute v ns s = (.error f, s')) :
    ∃ pre n post w s₁, ns = pre ++ n :: post ∧ r.execute v pre s = (.ok w, s₁) ∧
      Session.statement r.limits n s₁ = (.error f, s') := by
  induction ns generalizing v s with
  | nil =>
      obtain ⟨u, -, heq⟩ := r.execute_nil v s
      rw [heq] at h
      cases h
  | cons n ns ih =>
      rw [r.execute_cons, bind_apply] at h
      rcases hn : Session.statement r.limits n s with ⟨g | u, s₂⟩
      · rw [hn] at h
        cases h
        obtain ⟨w, -, heq⟩ := r.execute_nil v s
        exact ⟨[], n, ns, w, s, rfl, heq, hn⟩
      · obtain ⟨events, hnote⟩ := r.note_apply u s₂
        rw [hn] at h
        simp only [bind_apply, hnote] at h
        obtain ⟨pre, m, post, w, s₁, rfl, hpre, hm⟩ := ih h
        refine ⟨n :: pre, m, post, w, s₁, rfl, ?_, hm⟩
        rw [r.execute_cons, bind_apply, hn]
        simp only [bind_apply, hnote]
        exact hpre

end Request

/-- Failure is atomic for each statement, and definitions have a single channel.  A statement that
is no program and fails changes no binding of any table.  If it succeeds and a table has changed,
then it is a definition, the session's own table has one name set to the procedure that it writes,
in the scope of statements, and there is no other effect on the tables, the console or the result.
So a text that is not read changes nothing, and of a text that is read the first statement that
fails ends the run in the session it leaves, with the bindings that the statements in front of it
made, and there is such a statement whenever the run fails. -/
theorem statements_fail_atomically :
    (∀ (limits : Limits) (s : Session) (n : Node), (∀ ns, n ≠ .program ns) →
      (∀ f s', Session.statement limits n s = (.error f, s') → s'.tables = s.tables) ∧
      ∀ v s', Session.statement limits n s = (.ok v, s') → s'.tables ≠ s.tables →
        ∃ name p, p.name = some name ∧
          Session.Defines s.table n (Node.definitionOperands name p.params p.body) ∧
          s'.table = s.table.define name (.closure p Session.scope) ∧ s'.others = s.others ∧
          (∀ x, s'.table.lookup? x =
            if x = name then some (.closure p Session.scope) else s.table.lookup? x) ∧
          v = .unit ∧ s'.console = s.console) ∧
    (∀ (r : Request) (s : Session) (e : ReadError),
      Reader.parse r.limits.nesting r.source = .error e →
      r.serve s = (.error (Session.reportDepth (.reading e)), s)) ∧
    ∀ (r : Request) (s : Session) (ns : List Node),
      Reader.parse r.limits.nesting r.source = .ok ns →
      (∀ pre n post w s₁ f s₂, ns = pre ++ n :: post →
        r.execute .unit pre (s.read ns) = (.ok w, s₁) →
        Session.statement r.limits n s₁ = (.error f, s₂) →
        r.serve s = (.error (Session.reportDepth f), s₂) ∧ s₂.tables = s₁.tables) ∧
      ∀ g s₂, r.serve s = (.error g, s₂) →
        ∃ pre n post w s₁ f, ns = pre ++ n :: post ∧
          r.execute .unit pre (s.read ns) = (.ok w, s₁) ∧
          Session.statement r.limits n s₁ = (.error f, s₂) ∧ g = Session.reportDepth f := by
  refine ⟨?_, ?_, ?_⟩
  · intro limits s n hn
    have hstep := Session.statement_ensures limits s hn
    refine ⟨fun f s' h => hstep.error h, ?_⟩
    intro v s' h hchanged
    rcases hstep.ok h with hsame | ⟨hv, name, p, hname, hdefines, rfl⟩
    · exact absurd hsame hchanged
    · exact ⟨name, p, hname, hdefines, rfl, rfl, s.table.lookup?_define name _, hv, rfl⟩
  · intro r s e he
    rw [r.serve_apply, he]
  · intro r s ns hns
    have hserve : r.serve s = Session.boundDepth (r.execute .unit ns) (s.read ns) := by
      rw [r.serve_apply, hns]
    constructor
    · rintro pre n post w s₁ f s₂ rfl hpre hn
      have hexecute := Request.execute_of_first_failure hpre hn
      refine ⟨?_, ?_⟩
      · rw [hserve]
        exact Session.boundDepth_eq_error_iff.mpr ⟨f, hexecute post, rfl⟩
      · have hstatement := (Reader.parse_eq_ok_iff.mp hns).1 n (by simp)
        exact (Session.statement_ensures r.limits s₁ hstatement.ne_program).error hn
    · intro g s₂ hfail
      rw [hserve] at hfail
      obtain ⟨f, hexecute, hg⟩ := Session.boundDepth_eq_error_iff.mp hfail
      obtain ⟨pre, n, post, w, s₁, hsplit, hpre, hn⟩ := Request.exists_first_failure hexecute
      exact ⟨pre, n, post, w, s₁, f, hsplit, hpre, hn, hg⟩

/-- A procedure of no arguments. -/
def one : Procedure := { name := some "one", params := [], body := [.literal (.integer 1)] }

/-- The statement that defines it. -/
def oneNode : Node := .definition "one" one.params one.body

/-- A definition, a statement that fails, and one that is never reached. -/
def cutShort : List Node :=
  [oneNode, .call [.identifier "one", .identifier "nowhere"], .definition "two" [] one.body]

theorem statements_fail_atomically_cutShort :
    let s := Session.start {}
    let r := Request.printed .run cutShort
    (Session.statement r.limits (.identifier "nowhere") s).2.tables = s.tables ∧
      (∃ name p, s.table.define "one" (.closure one Session.scope) =
        s.table.define name (.closure p Session.scope)) ∧
      ({ r with limits := { nesting := 0 } } : Request).serve s = (.error .depthExceeded, s) ∧
      (r.serve s).2.table = s.table.define "one" (.closure one Session.scope) := by
  intro s r
  obtain ⟨hstatement, hunread, hread⟩ := statements_fail_atomically
  have hfail : Session.statement r.limits (.identifier "nowhere") s =
      (.error (.evaluation (.unbound "nowhere")), s) := rfl
  have hdefine : Session.statement r.limits oneNode s = (.ok .unit, s.defined "one" one) := rfl
  have hchanged : (s.defined "one" one).tables ≠ s.tables := by
    intro h
    have hlookup := congrArg (fun ts => (ts.lookup? 0 "one").isSome) h
    cases hlookup
  have hformat : Spells (Node.program cutShort).format.toList (Node.tokensAll cutShort) :=
    Node.WellFormed.spells_format (by decide : (Node.program cutShort).WellFormed)
  have hparse : ∀ limit, Reader.parse limit r.source = Reader.readBack limit cutShort :=
    fun limit => Reader.parse_of_spells (by decide) hformat
  refine ⟨?_, ?_, ?_, ?_⟩
  · exact (hstatement r.limits s (.identifier "nowhere") nofun).1 _ _ hfail
  · obtain ⟨name, p, -, -, htable, -⟩ := (hstatement r.limits s oneNode nofun).2 _ _ hdefine
      hchanged
    exact ⟨name, p, htable⟩
  · exact hunread { r with limits := { nesting := 0 } } s .tooDeep (hparse 0)
  · obtain ⟨hfirst, -⟩ := hread r s cutShort (hparse 9)
    -- the call fails as its operand does, before its arguments are counted
    obtain ⟨hserve, htables⟩ := hfirst [oneNode] (.call [.identifier "one", .identifier "nowhere"])
      [.definition "two" [] one.body] .unit _ (.evaluation (.unbound "nowhere")) _ rfl rfl rfl
    rw [hserve]
    exact Session.table_eq_of_tables_eq htables

end MiniLisp
