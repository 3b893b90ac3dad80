/-
# MiniLisp.Proofs.Session.Grouping — one program, however it is asked for and grouped.

A text is run statement by statement, whether it is for the value of the last one or just to run it.
The two ways differ in what they record and in the result, and records have no influence, so they
go through the same tables and consoles and stop at the same statement.  A program among the
statements of a program is run in its place.  So all that counts of a program of programs is the row
of its statements, `Node.flattenedAll`.
-/
import MiniLisp.Proofs.Session.Beside

namespace MiniLisp

/-! ## Programs in programs -/

namespace Node

mutual

/-- A statement by itself, or the statements of a program in order, also those of the programs in
it. -/
def flattened : Node → List Node
  | .program ns => flattenedAll ns
  | n => [n]

/-- The statements of each tree in turn. -/
def flattenedAll : List Node → List Node
  | [] => []
  | n :: ns => n.flattened ++ flattenedAll ns

end

theorem flattened_of_ne_program {n : Node} (h : ∀ ms, n ≠ .program ms) : n.flattened = [n] := by
  cases n with
  | program ns => exact absurd rfl (h ns)
  | _ => rfl

mutual

/-- No program is left. -/
theorem ne_program_of_mem_flattened : ∀ (n : Node), ∀ m ∈ n.flattened, ∀ ms, m ≠ .program ms
  | .program ns => by
      rw [flattened]
      exact ne_program_of_mem_flattenedAll ns
  | .literal _ | .identifier _ | .call _ | .definition _ _ _ | .bare _ => by simp [flattened]

theorem ne_program_of_mem_flattenedAll :
    ∀ (ns : List Node), ∀ m ∈ flattenedAll ns, ∀ ms, m ≠ .program ms
  | [] => by simp [flattenedAll]
  | n :: ns => by
      intro m hm
      rw [flattenedAll, List.mem_append] at hm
      rcases hm with hm | hm
      · exact ne_program_of_mem_flattened n m hm
      · exact ne_program_of_mem_flattenedAll ns m hm

end

end Node

namespace Session

variable {limits : Limits}

/-- Statements are evaluated in one go or in two. -/
theorem statements_append (limits : Limits) (ns ms : List Node) :
    statements limits (ns ++ ms) = statements limits ns >>= fun _ => statements limits ms := by
  induction ns with
  | nil => rfl
  | cons n ns ih => simp only [List.cons_append, statements, ih, bind_assoc]

theorem statements_singleton (limits : Limits) (n : Node) :
    statements limits [n] = statement limits n >>= fun _ => pure () := by
  simp only [statements]

mutual

/-- Evaluating a tree is evaluating its statements in turn. -/
theorem statements_flattened :
    (n : Node) → statements limits n.flattened = statement limits n >>= fun _ => pure ()
  | .program ns => by
      rw [Node.flattened, statements_flattenedAll ns, statement]
      simp only [bind_assoc, pure_bind, bind_pure_unit]
  | .literal _ | .identifier _ | .call _ | .definition _ _ _ | .bare _ => by
      rw [Node.flattened_of_ne_program (by simp), statements_singleton]

theorem statements_flattenedAll :
    (ns : List Node) → statements limits (Node.flattenedAll ns) = statements limits ns
  | [] => rfl
  | n :: ns => by
      rw [Node.flattenedAll, statements_append, statements_flattened n, statements_flattenedAll ns]
      simp only [statements, bind_assoc, pure_bind]

end

/-! ## For the value, or just to run -/

/-- Statements evaluated for their values and statements that are just run end alike: what is
recorded of the values is not looked at. -/
theorem values_beside_statements {ns : List Node} (hns : ∀ n ∈ ns, ∀ ms, n ≠ .program ms)
    (v : Value) {s s' : Session} (h : s.Beside (· = ·) s') :
    Step.EndAlike (· = ·) (fun _ w => w = .unit) (values limits v ns s)
      ((do statements limits ns; return Value.unit) s') := by
  induction ns generalizing v s s' with
  | nil => exact .ok rfl h
  | cons n ns ih =>
      obtain ⟨hn, hrest⟩ := List.forall_mem_cons.mp hns
      have hstatement := statement_alike (overlooks_eq limits n) hn h
      simp only [statements, bind_assoc]
      refine hstatement.bind fun w _ s₁ s₁' _ h₁ => ?_
      have hrecord : record (.evaluated w) s₁ =
          (.ok (), { s₁ with events := s₁.events ++ [.evaluated w] }) := rfl
      rw [bind_apply, hrecord]
      exact ih hrest w h₁.recorded

/-- The value of statements is the one it began with where there are none, and else the value of the
last of them, after which nothing happens but that it is recorded. -/
theorem values_eq_ok {ns : List Node} {v w : Value} {s s' : Session}
    (h : values limits v ns s = (.ok w, s')) :
    ns = [] ∧ w = v ∨ ∃ pre n u s₁ s₂, ns = pre ++ [n] ∧
      values limits v pre s = (.ok u, s₁) ∧ statement limits n s₁ = (.ok w, s₂) ∧
        s' = { s₂ with events := s₂.events ++ [.evaluated w] } := by
  rcases List.eq_nil_or_concat ns with rfl | ⟨pre, n, rfl⟩
  · cases h
    exact .inl ⟨rfl, rfl⟩
  · rw [List.concat_eq_append] at h ⊢
    have happend : values limits v (pre ++ [n]) =
        values limits v pre >>= fun u => values limits u [n] :=
      Request.execute_append ⟨.eval, limits, ""⟩ v pre [n]
    rw [happend, bind_apply] at h
    rcases hpre : values limits v pre s with ⟨f | u, s₁⟩
    · rw [hpre] at h
      cases h
    · simp only [hpre, values, bind_apply] at h
      rcases hn : statement limits n s₁ with ⟨f | x, s₂⟩
      · rw [hn] at h
        cases h
      · rw [hn] at h
        cases h
        exact .inr ⟨pre, n, u, s₁, s₂, rfl, hpre, hn, rfl⟩

/-- To ask for the value of a text ends like running it. -/
theorem evalSource_beside_runSource (limits : Limits) (source : String) (s : Session) :
    Step.EndAlike (· = ·) (fun _ w => w = .unit) (evalSource limits source s)
      (runSource limits source s) := by
  have heval : evalSource limits source s = _ := Request.serve_apply ⟨.eval, limits, source⟩ s
  have hrun : runSource limits source s = _ := Request.serve_apply ⟨.run, limits, source⟩ s
  rw [heval, hrun]
  cases hparse : Reader.parse limits.nesting source with
  | error e => exact .error ⟨rfl, rfl, rfl⟩
  | ok ns =>
      have hns : ∀ n ∈ ns, ∀ ms, n ≠ .program ms := fun n hn =>
        ((Reader.parse_eq_ok_iff.mp hparse).1 n hn).ne_program
      exact .boundDepth (values_beside_statements hns .unit ⟨rfl, rfl, rfl⟩)

/-- A text has the value of its last statement, or the unit where it has none. -/
theorem evalSource_eq_ok {source : String} {v : Value} {s s' : Session}
    (h : evalSource limits source s = (.ok v, s')) :
    ∃ ns, Reader.parse limits.nesting source = .ok ns ∧
      (ns = [] ∧ v = .unit ∨ ∃ pre n u s₁ s₂, ns = pre ++ [n] ∧
        values limits .unit pre (s.read ns) = (.ok u, s₁) ∧
        statement limits n s₁ = (.ok v, s₂) ∧
        s' = { s₂ with events := s₂.events ++ [.evaluated v] }) := by
  have heval : evalSource limits source s = _ := Request.serve_apply ⟨.eval, limits, source⟩ s
  rw [heval] at h
  cases hparse : Reader.parse limits.nesting source with
  | error e =>
      rw [hparse] at h
      cases h
  | ok ns =>
      rw [hparse] at h
      exact ⟨ns, rfl, values_eq_ok (boundDepth_eq_ok_iff.mp h)⟩

end Session

/-! ## The theorem -/

/-- To ask for the value of a text and to run it are the same but for the result, and it does not
matter how statements are grouped into programs.  From every session the two ways to use a text end
alike: both succeed or both fail with the same failure, and the tables and consoles are the same.
To run a text has no value, and the value of a text is that of its last statement, evaluated in the
session that the statements in front of it leave, or the unit where there is no statement.  And a
program of statements and programs, nested in any way, is the program of its statements in order.
-/
theorem eval_and_run_alike (limits : Limits) (s : Session) :
    (∀ source,
      Step.EndAlike (· = ·) (fun _ w => w = .unit) (Session.evalSource limits source s)
        (Session.runSource limits source s) ∧
      ∀ v s', Session.evalSource limits source s = (.ok v, s') →
        ∃ ns, Reader.parse limits.nesting source = .ok ns ∧
          (ns = [] ∧ v = .unit ∨ ∃ pre n u s₁ s₂, ns = pre ++ [n] ∧
            Session.values limits .unit pre (s.read ns) = (.ok u, s₁) ∧
            Session.statement limits n s₁ = (.ok v, s₂) ∧
            s' = { s₂ with events := s₂.events ++ [.evaluated v] })) ∧
    ∀ ns, (∀ n ∈ Node.flattenedAll ns, ∀ ms, n ≠ .program ms) ∧
      Session.statement limits (.program ns) s =
        Session.statement limits (.program (Node.flattenedAll ns)) s := by
  refine ⟨fun source => ?_, fun ns => ⟨Node.ne_program_of_mem_flattenedAll ns, ?_⟩⟩
  · exact ⟨Session.evalSource_beside_runSource limits source s,
      fun v s' h => Session.evalSource_eq_ok h⟩
  · rw [Session.statement, Session.statement, Session.statements_flattenedAll]

/-- A statement that writes, and one that has a value. -/
def greetSeven : List Node :=
  [.call [.identifier "write", .literal (.string "a")], .literal (.integer 7)]

theorem eval_and_run_alike_greetSeven :
    let limits : Limits := { nesting := 9, depth := 9 }
    let source := (Node.program greetSeven).format
    let grouped := Node.program [.program [], .program [.program greetSeven.dropLast],
      .program greetSeven.tail]
    (Session.runSource limits source {}).1 = .ok .unit ∧
      (Session.runSource limits source {}).2.console.output = "a\n" ∧
      (∃ n s₁ s₂, Session.statement limits n s₁ = (.ok (.int 7), s₂)) ∧
      Session.statement limits grouped {} = Session.statement limits (.program greetSeven) {} := by
  intro limits source grouped
  obtain ⟨htexts, hgroups⟩ := eval_and_run_alike limits {}
  obtain ⟨⟨hresults, hsessions⟩, hlast⟩ := htexts source
  have hserve : (Request.printed .eval greetSeven).serve {} = _ :=
    Request.printed_serve (by decide) (by decide) {}
  have heval : Session.evalSource limits source {} = (.ok (.int 7), _) := hserve
  rw [heval] at hresults hsessions
  obtain ⟨-, hgrouped⟩ := hgroups [.program [], .program [.program greetSeven.dropLast],
    .program greetSeven.tail]
  refine ⟨?_, hsessions.console ▸ rfl, ?_, hgrouped⟩
  · generalize (Session.runSource limits source {}).1 = result at hresults ⊢
    cases hresults with
    | ok hunit => rw [hunit]
  · obtain ⟨ns, -, ⟨-, hunit⟩ | ⟨pre, n, u, s₁, s₂, -, -, hn, -⟩⟩ := hlast _ _ heval
    · cases hunit
    · exact ⟨n, s₁, s₂, hn⟩

end MiniLisp
