/-
# MiniLisp.Proofs.Session.Step — what the steps of a session do.

`Step.Ensures` tells of one step from one session where it can end, apart for success and failure,
and comes with a rule for each way to build a step.  `Session.statement_cases` says once what a
statement can do: it installs a procedure, or it fails before it starts, or it is evaluated, and an
evaluation changes the console only.
-/
import MiniLisp.Session
import MiniLisp.Proofs.Computation
import MiniLisp.Proofs.Eval.Parameters
import MiniLisp.Proofs.Node.RoundTrip

namespace MiniLisp

/-! ## Where a step can end -/

/-- From `s` the step ends with a value as `Q` says or with a failure as `F` says, each of them
together with the session that is left. -/
def Step.Ensures {α : Type} (s : Session) (x : Step α) (Q : α → Session → Prop)
    (F : Failure → Session → Prop) : Prop :=
  match x s with
  | (.ok a, s') => Q a s'
  | (.error f, s') => F f s'

namespace Step

variable {α β : Type} {s : Session} {P Q : α → Session → Prop} {F G : Failure → Session → Prop}

theorem ensures_of_eq {x y : Step α} {s' : Session} (h : x s = y s') (hy : y.Ensures s' Q F) :
    x.Ensures s Q F := by
  unfold Ensures at hy ⊢
  rw [h]
  exact hy

namespace Ensures

theorem ok {x : Step α} {a : α} {s' : Session} (h : x.Ensures s Q F) (hx : x s = (.ok a, s')) :
    Q a s' := by
  unfold Ensures at h
  rw [hx] at h
  exact h

theorem error {x : Step α} {f : Failure} {s' : Session} (h : x.Ensures s Q F)
    (hx : x s = (.error f, s')) : F f s' := by
  unfold Ensures at h
  rw [hx] at h
  exact h

theorem of_ok {x : Step α} {a : α} {s' : Session} (hx : x s = (.ok a, s')) (h : Q a s') :
    x.Ensures s Q F := by
  unfold Ensures
  rw [hx]
  exact h

theorem of_error {x : Step α} {f : Failure} {s' : Session} (hx : x s = (.error f, s'))
    (h : F f s') : x.Ensures s Q F := by
  unfold Ensures
  rw [hx]
  exact h

/-- What is kept either way holds of the session that is left. -/
theorem left {x : Step α} {I : Session → Prop}
    (h : x.Ensures s (fun _ s' => I s') fun _ s' => I s') : I (x s).2 := by
  unfold Ensures at h
  split at h
  · next heq => rw [heq]; exact h
  · next heq => rw [heq]; exact h

theorem mono {x : Step α} (h : x.Ensures s P F) (hQ : ∀ a s', P a s' → Q a s')
    (hF : ∀ f s', F f s' → G f s') : x.Ensures s Q G := by
  unfold Ensures at h ⊢
  split at h
  · exact hQ _ _ h
  · exact hF _ _ h

theorem throw {f : Failure} (h : F f s) : (throw f : Step α).Ensures s Q F := h

theorem bind {x : Step α} {f : α → Step β} {R : β → Session → Prop} (h : x.Ensures s P F)
    (hf : ∀ a s', P a s' → (f a).Ensures s' R F) : (x >>= f).Ensures s R F := by
  unfold Ensures at h ⊢
  rw [bind_apply]
  rcases hx : x s with ⟨_ | a, s'⟩
  · rw [hx] at h
    exact h
  · rw [hx] at h
    exact hf a s' h

end Ensures

end Step

namespace Session

variable {limits : Limits} {s s' : Session} {n : Node}

theorem table_eq_of_tables_eq (h : s.tables = s'.tables) : s.table = s'.table := (List.cons.inj h).1

/-! ## Evaluation -/

/-- An action changes the console only. -/
theorem perform_ensures {α : Type} (act : Action α) :
    (perform act).Ensures s
      (fun a s' => (act s.console).1 = .ok a ∧ s' = { s with console := (act s.console).2 })
      (fun f s' => (∃ e, f = .evaluation e ∧ (act s.console).1 = .error e) ∧
        s' = { s with console := (act s.console).2 }) := by
  unfold Step.Ensures perform
  rcases h : act s.console with ⟨_ | _, _⟩
  · exact ⟨⟨_, rfl, rfl⟩, rfl⟩
  · exact ⟨rfl, rfl⟩

/-! ## Definitions -/

/-- The session with one more procedure. -/
def defined (s : Session) (name : String) (p : Procedure) : Session :=
  { s with
    table := s.table.define name (.closure p scope)
    events := s.events ++ [.defined name p.params] }

/-- The operands of a definition describe a procedure exactly if they are a name, a list of names
and a body. -/
theorem procedureOf_eq_ok_iff {operands : List Node} {name : String} {p : Procedure} :
    procedureOf operands = .ok (name, p) ↔
      operands = Node.definitionOperands name p.params p.body ∧ p.name = some name := by
  constructor
  · intro h
    unfold procedureOf at h
    split at h
    · split at h
      · next hparams =>
          cases h
          rw [Eval.parameters_eq_ok_iff.mp hparams]
          exact ⟨rfl, rfl⟩
      · cases h
    · cases h
    · cases h
  · rintro ⟨rfl, hname⟩
    have hparams : Eval.parameters name (.call (p.params.map .identifier)) = .ok p.params :=
      Eval.parameters_eq_ok_iff.mpr rfl
    simp only [Node.definitionOperands, procedureOf, hparams, ← hname]

/-- Installing a procedure defines it, or fails without a trace. -/
theorem install_ensures (operands : List Node) :
    (install operands).Ensures s
      (fun v s' => v = .unit ∧ ∃ name p, operands = Node.definitionOperands name p.params p.body ∧
        p.name = some name ∧ s' = s.defined name p)
      (fun f s' => (∃ e, f = .evaluation e ∧ procedureOf operands = .error e) ∧ s' = s) := by
  unfold install
  split
  · next e he => exact .throw ⟨⟨e, rfl, he⟩, rfl⟩
  · next name p hp =>
      obtain ⟨hoperands, hname⟩ := procedureOf_eq_ok_iff.mp hp
      exact ⟨rfl, name, p, hoperands, hname, rfl⟩

/-- A node that is a definition where `t` is the table, and the operands that it hands to the
definition form. -/
inductive Defines (t : Table) : Node → List Node → Prop
  | definition {name : String} {params : List String} {body : List Node}
      (h : t.lookup? Node.definitionKeyword = some .definer) :
      Defines t (.definition name params body) (Node.definitionOperands name params body)
  | call {x : String} {operands : List Node} (h : t.lookup? x = some .definer) :
      Defines t (.call (.identifier x :: operands)) operands

/-! ## Statements -/

theorem definitionCall?_eq_some {t : Table} {operands : List Node}
    (h : definitionCall? t n = some operands) : Defines t n operands := by
  unfold definitionCall? at h
  split at h
  · split at h
    · next hx =>
        cases h
        exact .call hx
    · cases h
  · cases h

theorem lookup_apply (x : String) (s : Session) :
    lookup x s = match s.table.lookup? x with
      | some v => (.ok v, s)
      | none => (.error (.evaluation (.unbound x)), s) := by
  have hfind : Eval.find s.tables scope x = match s.table.lookup? x with
      | some v => .ok v
      | none => .error (.unbound x) := rfl
  have happly : lookup x s = perform (Eval.find s.tables scope x) s := rfl
  rw [happly, hfind]
  cases s.table.lookup? x <;> rfl

/-- With the definition form to install it, a definition succeeds. -/
theorem statement_definition (h : s.table.lookup? Node.definitionKeyword = some .definer)
    (limits : Limits) (name : String) (params : List String) (body : List Node) :
    statement limits (.definition name params body) s =
      (.ok .unit, s.defined name { name := some name, params, body }) := by
  have hp : procedureOf (Node.definitionOperands name params body) =
      .ok (name, { name := some name, params, body }) := procedureOf_eq_ok_iff.mpr ⟨rfl, rfl⟩
  rw [statement, bind_apply, lookup_apply, h]
  simp only [install, hp]
  rfl

/-- An expression is evaluated, unless it calls the definition form by a name. -/
theorem statement_apply (limits : Limits) (s : Session) (hprogram : ∀ ns, n ≠ .program ns)
    (hdefinition : ∀ name params body, n ≠ .definition name params body) :
    statement limits n s = (definitionCall? s.table n).elim (evaluate limits n) install s := by
  have hget : (get : Step Session) s = (.ok s, s) := rfl
  rw [statement, bind_apply, hget]
  · simp only
    cases definitionCall? s.table n <;> rfl
  · exact hprogram
  · exact hdefinition

/-- A procedure that was made above another table sees the names of that table. -/
example :
    let p : Procedure := { name := none, params := [], body := [.identifier "x"] }
    let s : Session :=
      { table := { entries := [("p", .closure p (.top 1)), ("x", .int 0)] }
        others := [{ entries := [("x", .int 1)] }] }
    statement { depth := 9 } (.call [.identifier "p"]) s = (.ok (.int 1), s) := rfl

/-- What a statement does that is no program: it installs a procedure, or it is a definition without
a definition form to install it with, or it is evaluated. -/
theorem statement_cases (limits : Limits) (s : Session) (hn : ∀ ns, n ≠ .program ns) :
    (∃ operands, Defines s.table n operands ∧ statement limits n s = install operands s) ∨
    (∃ e, (e = .unbound Node.definitionKeyword ∨ ∃ v, e = .notDefinitionForm v) ∧
      statement limits n s = (.error (.evaluation e), s)) ∨
    ((∀ name params body, n ≠ .definition name params body) ∧
      statement limits n s = evaluate limits n s) := by
  by_cases hdefinition : ∃ name params body, n = .definition name params body
  · obtain ⟨name, params, body, rfl⟩ := hdefinition
    rw [statement, bind_apply, lookup_apply]
    cases hlookup : s.table.lookup? Node.definitionKeyword with
    | none => exact .inr (.inl ⟨_, .inl rfl, rfl⟩)
    | some v =>
        cases v with
        | definer => exact .inl ⟨_, .definition hlookup, rfl⟩
        | _ => exact .inr (.inl ⟨_, .inr ⟨_, rfl⟩, rfl⟩)
  · have hother : ∀ name params body, n ≠ .definition name params body :=
      fun name params body heq => hdefinition ⟨name, params, body, heq⟩
    rw [statement_apply limits s hn hother]
    cases hcall : definitionCall? s.table n with
    | none => exact .inr (.inr ⟨hother, rfl⟩)
    | some operands => exact .inl ⟨operands, definitionCall?_eq_some hcall, rfl⟩

/-! ## Requests -/

/-- The session when a text has been read. -/
def read (s : Session) (ns : List Node) : Session :=
  { s with events := s.events ++ [.parsed ns] }

theorem parse_apply (limits : Limits) (source : String) (s : Session) :
    parse limits source s = match Reader.parse limits.nesting source with
      | .error e => (.error (.reading e), s)
      | .ok ns => (.ok ns, s.read ns) := by
  unfold parse
  cases Reader.parse limits.nesting source <;> rfl

end Session

/-- The two ways to use a session: for the value of a text, or to run it. -/
inductive Request.Purpose where
  | eval
  | run

/-- What is asked of a session. -/
structure Request where
  purpose : Request.Purpose
  limits : Limits
  source : String

theorem Session.boundDepth_eq_error_iff {α : Type} {x : Step α} {s s' : Session} {g : Failure} :
    Session.boundDepth x s = (.error g, s') ↔
      ∃ f, x s = (.error f, s') ∧ g = Session.reportDepth f := by
  unfold Session.boundDepth
  rcases x s with ⟨f | a, s₁⟩
  · constructor
    · rintro ⟨⟩
      exact ⟨f, rfl, rfl⟩
    · rintro ⟨f', ⟨⟩, rfl⟩
      rfl
  · constructor
    · rintro ⟨⟩
    · rintro ⟨f', ⟨⟩, -⟩

theorem Session.boundDepth_eq_ok_iff {α : Type} {x : Step α} {s s' : Session} {a : α} :
    Session.boundDepth x s = (.ok a, s') ↔ x s = (.ok a, s') := by
  unfold Session.boundDepth
  rcases x s with ⟨f | b, s₁⟩
  · constructor <;> rintro ⟨⟩
  · exact Iff.rfl

/-- A nesting too deep is reported in place of what the step says. -/
theorem Session.boundDepth_ensures {α : Type} {s : Session} {x : Step α}
    {Q : α → Session → Prop} {F : Failure → Session → Prop} (h : x.Ensures s Q F) :
    (Session.boundDepth x).Ensures s Q (fun f s' => ∃ g, f = Session.reportDepth g ∧ F g s') := by
  unfold Step.Ensures Session.boundDepth at *
  rcases hx : x s with ⟨f | a, s'⟩
  · rw [hx] at h
    exact ⟨f, rfl, h⟩
  · rw [hx] at h
    exact h

namespace Request

/-- What is done about the statements of the text; `value` is the value where there are none. -/
def execute (r : Request) (value : Value) (ns : List Node) : Step Value :=
  match r.purpose with
  | .eval => Session.values r.limits value ns
  | .run => do
    Session.statements r.limits ns
    return .unit

/-- What is recorded of the value of a statement. -/
def note (r : Request) (v : Value) : Step Unit :=
  match r.purpose with
  | .eval => Session.record (.evaluated v)
  | .run => return ()

theorem note_apply (r : Request) (v : Value) (s : Session) :
    ∃ events, r.note v s = (.ok (), { s with events }) := by
  unfold note
  cases r.purpose with
  | eval => exact ⟨_, rfl⟩
  | run => exact ⟨s.events, rfl⟩

theorem execute_nil (r : Request) (value : Value) (s : Session) :
    ∃ v, (v = value ∨ v = .unit) ∧ r.execute value [] s = (.ok v, s) := by
  unfold execute
  cases r.purpose with
  | eval => exact ⟨value, .inl rfl, rfl⟩
  | run => exact ⟨.unit, .inr rfl, rfl⟩

/-- Statements are executed one after the other, for either purpose. -/
theorem execute_cons (r : Request) (value : Value) (n : Node) (ns : List Node) :
    r.execute value (n :: ns) = (do
      let v ← Session.statement r.limits n
      r.note v
      r.execute v ns) := by
  obtain ⟨purpose, limits, source⟩ := r
  cases purpose with
  | eval => rfl
  | run =>
      simp only [execute, note, Session.statements, bind_assoc, pure_bind]

/-- Statements are executed in one go or in two. -/
theorem execute_append (r : Request) (v : Value) (ns ms : List Node) :
    r.execute v (ns ++ ms) = r.execute v ns >>= fun w => r.execute w ms := by
  induction ns generalizing v with
  | nil =>
      obtain ⟨purpose, limits, source⟩ := r
      cases purpose <;> rfl
  | cons n ns ih => simp only [List.cons_append, execute_cons, bind_assoc, ih]

/-- The value to begin with matters only where a text without statements is asked for its value. -/
theorem execute_value (r : Request) {ns : List Node} (h : r.purpose = .run ∨ ns ≠ []) (v w : Value) :
    r.execute v ns = r.execute w ns := by
  obtain ⟨purpose, limits, source⟩ := r
  cases purpose with
  | run => rfl
  | eval =>
      cases ns with
      | nil => simp at h
      | cons n ns => rfl

/-- Serves the request. -/
def serve (r : Request) : Step Value :=
  match r.purpose with
  | .eval => Session.evalSource r.limits r.source
  | .run => Session.runSource r.limits r.source

/-- A text that is not read leaves no trace; else its statements are executed. -/
theorem serve_apply (r : Request) (s : Session) :
    r.serve s = match Reader.parse r.limits.nesting r.source with
      | .error e => (.error (Session.reportDepth (.reading e)), s)
      | .ok ns => Session.boundDepth (r.execute .unit ns) (s.read ns) := by
  obtain ⟨purpose, limits, source⟩ := r
  have hserve : serve ⟨purpose, limits, source⟩ s =
      Session.boundDepth
        (Session.parse limits source >>= execute ⟨purpose, limits, source⟩ .unit) s := by
    cases purpose <;> rfl
  rw [hserve]
  unfold Session.boundDepth
  rw [bind_apply, Session.parse_apply]
  cases Reader.parse limits.nesting source <;> rfl

/-- A text that is not read leaves no trace. -/
theorem serve_of_unread {r : Request} {e : ReadError}
    (h : Reader.parse r.limits.nesting r.source = .error e) (s : Session) :
    r.serve s = (.error (Session.reportDepth (.reading e)), s) := by
  rw [r.serve_apply, h]

/-- The statements of a text that is read are executed. -/
theorem serve_of_parse {r : Request} {ns : List Node}
    (h : Reader.parse r.limits.nesting r.source = .ok ns) (s : Session) :
    r.serve s = Session.boundDepth (r.execute .unit ns) (s.read ns) := by
  rw [r.serve_apply, h]

section Invariants

variable {r : Request} {I : Table → Prop} {V : Value → Prop} {F : Failure → Prop} {s : Session}

/-- What every statement keeps of the table, and ensures of values and failures, holds of statements
in a row. -/
theorem execute_ensures {ns : List Node} {v : Value} (hunit : V .unit)
    (hstatement : ∀ n ∈ ns, ∀ s, I s.table → (Session.statement r.limits n).Ensures s
      (fun w s' => V w ∧ I s'.table) fun f s' => F f ∧ I s'.table)
    (hv : V v) (hs : I s.table) :
    (r.execute v ns).Ensures s (fun w s' => V w ∧ I s'.table) fun f s' => F f ∧ I s'.table := by
  induction ns generalizing s v with
  | nil =>
      obtain ⟨w, hw, heq⟩ := r.execute_nil v s
      refine .of_ok heq ⟨?_, hs⟩
      rcases hw with rfl | rfl
      · exact hv
      · exact hunit
  | cons n ns ih =>
      rw [r.execute_cons]
      refine .bind (hstatement n List.mem_cons_self s hs) fun w s₁ hw => ?_
      obtain ⟨events, heq⟩ := r.note_apply w s₁
      refine .bind (P := fun _ s₂ => I s₂.table) (.of_ok heq hw.2) fun _ s₂ hs₂ => ?_
      exact ih (fun m hm => hstatement m (List.mem_cons_of_mem n hm)) hw.1 hs₂

/-- The same for a request: a text that is not read keeps the table too. -/
theorem serve_ensures (hunit : V .unit) (hreading : ∀ e, F (.reading e))
    (hreport : ∀ f, F f → F (Session.reportDepth f))
    (hstatement : ∀ n s, n.Statement → I s.table → (Session.statement r.limits n).Ensures s
      (fun w s' => V w ∧ I s'.table) fun f s' => F f ∧ I s'.table)
    (hs : I s.table) :
    r.serve.Ensures s (fun w s' => V w ∧ I s'.table) fun f s' => F f ∧ I s'.table := by
  cases hparse : Reader.parse r.limits.nesting r.source with
  | error e =>
      refine .of_error (serve_of_unread hparse s) ⟨?_, hs⟩
      exact hreport _ (hreading e)
  | ok ns =>
      have hns : ∀ n ∈ ns, n.Statement := (Reader.parse_eq_ok_iff.mp hparse).1
      have hexecute := execute_ensures (r := r) (s := s.read ns) hunit
        (fun n hn s => hstatement n s (hns n hn)) hunit hs
      refine Step.ensures_of_eq (serve_of_parse hparse s)
        ((Session.boundDepth_ensures hexecute).mono ?_ ?_)
      · exact fun _ _ h => h
      · rintro f s' ⟨g, rfl, hg, hs'⟩
        exact ⟨hreport g hg, hs'⟩

end Invariants

/-- The request of a text as it is printed, with room for nine of everything. -/
def printed (purpose : Purpose) (ns : List Node) : Request where
  purpose
  limits := { nesting := 9, depth := 9 }
  source := (Node.program ns).format

theorem printed_parse {purpose : Purpose} {ns : List Node} (hns : (Node.program ns).WellFormed)
    (hroom : Node.nestingAll ns ≤ 9) :
    Reader.parse (printed purpose ns).limits.nesting (printed purpose ns).source = .ok ns :=
  Reader.parse_format hns hroom

/-- A program that is printed is executed. -/
theorem printed_serve {purpose : Purpose} {ns : List Node} (hns : (Node.program ns).WellFormed)
    (hroom : Node.nestingAll ns ≤ 9) (s : Session) :
    (printed purpose ns).serve s =
      Session.boundDepth ((printed purpose ns).execute .unit ns) (s.read ns) :=
  serve_of_parse (printed_parse hns hroom) s

end Request

namespace Session

/-- The session after some requests, each of which may succeed or fail. -/
def after (s : Session) (rs : List Request) : Session := rs.foldl (fun s r => (r.serve s).2) s

/-- A new session with a console. -/
def start (console : Console) : Session := { console }

/-- What every request keeps is kept by all of them. -/
theorem after_induction {I : Session → Prop} {s : Session} (hs : I s)
    (hserve : ∀ s (r : Request), I s → I (r.serve s).2) (rs : List Request) : I (s.after rs) := by
  unfold after
  induction rs generalizing s with
  | nil => exact hs
  | cons r rs ih => exact ih (hserve s r hs)

end Session

end MiniLisp
