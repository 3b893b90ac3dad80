/-
# MiniLisp.Proofs.Session.Beside — two sessions side by side.

Two sessions stand side by side if they have one console and tables that are related in some given
way, beside the same other tables; what they have recorded does not count.  A statement that does
not tell related tables apart does the same in both, and so do statements in a row and whole
requests: they have the same result, and the sessions stand side by side again.  With equality for
the relation this says that records have no influence on a session.
-/
import MiniLisp.Proofs.Eval.Simulation
import MiniLisp.Proofs.Session.Step

namespace MiniLisp

/-- One console, tables that `T` relates, and the same other tables. -/
structure Session.Beside (T : Table → Table → Prop) (s s' : Session) : Prop where
  table : T s.table s'.table
  console : s.console = s'.console
  others : s.others = s'.others

/-- What is recorded on either side makes no difference. -/
theorem Session.Beside.recorded {T : Table → Table → Prop} {s s' : Session} (h : s.Beside T s')
    {es es' : List Event} :
    Session.Beside T { s with events := es } { s' with events := es' } :=
  ⟨h.table, h.console, h.others⟩

/-- Two steps that have ended alike: with values that `V` relates or with the same failure, in
sessions side by side. -/
structure Step.EndAlike {α β : Type} (T : Table → Table → Prop) (V : α → β → Prop)
    (r : Except Failure α × Session) (r' : Except Failure β × Session) : Prop where
  results : Agree V (· = ·) r.1 r'.1
  sessions : r.2.Beside T r'.2

/-! ## Steps -/

namespace Step.EndAlike

variable {α β γ δ : Type} {T : Table → Table → Prop} {V : α → β → Prop} {W : γ → δ → Prop}
  {s s' : Session}

theorem ok {a : α} {b : β} (h : V a b) (hs : s.Beside T s') :
    EndAlike T V (.ok a, s) (.ok b, s') :=
  ⟨.ok h, hs⟩

theorem error {f : Failure} (hs : s.Beside T s') :
    EndAlike T V (.error f, s) (.error f, s') :=
  ⟨.error rfl, hs⟩

theorem mono {V' : α → β → Prop} {r : Except Failure α × Session} {r' : Except Failure β × Session}
    (h : EndAlike T V r r') (hV : ∀ a b, V a b → V' a b) : EndAlike T V' r r' := by
  obtain ⟨hresults, hs⟩ := h
  refine ⟨?_, hs⟩
  generalize r.1 = x, r'.1 = y at hresults
  cases hresults with
  | ok hab => exact .ok (hV _ _ hab)
  | error hf => exact .error hf

theorem result_eq {r r' : Except Failure α × Session} (h : EndAlike T (· = ·) r r') :
    r.1 = r'.1 := by
  obtain ⟨hresults, -⟩ := h
  generalize r.1 = x, r'.1 = y at hresults
  cases hresults with
  | ok h => rw [h]
  | error h => rw [h]

/-- The second parts may let the tables differ more than the first ones do. -/
theorem bind_weaken {T' : Table → Table → Prop} {x : Step α} {y : Step β} {f : α → Step γ}
    {g : β → Step δ} (hT : ∀ t u, T t u → T' t u) (h : EndAlike T V (x s) (y s'))
    (hfg : ∀ a b s s', V a b → s.Beside T s' → EndAlike T' W (f a s) (g b s')) :
    EndAlike T' W ((x >>= f) s) ((y >>= g) s') := by
  obtain ⟨hresults, hs⟩ := h
  rw [bind_apply, bind_apply]
  rcases hx : x s with ⟨r, s₁⟩
  rcases hy : y s' with ⟨r', s₁'⟩
  rw [hx, hy] at hresults hs
  cases hresults with
  | ok hab => exact hfg _ _ _ _ hab hs
  | error hf => exact ⟨.error hf, hT _ _ hs.table, hs.console, hs.others⟩

theorem bind {x : Step α} {y : Step β} {f : α → Step γ} {g : β → Step δ}
    (h : EndAlike T V (x s) (y s'))
    (hfg : ∀ a b s s', V a b → s.Beside T s' → EndAlike T W (f a s) (g b s')) :
    EndAlike T W ((x >>= f) s) ((y >>= g) s') :=
  bind_weaken (fun _ _ h => h) h hfg

/-- A nesting too deep is reported alike. -/
theorem boundDepth {x : Step α} {y : Step β} (h : EndAlike T V (x s) (y s')) :
    EndAlike T V (Session.boundDepth x s) (Session.boundDepth y s') := by
  obtain ⟨hresults, hs⟩ := h
  unfold Session.boundDepth
  rcases hx : x s with ⟨r, s₁⟩
  rcases hy : y s' with ⟨r', s₁'⟩
  rw [hx, hy] at hresults hs
  cases hresults with
  | ok hab => exact .ok hab hs
  | error hf => exact ⟨.error (congrArg _ hf), hs⟩

end Step.EndAlike

/-! ## Statements -/

namespace Session

variable {T : Table → Table → Prop} {limits : Limits} {s s' : Session}

/-- A statement that does not tell apart tables that `T` relates, whatever other tables there are. -/
structure Overlooks (T : Table → Table → Prop) (limits : Limits) (n : Node) : Prop where
  keyword : ∀ {t u}, T t u →
    t.lookup? Node.definitionKeyword = u.lookup? Node.definitionKeyword
  operands : ∀ {t u}, T t u → definitionCall? t n = definitionCall? u n
  value : ∀ {t u} (ts : Tables), T t u →
    eval (t :: ts) limits.depth n scope = eval (u :: ts) limits.depth n scope
  define : ∀ {t u name p}, T t u → Defines t n (Node.definitionOperands name p.params p.body) →
    T (t.define name (.closure p scope)) (u.define name (.closure p scope))

theorem overlooks_eq (limits : Limits) (n : Node) : Overlooks (· = ·) limits n where
  keyword h := by rw [h]
  operands h := by rw [h]
  value _ h := by rw [h]
  define h _ := by rw [h]

/-- An action does the same to one console. -/
theorem perform_alike {α : Type} (act : Action α) (h : s.Beside T s') :
    Step.EndAlike T (· = ·) (perform act s) (perform act s') := by
  unfold perform
  rw [← h.console]
  rcases act s.console with ⟨_ | a, console⟩
  · exact .error ⟨h.table, rfl, h.others⟩
  · exact .ok rfl ⟨h.table, rfl, h.others⟩

/-- The same procedure is installed in both sessions, or none. -/
theorem install_alike {operands : List Node} (h : s.Beside T s')
    (hdefine : ∀ name p, operands = Node.definitionOperands name p.params p.body →
      T (s.table.define name (.closure p scope)) (s'.table.define name (.closure p scope))) :
    Step.EndAlike T (· = ·) (install operands s) (install operands s') := by
  unfold install
  cases hp : procedureOf operands with
  | error e => exact .error h
  | ok described =>
      obtain ⟨name, p⟩ := described
      exact .ok rfl ⟨hdefine name p (procedureOf_eq_ok_iff.mp hp).1, h.console, h.others⟩

/-- A statement does the same in sessions that it does not tell apart. -/
theorem statement_alike {n : Node} (hn : Overlooks T limits n) (hprogram : ∀ ns, n ≠ .program ns)
    (h : s.Beside T s') :
    Step.EndAlike T (· = ·) (statement limits n s) (statement limits n s') := by
  by_cases hdefinition : ∃ name params body, n = .definition name params body
  · obtain ⟨name, params, body, rfl⟩ := hdefinition
    rw [statement, bind_apply, bind_apply, lookup_apply, lookup_apply, ← hn.keyword h.table]
    cases hlookup : s.table.lookup? Node.definitionKeyword with
    | none => exact .error h
    | some v =>
        cases v with
        | definer =>
            refine install_alike h fun name p heq => hn.define h.table ?_
            exact heq ▸ .definition hlookup
        | _ => exact .error h
  · have hother : ∀ name params body, n ≠ .definition name params body :=
      fun name params body heq => hdefinition ⟨name, params, body, heq⟩
    rw [statement_apply limits s hprogram hother, statement_apply limits s' hprogram hother,
      ← hn.operands h.table]
    cases hcall : definitionCall? s.table n with
    | none =>
        have hvalue : eval s.tables limits.depth n scope = eval s'.tables limits.depth n scope := by
          rw [Session.tables, Session.tables, ← h.others]
          exact hn.value s.others h.table
        have happly : evaluate limits n s' = perform (eval s.tables limits.depth n scope) s' := by
          rw [hvalue]
          rfl
        simp only [Option.elim_none, happly]
        exact perform_alike _ h
    | some operands =>
        refine install_alike h fun name p heq => hn.define h.table ?_
        exact heq ▸ definitionCall?_eq_some hcall

/-- Reading a text has nothing to do with the session. -/
theorem parse_alike (source : String) (h : s.Beside T s') :
    Step.EndAlike T (· = ·) (parse limits source s) (parse limits source s') := by
  rw [parse_apply, parse_apply]
  cases Reader.parse limits.nesting source with
  | error e => exact .error h
  | ok ns => exact .ok rfl h.recorded

end Session

/-! ## Requests -/

namespace Request

variable {T : Table → Table → Prop} {s s' : Session}

/-- Statements in a row do the same in sessions that none of them tells apart. -/
theorem execute_alike (r : Request) {ns : List Node}
    (hns : ∀ n ∈ ns, Session.Overlooks T r.limits n ∧ ∀ ms, n ≠ .program ms) (v : Value)
    (h : s.Beside T s') :
    Step.EndAlike T (· = ·) (r.execute v ns s) (r.execute v ns s') := by
  induction ns generalizing v s s' with
  | nil =>
      obtain ⟨purpose, limits, source⟩ := r
      cases purpose with
      | eval => exact .ok rfl h
      | run => exact .ok rfl h
  | cons n ns ih =>
      obtain ⟨hn, hprogram⟩ := hns n List.mem_cons_self
      rw [r.execute_cons]
      refine .bind (Session.statement_alike hn hprogram h) ?_
      rintro w _ s₁ s₁' rfl h₁
      obtain ⟨events, hnote⟩ := r.note_apply w s₁
      obtain ⟨events', hnote'⟩ := r.note_apply w s₁'
      simp only [bind_apply, hnote, hnote']
      exact ih (fun m hm => hns m (List.mem_cons_of_mem n hm)) w h₁.recorded

/-- What a session has recorded has no influence on statements that can be written. -/
theorem execute_unrecorded (r : Request) {ns : List Node} (hns : ∀ n ∈ ns, n.Statement) (v : Value)
    (h : s.Beside (· = ·) s') :
    Step.EndAlike (· = ·) (· = ·) (r.execute v ns s) (r.execute v ns s') :=
  r.execute_alike (fun n hn => ⟨Session.overlooks_eq r.limits n, (hns n hn).ne_program⟩) v h

/-- What a session has recorded has no influence on a request. -/
theorem serve_unrecorded (r : Request) (h : s.Beside (· = ·) s') :
    Step.EndAlike (· = ·) (· = ·) (r.serve s) (r.serve s') := by
  cases hparse : Reader.parse r.limits.nesting r.source with
  | error e =>
      rw [r.serve_apply, r.serve_apply, hparse]
      exact .error h
  | ok ns =>
      rw [serve_of_parse hparse, serve_of_parse hparse]
      have hns := (Reader.parse_eq_ok_iff.mp hparse).1
      exact .boundDepth (r.execute_unrecorded hns .unit h.recorded)

end Request

end MiniLisp
