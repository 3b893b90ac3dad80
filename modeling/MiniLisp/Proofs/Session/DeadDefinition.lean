/-
# MiniLisp.Proofs.Session.DeadDefinition — a definition that nobody uses.

A program with a definition whose name is written nowhere else, and the program without it, run side
by side.  Up to the definition the two sessions have the same table.  From then on their tables agree
but for this one name: no statement asks for it, and no procedure that a statement can reach has it
in its body.  So both runs define the same procedures, have the same effects, and end alike.

That the definition itself does not fail, the first run owes to the statements in front of it.  As
long as none of them defines the definition keyword, the keyword stands for the definition form.
-/
import MiniLisp.Proofs.Eval.Avoidance
import MiniLisp.Proofs.Session.Beside
import MiniLisp.Proofs.Session.Bindings

namespace MiniLisp

/-! ## The definition keyword -/

/-- The definition keyword stands for the definition form, and no other name does. -/
def Table.KeywordDefines (t : Table) : Prop :=
  ∀ x, t.lookup? x = some .definer ↔ x = Node.definitionKeyword

theorem Table.keywordDefines_initial : initial.KeywordDefines := by
  intro x
  constructor
  · intro hx
    exact eq_keyword_of_rightful (rightful_initial hx)
  · rintro rfl
    rfl

namespace Session

variable {T : Table → Table → Prop} {limits : Limits} {n : Node} {t : Table} {name : String}
  {p : Procedure}

/-- A procedure is installed by a definition, or by a call that has the same operands. -/
theorem Defines.written {params : List String} {body : List Node}
    (h : Defines t n (Node.definitionOperands name params body)) :
    n = .definition name params body ∨ ∃ x, t.lookup? x = some .definer ∧
      n = .call (.identifier x :: Node.definitionOperands name params body) := by
  generalize hoperands : Node.definitionOperands name params body = operands at h
  cases h with
  | definition _ =>
      simp only [Node.definitionOperands, List.cons.injEq, Node.identifier.injEq,
        Node.call.injEq] at hoperands
      obtain ⟨rfl, hparams, rfl⟩ := hoperands
      exact .inl (by rw [Node.map_identifier_inj hparams])
  | @call x _ hx => exact .inr ⟨x, hx, rfl⟩

/-- The names in the body that a statement installs are written in the statement. -/
theorem Defines.mem_identifiers {params : List String} {body : List Node}
    (h : Defines t n (Node.definitionOperands name params body)) {x : String}
    (hx : x ∈ Node.identifiersAll body) : x ∈ n.identifiers := by
  rcases h.written with rfl | ⟨y, -, rfl⟩
  · simp [Node.identifiers, hx]
  · simp [Node.definitionOperands, Node.identifiers, Node.identifiersAll, hx]

/-- Of the statements that can be written, only a definition of the keyword takes the definition
form away from it. -/
theorem keywordDefines_define (hn : n.Statement)
    (hkeyword : ∀ params body, n ≠ .definition Node.definitionKeyword params body)
    (ht : t.KeywordDefines)
    (hdefines : Defines t n (Node.definitionOperands name p.params p.body)) :
    (t.define name (.closure p scope)).KeywordDefines := by
  have hname : name ≠ Node.definitionKeyword := by
    rintro rfl
    rcases hdefines.written with rfl | ⟨x, hx, rfl⟩
    · exact hkeyword _ _ rfl
    · -- a call of the keyword would have been read as a definition
      obtain rfl := (ht x).mp hx
      cases hn with
      | expression _ plain => simp [Node.startsDefinition] at plain
  intro x
  rw [t.lookup?_define]
  split
  · next hx => simp [hx, hname]
  · exact ht x

/-! ## Statements beside each other -/

/-- A statement that overlooks what `T` allows, and keeps a property of the first table. -/
theorem Overlooks.and {I : Table → Prop} (h : Overlooks T limits n)
    (hI : ∀ {t name p}, I t → Defines t n (Node.definitionOperands name p.params p.body) →
      I (t.define name (.closure p scope))) :
    Overlooks (fun t u => T t u ∧ I t) limits n where
  keyword ht := h.keyword ht.1
  operands ht := h.operands ht.1
  value ts ht := h.value ts ht.1
  define ht hdefines := ⟨h.define ht.1 hdefines, hI ht.2 hdefines⟩

/-- A statement overlooks a name that it avoids. -/
theorem overlooks_agreeOff {g : String} (hg : g ≠ Node.definitionKeyword)
    (hn : g ∉ n.identifiers) (limits : Limits) : Overlooks (Table.AgreeOff g) limits n where
  keyword ht := (ht _ hg.symm).1
  operands := by
    intro t u ht
    unfold definitionCall?
    split
    · next x operands =>
        have hx : x ≠ g := by
          rintro rfl
          exact hn List.mem_cons_self
        rw [(ht x hx).1]
    · rfl
  value _ ht := Eval.eval_agreeOff ht hn .top limits.depth
  define := by
    intro t u name p ht hdefines
    exact ht.define name (.closure (fun hx => hn (hdefines.mem_identifiers hx)) .top)

end Session

/-! ## Programs beside each other -/

section

variable {r : Request} {g : String} {pre post : List Node} {s s' : Session}

/-- In front of the definition the keyword is watched. -/
theorem Session.overlooks_watched (hg : g ≠ Node.definitionKeyword)
    (hpre : ∀ n ∈ pre, n.Statement) (hunused : g ∉ Node.identifiersAll pre)
    (hkeyword : ∀ params body, Node.definition Node.definitionKeyword params body ∉ pre)
    (limits : Limits) :
    ∀ n ∈ pre, Overlooks (fun t u => t.AgreeOff g u ∧ t.KeywordDefines) limits n := by
  intro n hn
  have havoids : g ∉ n.identifiers := fun hx => hunused (Node.mem_identifiersAll hn hx)
  refine (overlooks_agreeOff hg havoids limits).and fun ht hdefines => ?_
  refine keywordDefines_define (hpre n hn) ?_ ht hdefines
  rintro params body rfl
  exact hkeyword params body hn

/-- Statements with a definition that they do not use, beside the statements without it. -/
theorem Request.execute_without (hrun : r.purpose = .run) (hg : g ≠ Node.definitionKeyword)
    (hpre : ∀ n ∈ pre, n.Statement) (hpost : ∀ n ∈ post, n.Statement)
    (hunused : g ∉ Node.identifiersAll (pre ++ post))
    (hkeyword : ∀ params body, Node.definition Node.definitionKeyword params body ∉ pre)
    (params : List String) (body : List Node) (v : Value)
    (h : s.Beside (fun t u => t.AgreeOff g u ∧ t.KeywordDefines) s') :
    Step.EndAlike (Table.AgreeOff g) (· = ·)
      (r.execute v (pre ++ .definition g params body :: post) s) (r.execute v (pre ++ post) s') := by
  rw [Node.identifiersAll_append, List.mem_append, not_or] at hunused
  have hwatched := Session.overlooks_watched hg hpre hunused.1 hkeyword r.limits
  rw [r.execute_append, r.execute_append]
  refine .bind_weaken (fun _ _ h => h.1)
    (r.execute_alike (fun n hn => ⟨hwatched n hn, (hpre n hn).ne_program⟩) v h) ?_
  rintro w _ s₁ s₁' rfl h₁
  -- the definition succeeds, and what is in its place on the other side is nothing at all
  rw [r.execute_cons, bind_apply, Session.statement_definition ((h₁.table.2 _).mpr rfl)]
  obtain ⟨events, hnote⟩ := r.note_apply .unit (s₁.defined g { name := some g, params, body })
  simp only [bind_apply, hnote]
  rw [r.execute_value (.inl hrun) w .unit]
  refine r.execute_alike (fun n hn => ⟨?_, (hpost n hn).ne_program⟩) .unit
    ⟨h₁.table.1.define_left _, h₁.console, h₁.others⟩
  exact Session.overlooks_agreeOff hg (fun hx => hunused.2 (Node.mem_identifiersAll hn hx)) r.limits

end

/-! ## The theorem -/

/-- What a name can be bound to at the end of two runs: nothing in both, or what it is bound to from
the start, or procedures with one name, one parameter list and one body. -/
inductive Table.SameBinding (x : String) : Option Value → Option Value → Prop
  | unbound : SameBinding x none none
  | default {v : Value} (h : (x, v) ∈ defaults) : SameBinding x (some v) (some v)
  | procedure (p : Procedure) :
      SameBinding x (some (.closure p Session.scope)) (some (.closure p Session.scope))

/-- Two runs that end alike, with bindings that are the same for all names but `g`. -/
structure Session.SameButFor (g : String) (r r' : Except Failure Value × Session) : Prop where
  result : r.1 = r'.1
  console : r.2.console = r'.2.console
  bindings : ∀ x, x ≠ g → Table.SameBinding x (r.2.table.lookup? x) (r'.2.table.lookup? x)

/-- All bindings of a run are rightful. -/
theorem Session.runProgram_rightful (limits : Limits) (source input : String) {x : String}
    {v : Value} (h : (runProgram limits source input).2.table.lookup? x = some v) :
    Table.Rightful x v :=
  Request.serve_keeps Table.rightful_kept ⟨.run, limits, source⟩
    (s := Session.start (.ofInput input)) (fun _ _ => Table.rightful_initial) x v h

/-- A program with a definition that it does not use, beside the program without it. -/
theorem Session.runProgram_without (limits : Limits) {a b g : String} {params : List String}
    {body pre post : List Node}
    (ha : Reader.parse limits.nesting a = .ok (pre ++ .definition g params body :: post))
    (hb : Reader.parse limits.nesting b = .ok (pre ++ post))
    (hg : g ≠ Node.definitionKeyword) (hunused : g ∉ Node.identifiersAll (pre ++ post))
    (hkeyword : ∀ params body, Node.definition Node.definitionKeyword params body ∉ pre)
    (input : String) :
    Step.EndAlike (Table.AgreeOff g) (· = ·) (runProgram limits a input)
      (runProgram limits b input) := by
  let s := start (.ofInput input)
  have hserve := Request.serve_of_parse (r := ⟨.run, limits, a⟩) ha s
  have hserve' := Request.serve_of_parse (r := ⟨.run, limits, b⟩) hb s
  have hall := (Reader.parse_eq_ok_iff.mp hb).1
  have hpre : ∀ n ∈ pre, n.Statement := fun n hn => hall n (by simp [hn])
  have hpost : ∀ n ∈ post, n.Statement := fun n hn => hall n (by simp [hn])
  show Step.EndAlike _ _ (Request.serve ⟨.run, limits, a⟩ s) (Request.serve ⟨.run, limits, b⟩ s)
  rw [hserve, hserve']
  refine .boundDepth
    (Request.execute_without rfl hg hpre hpost hunused hkeyword params body .unit ⟨?_, rfl, rfl⟩)
  exact ⟨Table.agreeOff_initial g, Table.keywordDefines_initial⟩

/-- A definition that nobody uses can be left out.  Let a text be read as some statements, a
definition of a name other than the definition keyword, and more statements; let this name be
written nowhere but in the definition; and let no statement in front of it define the keyword.  Then
there is a text of the statements without the definition, and to run any such text has the same
result or failure and leaves the same console, whatever there is to read.  In the end all other
names are bound to the same. -/
theorem dead_definition_unobservable (limits : Limits) {a g : String} {params : List String}
    {body pre post : List Node}
    (ha : Reader.parse limits.nesting a = .ok (pre ++ .definition g params body :: post))
    (hg : g ≠ Node.definitionKeyword) (hunused : g ∉ Node.identifiersAll (pre ++ post))
    (hkeyword : ∀ params body, Node.definition Node.definitionKeyword params body ∉ pre) :
    (∃ b, Reader.parse limits.nesting b = .ok (pre ++ post)) ∧
    ∀ b, Reader.parse limits.nesting b = .ok (pre ++ post) → ∀ input,
      Session.SameButFor g (Session.runProgram limits a input)
        (Session.runProgram limits b input) := by
  constructor
  · obtain ⟨hall, -, hroom⟩ := Reader.parse_eq_ok_iff.mp ha
    rw [Node.nestingAll_append, Node.nestingAll] at hroom
    refine ⟨(Node.program (pre ++ post)).format, Reader.parse_format ?_ ?_⟩
    · intro n hn
      refine hall n (List.mem_append.mpr ?_)
      exact (List.mem_append.mp hn).imp_right (List.mem_cons_of_mem _)
    · rw [Node.nestingAll_append]
      omega
  · intro b hb input
    have halike := Session.runProgram_without limits ha hb hg hunused hkeyword input
    refine ⟨halike.result_eq, halike.sessions.console, ?_⟩
    intro x hx
    rw [← (halike.sessions.table x hx).1]
    cases hlookup : (Session.runProgram limits a input).2.table.lookup? x with
    | none => exact .unbound
    | some v =>
        cases Session.runProgram_rightful limits a input hlookup with
        | default h => exact .default h
        | procedure _ => exact .procedure _

/-- A procedure that nobody calls but itself. -/
def spareNode : Node := .definition "spare" ["x"] [.call [.identifier "spare", .identifier "one"]]

/-- The statement that writes what the procedure `one` returns. -/
def writeOne : Node := .call [.identifier "write", .call [.identifier "one"]]

theorem dead_definition_unobservable_spare :
    let limits : Limits := { nesting := 9, depth := 9 }
    (∃ b, Reader.parse 9 b = .ok [oneNode, writeOne]) ∧
      Session.SameButFor "spare"
        (Session.runProgram limits (Node.program [oneNode, spareNode, writeOne]).format "")
        (Session.runProgram limits (Node.program [oneNode, writeOne]).format "") := by
  intro limits
  have ha : Reader.parse 9 (Node.program [oneNode, spareNode, writeOne]).format =
      .ok ([oneNode] ++ spareNode :: [writeOne]) :=
    Reader.parse_format (by decide) (by decide)
  have hkeyword : ∀ params body,
      Node.definition Node.definitionKeyword params body ∉ [oneNode] := by
    intro params body hmem
    have hname := congrArg Node.identifiers (List.mem_singleton.mp hmem)
    simp [Node.identifiers, oneNode, Node.definitionKeyword] at hname
  obtain ⟨hexists, hsame⟩ := dead_definition_unobservable limits ha (by decide) (by decide) hkeyword
  have hb : Reader.parse 9 (Node.program [oneNode, writeOne]).format = .ok [oneNode, writeOne] :=
    Reader.parse_format (by decide) (by decide)
  exact ⟨hexists, hsame _ hb ""⟩

end MiniLisp
