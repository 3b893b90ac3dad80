/-
# MiniLisp.Proofs.Session.Bindings — what the names of a session are bound to.

Requests change the table in one way: they define procedures, each under its own name and in the
scope of statements, and they do so as long as some name stands for the definition form.
`Session.table_induction` makes this the one rule for all that is kept over a whole session.

The form has one name from the start, the definition keyword, and no definition gives it another.
So when the keyword has become the name of a procedure, the table is closed for good.
-/
import MiniLisp.Proofs.Session.Atomicity
import MiniLisp.Proofs.Session.Soundness

namespace MiniLisp

/-! ## What is kept of a table -/

/-- There is a name for the definition form, so that the table can grow. -/
def Table.Open (t : Table) : Prop := ∃ x, t.lookup? x = some .definer

/-- A property of tables that is kept when a procedure is defined under its name. -/
def Table.KeptByDefinitions (I : Table → Prop) : Prop :=
  ∀ t name p, I t → t.Open → p.name = some name → I (t.define name (.closure p Session.scope))

namespace Session

variable {I : Table → Prop} {limits : Limits} {s : Session} {n : Node}

theorem Defines.isOpen {t : Table} {operands : List Node} (h : Defines t n operands) : t.Open := by
  cases h with
  | definition hlookup => exact ⟨Node.definitionKeyword, hlookup⟩
  | @call x _ hlookup => exact ⟨x, hlookup⟩

/-- A statement does nothing to the table, or it defines a procedure. -/
theorem statement_keeps (hI : Table.KeptByDefinitions I) (hs : I s.table) (hn : n.Statement) :
    (statement limits n).Ensures s (fun _ s' => I s'.table) fun _ s' => I s'.table := by
  refine (statement_ensures limits s hn.ne_program).mono ?_ ?_
  · rintro v s' (hsame | ⟨-, name, p, hname, hdefines, rfl⟩)
    · rw [table_eq_of_tables_eq hsame]
      exact hs
    · exact hI s.table name p hs hdefines.isOpen hname
  · intro f s' hsame
    rw [table_eq_of_tables_eq hsame]
    exact hs

end Session

/-- What definitions keep is kept by a request, also by one that fails. -/
theorem Request.serve_keeps {I : Table → Prop} {s : Session} (hI : Table.KeptByDefinitions I)
    (r : Request) (hs : I s.table) : I (r.serve s).2.table := by
  -- nothing is asked of values and failures
  have hserve := serve_ensures (r := r) (V := fun _ => True) (F := fun _ => True) trivial
    (fun _ => trivial) (fun _ _ => trivial)
    (fun n s hn hs => (Session.statement_keeps hI hs hn).mono (fun _ _ h => ⟨trivial, h⟩)
      fun _ _ h => ⟨trivial, h⟩) hs
  exact (hserve.mono (fun _ _ h => h.2) fun _ _ h => h.2).left

/-- What definitions keep is kept over all requests. -/
theorem Session.table_induction {I : Table → Prop} (hI : Table.KeptByDefinitions I) {s : Session}
    (hs : I s.table) (rs : List Request) : I (s.after rs).table :=
  Session.after_induction (I := fun s => I s.table) hs (fun _ r h => r.serve_keeps hI h) rs

/-! ## Rightful bindings -/

namespace Table

/-- What a name can be bound to in a session: what it is bound to from the start, or a procedure of
this name, made in the scope of statements. -/
inductive Rightful (x : String) : Value → Prop
  | default {v : Value} (h : (x, v) ∈ defaults) : Rightful x v
  | procedure {p : Procedure} (h : p.name = some x) : Rightful x (.closure p Session.scope)

theorem rightful_initial {x : String} {v : Value} (h : initial.lookup? x = some v) :
    Rightful x v :=
  .default (mem_of_get? h)

theorem rightful_kept : KeptByDefinitions fun t => ∀ x v, t.lookup? x = some v → Rightful x v := by
  intro t name p ht _ hname x v hx
  rw [lookup?_define] at hx
  split at hx
  · next heq =>
      cases hx
      exact .procedure (heq ▸ hname)
  · exact ht x v hx

/-- A name that is bound stays bound. -/
theorem bound_kept (x : String) : KeptByDefinitions fun t => (t.lookup? x).isSome = true := by
  intro t name p ht _ _
  rw [lookup?_define]
  split
  · rfl
  · exact ht

theorem bound_initial : ∀ b ∈ defaults, (initial.lookup? b.1).isSome = true :=
  List.all_eq_true.mp (by decide)

/-- A table that is not open stays as it is. -/
theorem closed_kept {t : Table} (ht : ¬t.Open) : KeptByDefinitions fun u => u = t := by
  rintro u name p rfl hopen _
  exact absurd hopen ht

/-- The definition form is bound to the definition keyword only. -/
theorem eq_keyword_of_rightful {x : String} (h : Rightful x .definer) :
    x = Node.definitionKeyword := by
  cases h with
  | default h =>
      simp only [defaults, List.map_cons, List.map_nil, List.mem_append, List.mem_cons,
        List.not_mem_nil, or_false, Prod.mk.injEq, reduceCtorEq, and_false, false_or, and_true] at h
      exact h

/-- When the keyword means something else, no name stands for the definition form. -/
theorem not_open_of_keyword {t : Table} (ht : ∀ x v, t.lookup? x = some v → Rightful x v)
    (h : t.lookup? Node.definitionKeyword ≠ some .definer) : ¬t.Open := by
  rintro ⟨x, hx⟩
  obtain rfl := eq_keyword_of_rightful (ht x .definer hx)
  exact h hx

end Table

/-! ## Scopes of procedures -/

/-- All procedures that a sound value reaches were made above the table of the session. -/
theorem Value.Sound.root_of_reaches {t : Table} {ts : Tables} (ht : t.Sound) {v : Value}
    (hv : v.Sound) {p : Procedure} {c : Scope} (h : v.Reaches (t :: ts) (.closure p c)) :
    c.root = Session.scope.root := by
  cases hv.of_reaches ht h with
  | closure _ captured => exact captured.root_eq

/-! ## Sessions -/

/-- The bindings of a session that was given any texts, each of which may have failed.  The names
that are bound from the start are bound, and no name that is bound will become unbound.  A name is
bound to what it was bound to from the start or to a procedure of this name in the scope of
statements.  All procedures that are reached from a binding, or from the value of one more request,
also when others have followed it, were made above this table.  And where the definition keyword is
bound to a procedure, no request changes the table any more. -/
theorem bindings_stay_rightful (console : Console) (rs : List Request) :
    let s := (Session.start console).after rs
    (∀ b ∈ Table.defaults, (s.table.lookup? b.1).isSome = true) ∧
    (∀ qs x, (s.table.lookup? x).isSome = true →
      ((s.after qs).table.lookup? x).isSome = true) ∧
    (∀ x v, s.table.lookup? x = some v → Table.Rightful x v) ∧
    (∀ b ∈ s.table.entries, ∀ p c, b.2.Reaches s.tables (.closure p c) →
      c.root = Session.scope.root) ∧
    (∀ r v s', Request.serve r s = (.ok v, s') →
      ∀ qs p c, v.Reaches (s'.after qs).tables (.closure p c) → c.root = Session.scope.root) ∧
    ∀ p c, s.table.lookup? Node.definitionKeyword = some (.closure p c) →
      ∀ qs, (s.after qs).table = s.table := by
  intro s
  have hsound : s.table.Sound := Session.after_sound console rs
  have hrightful : ∀ x v, s.table.lookup? x = some v → Table.Rightful x v :=
    Session.table_induction Table.rightful_kept (fun _ _ => Table.rightful_initial) rs
  refine ⟨?_, ?_, hrightful, ?_, ?_, ?_⟩
  · intro b hb
    exact Session.table_induction (Table.bound_kept b.1) (Table.bound_initial b hb) rs
  · intro qs x hx
    exact Session.table_induction (Table.bound_kept x) hx qs
  · intro b hb p c h
    exact (hsound b hb).root_of_reaches hsound h
  · intro r v s' hserve qs p c h
    obtain ⟨hv, hs'⟩ := (r.serve_sound hsound).ok hserve
    exact hv.root_of_reaches (Session.after_keeps_sound hs' qs) h
  · intro p c hkeyword qs
    have hclosed : ¬s.table.Open := by
      refine Table.not_open_of_keyword hrightful ?_
      rw [hkeyword]
      simp
    exact Session.table_induction (Table.closed_kept hclosed) rfl qs

/-- A procedure that takes the name of the definition form. -/
def usurper : Procedure :=
  { name := some Node.definitionKeyword, params := [], body := [.literal (.integer 1)] }

/-- The request that defines it. -/
def defineUsurper : Request :=
  .printed .run [.definition Node.definitionKeyword usurper.params usurper.body]

theorem bindings_stay_rightful_usurper :
    let s := (Session.start {}).after [defineUsurper]
    Table.Rightful Node.definitionKeyword (.closure usurper Session.scope) ∧
      (∀ c, (Value.closure usurper Session.scope).Reaches s.tables (.closure usurper c) →
        c.root = Session.scope.root) ∧
      ((s.after [defineKeep]).table.lookup? "+").isSome = true ∧
      (s.after [defineKeep]).table = s.table := by
  intro s
  obtain ⟨hdefaults, hstay, hrightful, -, hvalue, hclosed⟩ :=
    bindings_stay_rightful {} [defineUsurper]
  have hs : s = ((Session.start {}).read
      [.definition Node.definitionKeyword usurper.params usurper.body]).defined
        Node.definitionKeyword usurper :=
    congrArg Prod.snd (Request.printed_serve (by decide) (by decide) (Session.start {}))
  have hkeyword : s.table.lookup? Node.definitionKeyword =
      some (.closure usurper Session.scope) := by
    rw [hs]
    rfl
  -- the keyword by itself is an expression, and gives the procedure
  have hserve : ∃ s', (Request.printed .eval [.identifier Node.definitionKeyword]).serve s =
      (.ok (.closure usurper Session.scope), s') := by
    rw [hs, Request.printed_serve (by decide) (by decide)]
    exact ⟨_, rfl⟩
  obtain ⟨s', hserve⟩ := hserve
  refine ⟨hrightful _ _ hkeyword, ?_, ?_, hclosed _ _ hkeyword [defineKeep]⟩
  · intro c hreach
    have htable : s'.tables = s.tables := by
      rw [hs, Request.printed_serve (by decide) (by decide)] at hserve
      cases hserve
      rw [hs]
      rfl
    exact hvalue _ _ s' hserve [] usurper c (htable ▸ hreach)
  · have hplus : ("+", .builtin .add) ∈ Table.defaults := by simp [Table.defaults, Builtin.name]
    exact hstay [defineKeep] "+" (hdefaults _ hplus)

end MiniLisp
