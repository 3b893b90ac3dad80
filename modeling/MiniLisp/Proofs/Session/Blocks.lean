/-
# MiniLisp.Proofs.Session.Blocks — definitions in any order.

A procedure is defined without anything being evaluated, and it looks up the names in its body only
when it is called.  So of a block of definitions all that counts is the last definition of each
name.  Two blocks that agree there leave tables in which every name means the same, though not
always tables with the same rows; and a table is never asked for anything but the meaning of a name.
-/
import Mathlib.Data.List.Nodup
import MiniLisp.Proofs.Session.Beside
import MiniLisp.Proofs.Session.Effects

namespace MiniLisp

/-! ## Tables with equal bindings -/

/-- Tables in which every name means the same. -/
def Table.Equal (t u : Table) : Prop := ∀ x, t.lookup? x = u.lookup? x

theorem Table.Equal.define {t u : Table} (h : t.Equal u) (name : String) (v : Value) :
    (t.define name v).Equal (u.define name v) := by
  intro x
  rw [t.lookup?_define, u.lookup?_define, h x]

section

variable {ts us : Tables}

theorem Scope.lookup?_congr (h : ∀ id x, ts.lookup? id x = us.lookup? id x) (x : String) :
    (s : Scope) → s.lookup? ts x = s.lookup? us x
  | .top id => h id x
  | .frame _ _ outer => by rw [lookup?_frame, lookup?_frame, outer.lookup?_congr h x]

/-- Evaluation asks tables for the meaning of names, and for nothing else. -/
theorem eval_congr (h : ∀ id x, ts.lookup? id x = us.lookup? id x) (depth : Nat) :
    eval ts depth = eval us depth := by
  have hfind : Eval.find ts = Eval.find us := by
    funext s x
    rw [Eval.find, Eval.find, s.lookup?_congr h x]
  induction depth with
  | zero => rfl
  | succ depth ih =>
      funext n s
      cases n with
      | identifier x => rw [eval, eval, hfind]
      | call ns =>
          cases ns with
          | nil => rfl
          | cons head operands => rw [eval, eval, ih]
      | _ => rfl

end

namespace Session

/-- Statements do not tell tables with equal bindings apart. -/
theorem overlooks_equal (limits : Limits) (n : Node) : Overlooks Table.Equal limits n where
  keyword h := h _
  operands := by
    intro t u h
    unfold definitionCall?
    split
    · rw [h]
    · rfl
  value := by
    intro t u ts h
    have hlookup : ∀ id x, Tables.lookup? (t :: ts) id x = Tables.lookup? (u :: ts) id x := by
      intro id x
      cases id with
      | zero => exact h x
      | succ id => rfl
    rw [eval_congr hlookup]
  define h _ := h.define _ _

/-- Steps that end alike in sessions with one console and tables with equal bindings. -/
def besideEqual (limits : Limits) : Step.Relation limits limits where
  Holds x y := ∀ s s' : Session, s.Beside Table.Equal s' →
    Step.EndAlike Table.Equal (· = ·) (x s) (y s')
  pure _ _ _ h := .ok rfl h
  bind hx hf s s' h := (hx s s' h).bind fun a _ s₁ s₁' hab h₁ => hab ▸ hf a s₁ s₁' h₁
  record _ _ _ h := .ok rfl h.recorded
  single n hn _ _ h := statement_alike (overlooks_equal limits n) hn h

end Session

/-- A request ends alike in sessions with one console and tables with equal bindings. -/
theorem Request.serve_equal (r : Request) {s s' : Session} (h : s.Beside Table.Equal s') :
    Step.EndAlike Table.Equal (· = ·) (r.serve s) (r.serve s') := by
  rw [r.serve_apply, r.serve_apply]
  cases Reader.parse r.limits.nesting r.source with
  | error e => exact .error h
  | ok ns =>
      refine .boundDepth ?_
      exact (Session.besideEqual r.limits).execute_holds r.purpose r.source .unit ns _ _ h.recorded

/-! ## Blocks of definitions -/

/-- A definition of a procedure. -/
structure Definition where
  name : String
  params : List String
  body : List Node

namespace Definition

/-- The definition as a statement. -/
def node (d : Definition) : Node := .definition d.name d.params d.body

/-- The procedure that is defined. -/
def procedure (d : Definition) : Procedure where
  name := some d.name
  params := d.params
  body := d.body

/-- The last definition of a name in a block. -/
def last? (ds : List Definition) (x : String) : Option Definition :=
  ds.reverse.find? (·.name = x)

/-- Blocks in which every name has the same last definition, or none in both. -/
def Alike (ds ds' : List Definition) : Prop := ∀ x, last? ds x = last? ds' x

/-- What a name is bound to after a block, if it was bound to `v` before. -/
def binding (ds : List Definition) (x : String) (v : Option Value) : Option Value :=
  (last? ds x).elim v fun d => some (.closure d.procedure Session.scope)

variable {ds ds' : List Definition}

theorem last?_cons (d : Definition) (ds : List Definition) (x : String) :
    last? (d :: ds) x = (last? ds x).or (if d.name = x then some d else none) := by
  simp [last?, List.find?_append, List.find?_singleton]

theorem last?_append (ds ds' : List Definition) (x : String) :
    last? (ds ++ ds') x = (last? ds' x).or (last? ds x) := by
  simp [last?, List.find?_append]

/-- A block after one more definition in front. -/
theorem binding_cons (d : Definition) (ds : List Definition) (x : String) (v : Option Value) :
    binding (d :: ds) x v =
      binding ds x (if x = d.name then some (.closure d.procedure Session.scope) else v) := by
  unfold binding
  rw [last?_cons]
  cases last? ds x with
  | some d' => rfl
  | none =>
      rw [Option.none_or]
      by_cases h : d.name = x
      · rw [if_pos h, if_pos h.symm]
        rfl
      · rw [if_neg h, if_neg (Ne.symm h)]

theorem last?_isSome_iff {x : String} : (last? ds x).isSome ↔ ∃ d ∈ ds, d.name = x := by
  simp [last?, List.find?_isSome]

theorem last?_eq_none_iff {x : String} : last? ds x = none ↔ ∀ d ∈ ds, d.name ≠ x := by
  simp [last?, List.find?_eq_none]

/-- A definition that is overwritten later on does not count. -/
theorem alike_of_overwritten {d : Definition} {post : List Definition}
    (h : ∃ d' ∈ post, d'.name = d.name) (pre : List Definition) :
    Alike (pre ++ d :: post) (pre ++ post) := by
  intro x
  rw [last?_append, last?_append, last?_cons]
  by_cases hx : d.name = x
  · obtain ⟨d', hlast⟩ := Option.isSome_iff_exists.mp (last?_isSome_iff.mpr (hx ▸ h))
    rw [hlast]
    rfl
  · rw [if_neg hx, Option.or_none]

/-- Where each name is defined once, its definition is the last one. -/
theorem last?_eq_some_iff (hnames : (ds.map name).Nodup) {d : Definition} {x : String} :
    last? ds x = some d ↔ d ∈ ds ∧ d.name = x := by
  constructor
  · intro h
    exact ⟨List.mem_reverse.mp (List.mem_of_find?_eq_some h), by simpa using List.find?_some h⟩
  · rintro ⟨hmem, rfl⟩
    obtain ⟨d', hlast⟩ := Option.isSome_iff_exists.mp (last?_isSome_iff.mpr ⟨d, hmem, rfl⟩)
    have hmem' : d' ∈ ds := List.mem_reverse.mp (List.mem_of_find?_eq_some hlast)
    have hname : d'.name = d.name := by simpa using List.find?_some hlast
    rw [hlast, List.inj_on_of_nodup_map hnames hmem' hmem hname]

/-- The order of definitions does not count where each name is defined once. -/
theorem alike_of_perm (h : ds.Perm ds') (hnames : (ds.map name).Nodup) : Alike ds ds' := by
  have hnames' : (ds'.map name).Nodup := (h.map name).nodup_iff.mp hnames
  intro x
  refine Option.ext fun d => ?_
  rw [last?_eq_some_iff hnames, last?_eq_some_iff hnames', h.mem_iff]

end Definition

/-! ## What a block does -/

namespace Session

open Definition

variable {limits : Limits} {s : Session} {ds : List Definition}

/-- The session with one more block of procedures. -/
def definedAll (s : Session) (ds : List Definition) : Session :=
  ds.foldl (fun s d => s.defined d.name d.procedure) s

/-- What no single definition changes is not changed by a block. -/
theorem definedAll_keeps {α : Type} {f : Session → α}
    (hf : ∀ s name p, f (s.defined name p) = f s) (s : Session) (ds : List Definition) :
    f (s.definedAll ds) = f s := by
  induction ds generalizing s with
  | nil => rfl
  | cons d ds ih => exact (ih (s.defined d.name d.procedure)).trans (hf s d.name d.procedure)

theorem definedAll_console (s : Session) (ds : List Definition) :
    (s.definedAll ds).console = s.console :=
  definedAll_keeps (fun _ _ _ => rfl) s ds

theorem definedAll_others (s : Session) (ds : List Definition) :
    (s.definedAll ds).others = s.others :=
  definedAll_keeps (fun _ _ _ => rfl) s ds

/-- What names mean after a block. -/
theorem definedAll_lookup? (s : Session) (ds : List Definition) (x : String) :
    (s.definedAll ds).table.lookup? x = binding ds x (s.table.lookup? x) := by
  induction ds generalizing s with
  | nil => rfl
  | cons d ds ih =>
      have hone : (s.defined d.name d.procedure).table.lookup? x =
          if x = d.name then some (.closure d.procedure scope) else s.table.lookup? x :=
        s.table.lookup?_define _ _ _
      rw [binding_cons, ← hone]
      exact ih (s.defined d.name d.procedure)

/-- A block defines its procedures, and cannot fail. -/
theorem statements_block (hkeyword : s.table.lookup? Node.definitionKeyword = some .definer)
    (hds : ∀ d ∈ ds, d.name ≠ Node.definitionKeyword) :
    statements limits (ds.map node) s = (.ok (), s.definedAll ds) := by
  induction ds generalizing s with
  | nil =>
      rw [List.map_nil, statements]
      rfl
  | cons d ds ih =>
      have hone : statement limits d.node s = (.ok .unit, s.defined d.name d.procedure) :=
        statement_definition hkeyword limits d.name d.params d.body
      rw [List.map_cons, statements, bind_apply, hone]
      refine ih ?_ fun d' hd' => hds d' (List.mem_cons_of_mem d hd')
      -- the definition form stays in place for the rest of the block
      exact ((s.table.lookup?_define _ _ _).trans
        (if_neg (hds d List.mem_cons_self).symm)).trans hkeyword

/-- So does a program of definitions. -/
theorem statement_block (hkeyword : s.table.lookup? Node.definitionKeyword = some .definer)
    (hds : ∀ d ∈ ds, d.name ≠ Node.definitionKeyword) :
    statement limits (.program (ds.map node)) s = (.ok .unit, s.definedAll ds) := by
  rw [statement, bind_apply, statements_block hkeyword hds]
  rfl

/-- Blocks in which every name has the same last definition leave sessions side by side. -/
theorem definedAll_beside {ds' : List Definition} (h : Alike ds ds') (s : Session) :
    (s.definedAll ds).Beside Table.Equal (s.definedAll ds') where
  table x := by
    rw [definedAll_lookup?, definedAll_lookup?, binding, binding, h x]
  console := by rw [definedAll_console, definedAll_console]
  others := by rw [definedAll_others, definedAll_others]

end Session

/-! ## The theorem -/

/-- In a block of definitions order is free, and the last definition of a name wins.  Let the
definition keyword be bound to the definition form, and let no definition of the block be one of the
keyword.  Then the block succeeds whatever room there is; it writes nothing and reads nothing; and
it leaves each name bound to the procedure of its last definition, or as it was if the block does
not define it.  A block in which every name has the same last definition succeeds as well and leaves
equal bindings, so that every statement, programs among them, and every request ends alike after
the two: with the same value or failure, with the same console, and with equal bindings again.  That
is so for every order of definitions with distinct names, and for a block without a definition that
it overwrites later on. -/
theorem definitions_order_free (limits : Limits) (s : Session) {ds : List Definition}
    (hkeyword : s.table.lookup? Node.definitionKeyword = some .definer)
    (hds : ∀ d ∈ ds, d.name ≠ Node.definitionKeyword) :
    ∃ s₁, Session.statement limits (.program (ds.map Definition.node)) s = (.ok .unit, s₁) ∧
      s₁.console = s.console ∧
      (∀ x, s₁.table.lookup? x = Definition.binding ds x (s.table.lookup? x)) ∧
      (∀ ds', Definition.Alike ds ds' →
        ∃ s₂, Session.statement limits (.program (ds'.map Definition.node)) s = (.ok .unit, s₂) ∧
          s₁.Beside Table.Equal s₂ ∧
          (∀ limits' n, Step.EndAlike Table.Equal (· = ·) (Session.statement limits' n s₁)
            (Session.statement limits' n s₂)) ∧
          ∀ r : Request, Step.EndAlike Table.Equal (· = ·) (r.serve s₁) (r.serve s₂)) ∧
      (∀ ds', ds.Perm ds' → (ds.map Definition.name).Nodup → Definition.Alike ds ds') ∧
      ∀ pre d post, ds = pre ++ d :: post → (∃ d' ∈ post, d'.name = d.name) →
        Definition.Alike ds (pre ++ post) := by
  refine ⟨s.definedAll ds, Session.statement_block hkeyword hds,
    s.definedAll_console ds, s.definedAll_lookup? ds, ?_, ?_, ?_⟩
  · intro ds' halike
    have hds' : ∀ d ∈ ds', d.name ≠ Node.definitionKeyword :=
      Definition.last?_eq_none_iff.mp ((halike _).symm.trans (Definition.last?_eq_none_iff.mpr hds))
    have hbeside := Session.definedAll_beside halike s
    refine ⟨s.definedAll ds', Session.statement_block hkeyword hds', hbeside, ?_, ?_⟩
    · intro limits' n
      exact (Session.besideEqual limits').statement_holds n _ _ hbeside
    · exact fun r => r.serve_equal hbeside
  · exact fun ds' h hnames => Definition.alike_of_perm h hnames
  · rintro pre d post rfl hd
    exact Definition.alike_of_overwritten hd pre

namespace Definition

/-- The body of a procedure that has an answer for 0 and asks another one about all other numbers:
`(if (< n 1) answer (other (- n 1)))`. -/
def countDown (answer : Node) (other : String) : List Node :=
  let one := Node.literal (.integer 1)
  let n := Node.identifier "n"
  [.call [.identifier "if", .call [.identifier "<", n, one], answer,
    .call [.identifier other, .call [.identifier "-", n, one]]]]

/-- Whether a number is even, as the procedure for odd numbers has it. -/
def isEven : Definition := ⟨"is-even", ["n"], countDown (.literal (.string "yes")) "is-odd"⟩

/-- Whether a number is odd, as the procedure for even numbers has it. -/
def isOdd : Definition := ⟨"is-odd", ["n"], countDown (.literal (.string "no")) "is-even"⟩

/-- A first attempt, which ends every count. -/
def isEvenAtOnce : Definition := ⟨"is-even", ["n"], [.literal (.string "yes")]⟩

/-- The question whether 1 is even. -/
def askEven : Node := .call [.identifier "is-even", .literal (.integer 1)]

end Definition

open Definition in
/-- The first attempt does not count, and of the two procedures either may come first. -/
theorem definitions_order_free_parity :
    let limits : Limits := { nesting := 9, depth := 9 }
    ∃ s₁ s₂,
      Session.statement limits (.program [isEvenAtOnce.node, isOdd.node, isEven.node]) {} =
        (.ok .unit, s₁) ∧
      Session.statement limits (.program [isEven.node, isOdd.node]) {} = (.ok .unit, s₂) ∧
      Step.EndAlike Table.Equal (· = ·) (Session.statement limits askEven s₁)
        (Session.statement limits askEven s₂) ∧
      (Session.statement limits askEven s₂).1 = .ok (.str "no") := by
  intro limits
  have hlong : ∀ d ∈ [isEvenAtOnce, isOdd, isEven], d.name ≠ Node.definitionKeyword := by decide
  have hshort : ∀ d ∈ [isOdd, isEven], d.name ≠ Node.definitionKeyword := by decide
  obtain ⟨s₁, hs₁, -, -, hblocks, -, hdrop⟩ := definitions_order_free limits {} rfl hlong
  obtain ⟨-, -, -, -, -, hperm, -⟩ := definitions_order_free limits {} rfl hshort
  have hfirst : Alike [isEvenAtOnce, isOdd, isEven] [isOdd, isEven] :=
    hdrop [] isEvenAtOnce [isOdd, isEven] rfl ⟨isEven, by simp, rfl⟩
  have hswap : Alike [isOdd, isEven] [isEven, isOdd] :=
    hperm [isEven, isOdd] (.swap isEven isOdd []) (by decide)
  obtain ⟨s₂, hs₂, -, hstatement, -⟩ :=
    hblocks [isEven, isOdd] fun x => (hfirst x).trans (hswap x)
  refine ⟨s₁, s₂, hs₁, hs₂, hstatement limits askEven, ?_⟩
  obtain rfl : s₂ = Session.definedAll {} [isEven, isOdd] := congrArg Prod.snd hs₂.symm
  rfl

end MiniLisp
