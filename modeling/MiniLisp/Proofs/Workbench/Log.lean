/-
# MiniLisp.Proofs.Workbench.Log — scopes as their history tells them.

The reference for scopes has no chains and no tables.  It is the log of all that has happened: a
table was made, a binding was put above a scope, a name was defined in a table.  Scopes are numbered
in the order in which they were made, and what a name means in one of them is read off the log: the
binding put above last, or else the definition made last in the table at the end.
-/
import MiniLisp.Workbench

namespace MiniLisp.Workbench

/-! ## Histories -/

/-- One thing that has happened. -/
inductive Entry where
  /-- A table was made.  It is a scope. -/
  | table
  /-- A binding was put above the scope `outer`.  This makes a scope. -/
  | frame (name : String) (value : Value) (outer : CellId)
  /-- A name was defined in the table that is the scope `root`. -/
  | definition (root : CellId) (name : String) (value : Value)

/-- All that has happened, last event first. -/
abbrev Log := List Entry

namespace Log

/-- How many scopes were made. -/
def size : Log → Nat
  | [] => 0
  | .table :: l => size l + 1
  | .frame _ _ _ :: l => size l + 1
  | .definition _ _ _ :: l => size l

/-- The bindings above the table of a scope, innermost first. -/
def frames : Log → CellId → List (String × Value)
  | [], _ => []
  | .table :: l, c => if c = size l then [] else frames l c
  | .frame name value outer :: l, c =>
    if c = size l then (name, value) :: frames l outer else frames l c
  | .definition _ _ _ :: l, c => frames l c

/-- The table of a scope. -/
def root? : Log → CellId → Option CellId
  | [], _ => none
  | .table :: l, c => if c = size l then some c else root? l c
  | .frame _ _ outer :: l, c => if c = size l then root? l outer else root? l c
  | .definition _ _ _ :: l, c => root? l c

/-- The value that was last defined for a name in a table. -/
def defined? : Log → CellId → String → Option Value
  | [], _, _ => none
  | .table :: l, r, x => defined? l r x
  | .frame _ _ _ :: l, r, x => defined? l r x
  | .definition root name value :: l, r, x =>
    if r = root ∧ x = name then some value else defined? l r x

/-- What a name means in a scope: its innermost frame decides, and else its table. -/
def denotes? (l : Log) (c : CellId) (x : String) : Option Value :=
  match (l.frames c).find? (·.1 = x) with
  | some frame => some frame.2
  | none => (l.root? c).bind fun r => l.defined? r x

/-! ## What operations write down -/

/-- Each name in turn is defined in a table. -/
def define (l : Log) (root : CellId) (bindings : List (String × Value)) : Log :=
  bindings.foldl (fun l b => .definition root b.1 b.2 :: l) l

/-- Each binding in turn is put above a scope. -/
def stack : Log → CellId → List (String × Value) → Log
  | l, _, [] => l
  | l, c, (name, value) :: rest => stack (.frame name value c :: l) (size l) rest

end Log

/-- What can be done with scopes. -/
inductive Operation where
  /-- Makes a table with some bindings. -/
  | table (bindings : List (String × Value))
  | define (root : CellId) (name : String) (value : Value)
  | extend (c : CellId) (name : String) (value : Value)
  /-- Binds arguments to the parameters of a procedure, above the scope `captured`. -/
  | bind (captured : CellId) (p : Procedure) (args : List Value)

/-- The log after an operation.  One that fails, or asks for what there is not, is not in it. -/
def Log.perform (l : Log) : Operation → Log
  | .table bindings => Log.define (.table :: l) l.size bindings
  | .define root name value =>
    if l.root? root = some root then .definition root name value :: l else l
  | .extend c name value => if c < l.size then .frame name value c :: l else l
  | .bind captured p args =>
    if captured < l.size ∧ args.length = p.params.length then
      l.stack captured (p.params.zip args)
    else l

/-- The workbench after an operation.  One that fails, or asks for what there is not, changes
nothing. -/
def perform (w : Workbench) : Operation → Workbench
  | .table bindings => (w.addTable bindings).2
  | .define root name value => (w.define root name value).getD w
  | .extend c name value =>
    match w.extend c name value with
    | some (_, w') => w'
    | none => w
  | .bind captured p args =>
    match w.bind captured p args with
    | .ok (some (_, w')) => w'
    | _ => w

/-- The log of a row of operations. -/
def Log.after (ops : List Operation) : Log := ops.foldl Log.perform []

/-- The workbench after a row of operations. -/
def after (ops : List Operation) : Workbench := ops.foldl perform {}

/-! ## Definitions in a log -/

namespace Log

variable {l : Log} {root r : CellId} {bindings : List (String × Value)} {x : String}

/-- What does not look at definitions in a table is not changed by them. -/
theorem define_kept {α : Type} (f : Log → α)
    (hf : ∀ l name value, f (.definition root name value :: l) = f l) :
    f (define l root bindings) = f l := by
  unfold define
  induction bindings generalizing l with
  | nil => rfl
  | cons b bs ih => exact ih.trans (hf l b.1 b.2)

theorem size_define : (define l root bindings).size = l.size :=
  define_kept size fun _ _ _ => rfl

theorem frames_define : (define l root bindings).frames = l.frames :=
  define_kept frames fun _ _ _ => rfl

theorem root?_define : (define l root bindings).root? = l.root? :=
  define_kept root? fun _ _ _ => rfl

theorem defined?_define_of_ne (hne : r ≠ root) :
    (define l root bindings).defined? r x = l.defined? r x :=
  define_kept (fun l => defined? l r x) fun _ _ _ => if_neg fun h => hne h.1

/-- A table of the log's definitions goes along with more of them. -/
theorem defined?_define {t : Table} (h : ∀ x, t.lookup? x = l.defined? root x) :
    (t.defineAll bindings).lookup? x = (define l root bindings).defined? root x := by
  unfold define Table.defineAll
  induction bindings generalizing l t with
  | nil => exact h x
  | cons b bs ih =>
      refine ih fun y => ?_
      rw [Table.lookup?_define, h y]
      simp [defined?]

theorem find?_eq_none_iff {bindings : List (String × Value)} :
    bindings.find? (·.1 = x) = none ↔ x ∉ bindings.map (·.1) := by
  simp only [List.find?_eq_none, decide_eq_true_eq, List.mem_map, not_exists, not_and]

/-- A definition changes what its own name means, in the scopes that end in its table and have no
frame of the name. -/
theorem denotes?_definition (l : Log) (root : CellId) (name : String) (value : Value) (c : CellId)
    (x : String) :
    denotes? (.definition root name value :: l) c x =
      if x = name ∧ l.root? c = some root ∧ name ∉ (l.frames c).map (·.1) then some value
      else l.denotes? c x := by
  unfold denotes?
  rw [frames, root?]
  cases hframe : (l.frames c).find? (·.1 = x) with
  | some b =>
      have hname : b.1 = x := by simpa using List.find?_some hframe
      have hx : x ∈ (l.frames c).map (·.1) :=
        List.mem_map.mpr ⟨b, List.mem_of_find?_eq_some hframe, hname⟩
      rw [if_neg]
      rintro ⟨rfl, -, hother⟩
      exact hother hx
  | none =>
      have hx : x ∉ (l.frames c).map (·.1) := find?_eq_none_iff.mp hframe
      by_cases hchange : x = name ∧ l.root? c = some root
      · obtain ⟨rfl, hroot⟩ := hchange
        rw [hroot, if_pos ⟨rfl, rfl, hx⟩]
        exact if_pos ⟨rfl, rfl⟩
      · rw [if_neg fun h => hchange ⟨h.1, h.2.1⟩]
        cases hroot : l.root? c with
        | none => rfl
        | some r => exact if_neg fun h => hchange ⟨h.2, by rw [hroot, h.1]⟩

/-- A table that a scope ends in has been made. -/
theorem root?_lt {c : CellId} (h : l.root? c = some r) : c < l.size := by
  induction l with
  | nil => cases h
  | cons e l ih =>
      cases e with
      | definition root name value => exact ih h
      | table | frame _ _ _ =>
          by_cases hc : c = size l
          · subst hc
            exact Nat.lt_succ_self _
          · exact Nat.lt_succ_of_lt (ih ((if_neg hc).symm.trans h))

end Log

end MiniLisp.Workbench
