/-
# MiniLisp.Scope — looking names up.

A name means its innermost binding: the first frame of that name, or else the table at the end of
the chain.  A table binds each name at most once.  `lookup?_define` says all there is to know of a
definition: it changes what its own name means, and nothing else.
-/
import MiniLisp.Value.Printer

namespace MiniLisp

/-! ## Tables of definitions -/

/-- The names defined at top level and their values. -/
structure Table where
  entries : List (String × Value) := []

namespace Table

/-- Sets the value of a name in a list of bindings. -/
def set (name : String) (value : Value) : List (String × Value) → List (String × Value)
  | [] => [(name, value)]
  | (x, v) :: rest => if x = name then (name, value) :: rest else (x, v) :: set name value rest

/-- The value of a name in a list of bindings. -/
def get? (name : String) : List (String × Value) → Option Value
  | [] => none
  | (x, v) :: rest => if x = name then some v else get? name rest

/-- Binds `name` to `value`, in place of what it was bound to. -/
def define (t : Table) (name : String) (value : Value) : Table where
  entries := set name value t.entries

/-- What a name is bound to. -/
def lookup? (t : Table) (name : String) : Option Value := get? name t.entries

/-- Whether a name is bound. -/
def contains (t : Table) (name : String) : Bool := t.entries.any (·.1 = name)

/-- Defines each name in turn. -/
def defineAll (t : Table) (bindings : List (String × Value)) : Table :=
  bindings.foldl (fun t b => t.define b.1 b.2) t

/-- The names bound, in the order of their characters. -/
def names (t : Table) : List String := (t.entries.map (·.1)).mergeSort fun a b => decide (a ≤ b)

/-- The table written out for a log: its names. -/
def describe (t : Table) : String :=
  "<TopLevelEnvironment [" ++ ", ".intercalate (t.names.map Text.quoted) ++ "]>"

/-- The bindings every program starts with. -/
def defaults : List (String × Value) :=
  [Builtin.add, .subtract, .less, .toText, .write, .readLine].map (fun b => (b.name, .builtin b))
    ++ [SpecialForm.choice, .binding, .procedure, .list].map (fun f => (f.name, .form f))
    ++ [(Node.definitionKeyword, .definer)]

/-- The table every program starts with. -/
def initial : Table where
  entries := defaults

/-- Defines the defaults, whatever their names are bound to. -/
def register (t : Table) : Table := t.defineAll defaults

theorem get?_set (name : String) (value : Value) (entries : List (String × Value))
    (x : String) :
    get? x (set name value entries) = if x = name then some value else get? x entries := by
  induction entries with
  | nil => simp only [set, get?, eq_comm]
  | cons e rest ih =>
    obtain ⟨y, v⟩ := e
    by_cases hy : y = name
    · subst hy
      by_cases h : x = y
      · simp [set, get?, h]
      · simp [set, get?, h, Ne.symm h]
    · by_cases h : x = y
      · subst h
        simp [set, get?, hy]
      · simp [set, get?, hy, Ne.symm h, ih]

/-- A definition gives its name a value and leaves every other name alone. -/
theorem lookup?_define (t : Table) (name : String) (value : Value) (x : String) :
    (t.define name value).lookup? x = if x = name then some value else t.lookup? x :=
  get?_set name value t.entries x

end Table

/-! ## Chains of bindings -/

/-- The tables of definitions, by number. -/
abbrev Tables := List Table

/-- What a name means in a numbered table. -/
def Tables.lookup? (ts : Tables) (id : TableId) (name : String) : Option Value :=
  ts[id]?.bind (·.lookup? name)

/-- Whether a name is bound in a numbered table. -/
def Tables.contains (ts : Tables) (id : TableId) (name : String) : Bool :=
  ts[id]?.any (·.contains name)

namespace Scope

/-- What a name means in a scope. -/
def lookup? (ts : Tables) : Scope → String → Option Value
  | .top id, x => ts.lookup? id x
  | .frame name value outer, x => if name = x then some value else outer.lookup? ts x

/-- A frame decides what its own name means, and leaves every other name to what is outside. -/
@[simp] theorem lookup?_frame (ts : Tables) (name : String) (value : Value) (outer : Scope)
    (x : String) : (frame name value outer).lookup? ts x =
      if name = x then some value else outer.lookup? ts x := rfl

/-- The bindings above the table, innermost first. -/
def frames : Scope → List (String × Value)
  | .top _ => []
  | .frame name value outer => (name, value) :: outer.frames

/-- The table at the end of the chain. -/
def root : Scope → TableId
  | .top id => id
  | .frame _ _ outer => outer.root

/-- Whether a name is bound, in a frame or in the table. -/
def contains (ts : Tables) (s : Scope) (name : String) : Bool :=
  s.frames.any (·.1 = name) || ts.contains s.root name

/-- Binds each name in turn, so that the last binding is the innermost. -/
def extend (s : Scope) (bindings : List (String × Value)) : Scope :=
  bindings.foldl (fun s b => .frame b.1 b.2 s) s

/-- What each of the new frames keeps holds of the extended scope. -/
theorem extend_induction {P : Scope → Prop} {bindings : List (String × Value)}
    (hframe : ∀ b ∈ bindings, ∀ s, P s → P (frame b.1 b.2 s)) {s : Scope} (hs : P s) :
    P (s.extend bindings) := by
  unfold extend
  induction bindings generalizing s with
  | nil => exact hs
  | cons b bs ih =>
    refine ih (fun c hc => hframe c (List.mem_cons_of_mem b hc)) ?_
    exact hframe b List.mem_cons_self s hs

/-- One binding of a chain, written out. -/
def describeFrame (b : String × Value) : String :=
  "\x7b" ++ b.1 ++ ": " ++ b.2.describe ++ "\x7d"

/-- The scope written out for a log: its bindings, and then its table. -/
def describe (ts : Tables) (s : Scope) : String :=
  let table := ((ts[s.root]?).getD {}).describe
  match s.frames with
  | [] => table
  | frames =>
    "<Environment chain: " ++ " -> ".intercalate (frames.map describeFrame) ++ " -> " ++ table ++ ">"

end Scope

end MiniLisp
