/-
# MiniLisp.Workbench — making scopes by hand.

A workbench holds tables and the scopes built on them.  Scopes are values, so two of them may be
equal and yet have been made apart; a workbench tells them apart by numbering every scope it makes,
and remembers which scope each was made from.  Only `define` changes what an existing scope means.
-/
import MiniLisp.Eval

namespace MiniLisp

/-- The number of a scope on a workbench. -/
abbrev CellId := Nat

/-- A scope that was made. -/
structure Cell where
  scope : Scope
  /-- The scope it extends; `none` for a table. -/
  outer : Option CellId

/-- Tables and the scopes made so far. -/
structure Workbench where
  tables : Tables := []
  cells : List Cell := []

namespace Workbench

/-- A scope by its number. -/
def scope? (w : Workbench) (c : CellId) : Option Scope := (w.cells[c]?).map (·.scope)

/-- The scope that a scope extends. -/
def outer? (w : Workbench) (c : CellId) : Option CellId := (w.cells[c]?).bind (·.outer)

/-- Whether a scope is the table `id` itself. -/
def isTop (id : TableId) : Scope → Bool
  | .top t => t = id
  | .frame .. => false

/-- The table at the end of a scope's chain. -/
def root? (w : Workbench) (c : CellId) : Option CellId := do
  let s ← w.scope? c
  w.cells.findIdx? fun cell => isTop s.root cell.scope

/-- Puts one more scope on the workbench. -/
def add (w : Workbench) (cell : Cell) : CellId × Workbench :=
  (w.cells.length, { w with cells := w.cells ++ [cell] })

/-- Makes a table that binds each name in turn. -/
def addTable (w : Workbench) (bindings : List (String × Value)) : CellId × Workbench :=
  let table := Table.defineAll {} bindings
  { w with tables := w.tables ++ [table] }.add ⟨.top w.tables.length, none⟩

/-- Makes a scope of one binding above another. -/
def extend (w : Workbench) (c : CellId) (name : String) (v : Value) :
    Option (CellId × Workbench) := do
  let s ← w.scope? c
  return w.add ⟨.frame name v s, some c⟩

/-- Extends a scope by each binding in turn, and answers with the innermost scope. -/
def extendAll (w : Workbench) (c : CellId) : List (String × Value) → Option (CellId × Workbench)
  | [] => some (c, w)
  | (name, v) :: rest => do
    let (c, w) ← w.extend c name v
    w.extendAll c rest

/-- Makes the scope in which the body of a procedure is evaluated; `captured` is the scope that the
procedure was made in. -/
def bind (w : Workbench) (captured : CellId) (p : Procedure) (args : List Value) :
    Except EvalError (Option (CellId × Workbench)) :=
  if args.length = p.params.length then .ok (w.extendAll captured (p.params.zip args))
  else .error (.argumentCount p args.length)

/-- Binds a name in a table. -/
def define (w : Workbench) (c : CellId) (name : String) (v : Value) : Option Workbench := do
  match ← w.scope? c with
  | .top id => return { w with tables := w.tables.modify id (·.define name v) }
  | .frame .. => none

end Workbench

end MiniLisp
