/-
# MiniLisp.Proofs.Node.Lines — what stands on the lines of a layout.

Layout breaks a node that does not fit, and judges a part by its nominal column, which is twice its
depth.  The column where the part really starts is another one: an operator follows the parentheses
of the calls in front of it, and any other part starts where its margin ends.  But a margin ends
at the nominal column, and a parenthesis takes one column where the depth takes two; so the real
column is never beyond the nominal one, and what is taken to fit does fit.

A text is cut into lines along the tree: each line has the parentheses of the calls that open on it,
then one piece that is not broken, then the parentheses of the forms that end with it.
-/
import MiniLisp.Proofs.Node.Characters

namespace MiniLisp

/-! ## Texts on one line -/

/-- The text has no line feed. -/
abbrev Text.OneLine (text : String) : Prop := Text.Consists (· ≠ '\n') text

namespace Text

instance : DecidablePred OneLine := fun text => List.decidableBAll (· ≠ '\n') text.toList

theorem oneLine_parenthesized {items : List String} (h : ∀ s ∈ items, OneLine s) :
    OneLine (parenthesized items) := by
  have hopen : OneLine "(" := by decide
  have hspace : OneLine " " := by decide
  have hclose : OneLine ")" := by decide
  exact (hopen.append (hspace.intercalate h)).append hclose

theorem oneLine_toString (k : Int) : OneLine (toString k) := by
  have hdigits : ∀ m : Nat, OneLine (toString m) := by
    intro m c hc
    have hlist : (toString m).toList = Nat.toDigits 10 m := Nat.toList_repr
    rw [hlist] at hc
    rintro rfl
    exact absurd (Nat.isDigit_of_mem_toDigits (by decide) (by decide) hc) (by decide)
  cases k with
  | ofNat m => exact hdigits m
  | negSucc m =>
      have hminus : OneLine "-" := by decide
      exact hminus.append (hdigits (m + 1))

end Text

open Text (OneLine)

namespace Node

/-- A tree of constants, names, calls and definitions whose texts have no line feeds. -/
inductive LineFree : Node → Prop
  | integer (k : Int) : LineFree (.literal (.integer k))
  | literal {t : Token} (h : OneLine t.text) : LineFree (.literal t)
  | identifier {x : String} (h : OneLine x) : LineFree (.identifier x)
  | call {ns : List Node} (h : ∀ n ∈ ns, LineFree n) : LineFree (.call ns)
  | definition {name : String} {params : List String} {body : List Node} (hname : OneLine name)
      (hparams : ∀ x ∈ params, OneLine x) (hbody : ∀ n ∈ body, LineFree n) :
      LineFree (.definition name params body)

theorem oneLine_spelling {t : Token} (h : OneLine t.text) : OneLine t.spelling := by
  cases t with
  | string text =>
      have hquote : OneLine "\"" := by decide
      exact (hquote.append h).append hquote
  | _ => exact h

theorem oneLine_definitionKeyword : OneLine definitionKeyword := by decide

theorem oneLine_definitionHead {name : String} {params : List String} (hname : OneLine name)
    (hparams : ∀ x ∈ params, OneLine x) : OneLine (definitionHead name params) := by
  have hopen : OneLine "(" := by decide
  have hspace : OneLine " " := by decide
  exact ((((hopen.append oneLine_definitionKeyword).append hspace).append hname).append
    hspace).append (Text.oneLine_parenthesized hparams)

/-- Such a tree is written on one line. -/
theorem LineFree.oneLine_format {n : Node} (h : n.LineFree) : OneLine n.format := by
  induction h with
  | integer k => exact Text.oneLine_toString k
  | literal h => exact oneLine_spelling h
  | identifier h => exact h
  | call _ ih =>
      rw [format, formatAll_eq_map]
      exact Text.oneLine_parenthesized (List.forall_mem_map.mpr ih)
  | definition hname hparams _ ih =>
      rw [format, formatAll_eq_map]
      refine Text.oneLine_parenthesized ?_
      refine List.forall_mem_cons.mpr ⟨oneLine_definitionKeyword, ?_⟩
      refine List.forall_mem_cons.mpr ⟨hname, ?_⟩
      exact List.forall_mem_cons.mpr
        ⟨Text.oneLine_parenthesized hparams, List.forall_mem_map.mpr ih⟩

/-- The parts that a call or a definition is broken into. -/
def parts : Node → List Node
  | .call children => children
  | .definition _ _ body => body
  | _ => []

/-- Those of the parts that go to lines of their own; the operator of a call stays in its place. -/
def rowParts : Node → List Node
  | .call (_ :: operands) => operands
  | .definition _ _ body => body
  | _ => []

theorem mem_parts_of_mem_rowParts {n m : Node} (h : m ∈ n.rowParts) : m ∈ n.parts := by
  unfold rowParts at h
  split at h
  · exact List.mem_cons_of_mem _ h
  · exact h
  · cases h

/-- The nodes that are never broken: constants, names and the empty list. -/
inductive Atomic : Node → Prop
  | literal (t : Token) : Atomic (.literal t)
  | identifier (x : String) : Atomic (.identifier x)
  | empty : Atomic (.call [])

end Node

open Node (fits definitionHead margin broken)

/-! ## Broken forms -/

/-- A node and the depth at which it is laid out. -/
structure Spot where
  node : Node
  depth : Int

/-- Calls and definitions that do not fit, and so are broken. -/
inductive Spot.Broken (width : Int) : Spot → Prop
  | call {head : Node} {operands : List Node} {depth : Int}
      (h : fits width depth (Node.call (head :: operands)).format = false) :
      Broken width ⟨.call (head :: operands), depth⟩
  | definition {name : String} {params : List String} {body : List Node} {depth : Int}
      (h : fits width depth (Node.definition name params body).format = false) :
      Broken width ⟨.definition name params body, depth⟩

/-- What is laid out in the course of laying out `root`: it, and the parts of broken forms. -/
inductive Spot.LaysOut (width : Int) (root : Spot) : Spot → Prop
  | self : LaysOut width root root
  | part {form : Spot} {n : Node} (h : LaysOut width root form) (hbroken : form.Broken width)
      (hn : n ∈ form.node.parts) : LaysOut width root ⟨n, form.depth + 1⟩

theorem Spot.LaysOut.depth_le {width : Int} {root s : Spot} (h : root.LaysOut width s) :
    root.depth ≤ s.depth := by
  induction h with
  | self => exact Int.le_refl _
  | @part form n _ _ _ ih =>
      show root.depth ≤ form.depth + 1
      omega

/-! ## Lines -/

/-- A line: its indentation, the calls that open on it, outermost first, one piece of text, and the
forms that end on it, innermost first. -/
structure Line where
  indentation : Nat
  opened : List Spot
  chunk : String
  closed : List Spot

namespace Line

/-- The line as it is written. -/
def text (l : Line) : String :=
  String.ofList (List.replicate l.indentation ' ') ++
    String.ofList (List.replicate l.opened.length '(') ++ l.chunk ++
    String.ofList (List.replicate l.closed.length ')')

section

variable (width : Int) (root : Spot)

/-- What stands in front of a node on its line: the indentation that the parts of a broken form
have, or none where `root` begins; and the broken calls that open, each of which is the operator of
the one before it, while the node is the operator of the last. -/
inductive Begins : Nat → List Spot → Spot → Prop
  | root : Begins 0 [] root
  | row {form : Spot} {n : Node} (hform : root.LaysOut width form) (hbroken : form.Broken width)
      (hn : n ∈ form.node.rowParts) :
      Begins (2 * (form.depth + 1).toNat) [] ⟨n, form.depth + 1⟩
  | operator {indentation : Nat} {opened : List Spot} {head : Node} {operands : List Node}
      {depth : Int} (h : Begins indentation opened ⟨.call (head :: operands), depth⟩)
      (hbroken : Spot.Broken width ⟨.call (head :: operands), depth⟩) :
      Begins indentation (opened ++ [⟨.call (head :: operands), depth⟩]) ⟨head, depth + 1⟩

/-- What ends behind a node on its line: nothing if it is all of `root`, or if another part of a
broken form follows; else the broken form whose last part it is, and what ends behind that. -/
inductive Ends : Spot → List Spot → Prop
  | root : Ends root []
  | row {form : Spot} {n m : Node} {before after : List Node} (hform : root.LaysOut width form)
      (hbroken : form.Broken width) (hparts : form.node.parts = before ++ n :: m :: after) :
      Ends ⟨n, form.depth + 1⟩ []
  | last {form : Spot} {n : Node} {closed : List Spot} (h : Ends form closed)
      (hform : root.LaysOut width form) (hbroken : form.Broken width)
      (hlast : form.node.parts.getLast? = some n) : Ends ⟨n, form.depth + 1⟩ (form :: closed)

/-- What stands on a line in the layout of `root`.  The piece of text is

* a node that is not broken, and it ends within the width;
* or a constant, a name or an empty list, wherever it ends;
* or a broken definition up to its body, which is on the next lines;
* or a broken definition without a body, which ends here. -/
inductive Placed : Line → Prop
  | whole {s : Spot} {indentation : Nat} {opened closed : List Spot}
      (hbegins : Begins width root indentation opened s) (hends : Ends width root s closed)
      (hfits : (indentation + opened.length + s.node.format.length : Int) ≤ width) :
      Placed ⟨indentation, opened, s.node.format, closed⟩
  | atom {s : Spot} {indentation : Nat} {opened closed : List Spot}
      (hbegins : Begins width root indentation opened s) (hends : Ends width root s closed)
      (hatomic : s.node.Atomic) : Placed ⟨indentation, opened, s.node.format, closed⟩
  | header {name : String} {params : List String} {n : Node} {body : List Node} {depth : Int}
      {indentation : Nat} {opened : List Spot}
      (hbegins : Begins width root indentation opened ⟨.definition name params (n :: body), depth⟩)
      (hbroken : Spot.Broken width ⟨.definition name params (n :: body), depth⟩) :
      Placed ⟨indentation, opened, definitionHead name params, []⟩
  | bodiless {name : String} {params : List String} {depth : Int} {indentation : Nat}
      {opened closed : List Spot}
      (hbegins : Begins width root indentation opened ⟨.definition name params [], depth⟩)
      (hbroken : Spot.Broken width ⟨.definition name params [], depth⟩)
      (hends : Ends width root ⟨.definition name params [], depth⟩ closed) :
      Placed ⟨indentation, opened, definitionHead name params,
        ⟨.definition name params [], depth⟩ :: closed⟩

end

variable {width : Int} {root s : Spot} {indentation : Nat} {opened closed : List Spot}

theorem Begins.laysOut (h : Begins width root indentation opened s) : root.LaysOut width s := by
  induction h with
  | root => exact .self
  | row hform hbroken hn => exact .part hform hbroken (Node.mem_parts_of_mem_rowParts hn)
  | operator _ hbroken ih => exact .part ih hbroken List.mem_cons_self

/-- The column where a node begins is not beyond its nominal column. -/
theorem Begins.column (h : Begins width root indentation opened s) (hroot : 0 ≤ root.depth) :
    (indentation + opened.length : Int) ≤ 2 * s.depth := by
  induction h with
  | root =>
      simp only [List.length_nil]
      omega
  | @row form n hform _ _ =>
      have hdepth := hform.depth_le
      simp only [List.length_nil]
      omega
  | @operator indentation opened head operands depth _ _ ih =>
      -- one more parenthesis for one more depth, which is two columns wide
      have hcall : (indentation + opened.length : Int) ≤ 2 * depth := ih
      simp only [List.length_append, List.length_singleton]
      omega

/-! ### Text on a line and on the next -/

theorem oneLine_text {l : Line} (h : OneLine l.chunk) : OneLine l.text := by
  have hreplicate : ∀ (k : Nat) (c : Char), c ≠ '\n' →
      OneLine (String.ofList (List.replicate k c)) := by
    intro k c hc c' hc'
    rw [String.toList_ofList] at hc'
    rw [List.eq_of_mem_replicate hc']
    exact hc
  exact (((hreplicate _ _ (by decide)).append (hreplicate _ _ (by decide))).append h).append
    (hreplicate _ _ (by decide))

/-- A parenthesis in front of the text opens a call. -/
theorem text_open (s : Spot) (chunk : String) :
    text ⟨indentation, opened, "(" ++ chunk, closed⟩ =
      text ⟨indentation, opened ++ [s], chunk, closed⟩ := by
  rw [← String.toList_inj]
  simp [text, List.replicate_succ']

/-- A parenthesis behind the text closes a form. -/
theorem text_close (s : Spot) (chunk : String) :
    text ⟨indentation, opened, chunk ++ ")", closed⟩ =
      text ⟨indentation, opened, chunk, s :: closed⟩ := by
  rw [← String.toList_inj]
  simp [text, List.replicate_succ]

/-- Behind a line feed the next line begins, and what is closed is closed there. -/
theorem text_break (a b : String) :
    text ⟨indentation, opened, a ++ "\n" ++ b, closed⟩ =
      text ⟨indentation, opened, a, []⟩ ++ "\n" ++ text ⟨0, [], b, closed⟩ := by
  rw [← String.toList_inj]
  simp [text]

/-- A margin indents the line. -/
theorem text_margin (depth : Int) (chunk : String) :
    text ⟨0, [], margin depth ++ chunk, closed⟩ =
      text ⟨2 * (depth + 1).toNat, [], chunk, closed⟩ := by
  rw [← String.toList_inj]
  simp [text, margin]

end Line

/-! ## Texts made of lines -/

/-- Texts that are made of lines of a layout. -/
inductive Lined (width : Int) (root : Spot) : String → Prop
  | line {l : Line} (h : l.Placed width root) (hchunk : OneLine l.chunk) : Lined width root l.text
  | cons {l : Line} {rest : String} (h : l.Placed width root) (hchunk : OneLine l.chunk)
      (hrest : Lined width root rest) : Lined width root (l.text ++ "\n" ++ rest)

section

variable {width : Int} {root : Spot}

theorem Lined.append {a b : String} (ha : Lined width root a) (hb : Lined width root b) :
    Lined width root (a ++ "\n" ++ b) := by
  induction ha with
  | line h hchunk => exact .cons h hchunk hb
  | cons h hchunk _ ih =>
      have hcons := Lined.cons h hchunk ih
      simpa only [String.append_assoc] using hcons

/-- The lines of a text are those that it is made of. -/
theorem Lined.lines {text : String} (h : Lined width root text) :
    ∃ lines : List Line, text.toList.splitOn '\n' = lines.map (·.text.toList) ∧
      ∀ l ∈ lines, l.Placed width root := by
  have hone : ∀ {l : Line}, OneLine l.chunk → l.text.toList.splitOn '\n' = [l.text.toList] := by
    intro l hchunk
    refine List.splitOnP_eq_singleton fun c hc => ?_
    simpa using Line.oneLine_text hchunk c hc
  induction h with
  | @line l h hchunk => exact ⟨[l], hone hchunk, List.forall_mem_singleton.mpr h⟩
  | @cons l rest h hchunk _ ih =>
      obtain ⟨lines, hlines, hplaced⟩ := ih
      refine ⟨l :: lines, ?_, List.forall_mem_cons.mpr ⟨h, hplaced⟩⟩
      have hsplit : (l.text ++ "\n" ++ rest).toList.splitOn '\n' =
          l.text.toList.splitOn '\n' ++ rest.toList.splitOn '\n' := by
        simp only [String.toList_append, List.append_assoc]
        exact List.splitOnP_append_cons _ _ (by decide)
      rw [hsplit, hone hchunk, hlines]
      rfl

/-! ## Nodes on their lines -/

/-- The parts of a broken form, the first one where it is and each other one behind a margin. -/
def Node.rows (width depth : Int) (n : Node) (ns : List Node) : String :=
  "\n".intercalate
    (n.layout width (depth + 1) :: ns.map fun m => margin depth ++ m.layout width (depth + 1))

theorem Node.rows_cons (width depth : Int) (n m : Node) (ns : List Node) :
    n.rows width depth (m :: ns) =
      n.layout width (depth + 1) ++ "\n" ++ (margin depth ++ m.rows width depth ns) := by
  rw [rows, rows, List.map_cons, String.intercalate_cons_cons, String.intercalate_cons_append]

namespace Spot

/-- Wherever the node may stand in the layout of `root`, it is made of lines, together with what
stands in front of it and what ends behind it. -/
def Laid (width : Int) (root s : Spot) : Prop :=
  ∀ (indentation : Nat) (opened closed : List Spot),
    Line.Begins width root indentation opened s → Line.Ends width root s closed →
    Lined width root (Line.text ⟨indentation, opened, s.node.layout width s.depth, closed⟩)

/-- The parts of a broken form are made of lines if each of them is, from any part to the last. -/
theorem laid_rows {form : Spot} (hform : root.LaysOut width form) (hbroken : form.Broken width)
    {n : Node} {before ns : List Node} (hparts : form.node.parts = before ++ n :: ns)
    (hrows : ∀ m ∈ ns, m ∈ form.node.rowParts)
    (hlaid : ∀ m ∈ n :: ns, Laid width root ⟨m, form.depth + 1⟩)
    {indentation : Nat} {opened closed : List Spot}
    (hbegins : Line.Begins width root indentation opened ⟨n, form.depth + 1⟩)
    (hends : Line.Ends width root form closed) :
    Lined width root
      (Line.text ⟨indentation, opened, n.rows width form.depth ns, form :: closed⟩) := by
  induction ns generalizing n before indentation opened with
  | nil =>
      have hlast : form.node.parts.getLast? = some n := by
        rw [hparts, List.getLast?_concat]
      exact hlaid n List.mem_cons_self _ _ _ hbegins (.last hends hform hbroken hlast)
  | cons m ns ih =>
      obtain ⟨hn, hrest⟩ := List.forall_mem_cons.mp hlaid
      obtain ⟨hm, hrows⟩ := List.forall_mem_cons.mp hrows
      rw [Node.rows_cons, Line.text_break, Line.text_margin]
      refine .append (hn _ _ _ hbegins (.row hform hbroken hparts)) ?_
      exact ih (by rw [hparts, List.append_cons]) hrows hrest (.row hform hbroken hm)

/-- A broken call is made of lines if its parts are. -/
theorem laid_call {head : Node} {operands : List Node} {depth : Int}
    (hlaid : ∀ n ∈ head :: operands, Laid width root ⟨n, depth + 1⟩)
    (hbroken : Broken width ⟨.call (head :: operands), depth⟩)
    {indentation : Nat} {opened closed : List Spot}
    (hbegins : Line.Begins width root indentation opened ⟨.call (head :: operands), depth⟩)
    (hends : Line.Ends width root ⟨.call (head :: operands), depth⟩ closed) :
    Lined width root (Line.text ⟨indentation, opened, broken depth
      ("(" ++ head.layout width (depth + 1)) (operands.map (Node.layout width (depth + 1))),
      closed⟩) := by
  let form : Spot := ⟨.call (head :: operands), depth⟩
  have htext : broken depth ("(" ++ head.layout width (depth + 1))
      (operands.map (Node.layout width (depth + 1))) =
      "(" ++ head.rows width depth operands ++ ")" := by
    rw [broken, String.intercalate_cons_append, Node.rows, List.map_map]
    rfl
  have hparts : form.node.parts = [] ++ head :: operands := rfl
  rw [htext, Line.text_close form, Line.text_open form]
  exact laid_rows hbegins.laysOut hbroken hparts (fun _ hm => hm) hlaid
    (.operator hbegins hbroken) hends

/-- So is a broken definition. -/
theorem laid_definition {name : String} {params : List String} {body : List Node} {depth : Int}
    (hheader : OneLine (definitionHead name params))
    (hlaid : ∀ n ∈ body, Laid width root ⟨n, depth + 1⟩)
    (hbroken : Broken width ⟨.definition name params body, depth⟩)
    {indentation : Nat} {opened closed : List Spot}
    (hbegins : Line.Begins width root indentation opened ⟨.definition name params body, depth⟩)
    (hends : Line.Ends width root ⟨.definition name params body, depth⟩ closed) :
    Lined width root (Line.text ⟨indentation, opened, broken depth (definitionHead name params)
      (body.map (Node.layout width (depth + 1))), closed⟩) := by
  let form : Spot := ⟨.definition name params body, depth⟩
  rw [broken, Line.text_close form]
  cases body with
  | nil => exact .line (.bodiless hbegins hbroken hends) hheader
  | cons n ns =>
      have htext : "\n".intercalate (definitionHead name params ::
          ((n :: ns).map (Node.layout width (depth + 1))).map (margin depth ++ ·)) =
          definitionHead name params ++ "\n" ++ (margin depth ++ n.rows width depth ns) := by
        rw [List.map_cons, List.map_cons, String.intercalate_cons_cons,
          String.intercalate_cons_append, Node.rows, List.map_map]
        rfl
      have hparts : form.node.parts = [] ++ n :: ns := rfl
      have hn : n ∈ form.node.rowParts := List.mem_cons_self
      rw [htext, Line.text_break, Line.text_margin]
      refine .append (.line (.header hbegins hbroken) hheader) ?_
      exact laid_rows hbegins.laysOut hbroken hparts (fun _ hm => List.mem_cons_of_mem n hm) hlaid
        (.row hbegins.laysOut hbroken hn) hends

/-- A node that fits is one line. -/
theorem laid_whole {s : Spot} (hroot : 0 ≤ root.depth) (hone : OneLine s.node.format)
    (hfits : fits width s.depth s.node.format = true)
    {indentation : Nat} {opened closed : List Spot}
    (hbegins : Line.Begins width root indentation opened s)
    (hends : Line.Ends width root s closed) :
    Lined width root (Line.text ⟨indentation, opened, s.node.format, closed⟩) := by
  have hroom : (s.node.format.length : Int) + s.depth * 2 ≤ width := of_decide_eq_true hfits
  have hcolumn := hbegins.column hroot
  exact .line (.whole hbegins hends (by omega)) hone

/-- So is a node that cannot be broken. -/
theorem laid_atom {n : Node} {depth : Int} (hatomic : n.Atomic) (hone : OneLine n.format) :
    Laid width root ⟨n, depth⟩ := by
  intro indentation opened closed hbegins hends
  have hlayout : n.layout width depth = n.format := by
    cases hatomic <;> rfl
  show Lined width root (Line.text ⟨indentation, opened, n.layout width depth, closed⟩)
  rw [hlayout]
  exact .line (.atom hbegins hends hatomic) hone

end Spot

open Spot (laid_atom laid_whole laid_call laid_definition)

/-- A node without line feeds is made of lines wherever it stands. -/
theorem Node.LineFree.laid {n : Node} (hroot : 0 ≤ root.depth) (h : n.LineFree) (depth : Int) :
    Spot.Laid width root ⟨n, depth⟩ := by
  -- for all depths at once, as the parts of a broken form stand one deeper
  induction h generalizing depth with
  | integer k => exact laid_atom (.literal _) (LineFree.integer k).oneLine_format
  | literal h => exact laid_atom (.literal _) (LineFree.literal h).oneLine_format
  | identifier h => exact laid_atom (.identifier _) (LineFree.identifier h).oneLine_format
  | @call ns h ih =>
      have hone := (LineFree.call h).oneLine_format
      cases ns with
      | nil => exact laid_atom .empty hone
      | cons head operands =>
          intro indentation opened closed hbegins hends
          show Lined width root (Line.text ⟨indentation, opened, layout width depth _, closed⟩)
          rw [layout, layoutAll_eq_map]
          cases hfits : fits width depth (Node.call (head :: operands)).format with
          | true =>
              exact laid_whole (s := ⟨.call (head :: operands), depth⟩) hroot hone hfits hbegins
                hends
          | false =>
              exact laid_call (fun n hn => ih n hn (depth + 1)) (.call hfits) hbegins hends
  | @definition name params body hname hparams hbody ih =>
      have hone := (LineFree.definition hname hparams hbody).oneLine_format
      intro indentation opened closed hbegins hends
      show Lined width root (Line.text ⟨indentation, opened, layout width depth _, closed⟩)
      rw [layout, layoutAll_eq_map]
      cases hfits : fits width depth (Node.definition name params body).format with
      | true =>
          exact laid_whole (s := ⟨.definition name params body, depth⟩) hroot hone hfits hbegins
            hends
      | false =>
          exact laid_definition (oneLine_definitionHead hname hparams)
            (fun n hn => ih n hn (depth + 1)) (.definition hfits) hbegins hends

end

/-! ## The theorem -/

/-- Layout keeps to the width except for what it cannot break.  In the layout of a tree without line
feeds, at any depth and for any width, each line has its indentation, the parentheses of the broken
calls that open on it, one piece of text, and the parentheses of the broken forms that end on it.
The piece is the whole text of a node, and then it ends within the width; or it is a constant, a
name or an empty list; or it is a definition up to its body. -/
theorem layout_keeps_to_width {n : Node} (hn : n.LineFree) {depth : Int} (hdepth : 0 ≤ depth)
    (width : Int) :
    ∃ lines : List Line,
      (n.layout width depth).toList.splitOn '\n' = lines.map (·.text.toList) ∧
        ∀ l ∈ lines, l.Placed width ⟨n, depth⟩ := by
  have hlined : Lined width ⟨n, depth⟩ (Line.text ⟨0, [], n.layout width depth, []⟩) :=
    hn.laid hdepth depth _ _ _ .root .root
  have htext : Line.text ⟨0, [], n.layout width depth, []⟩ = n.layout width depth := by
    simp [Line.text]
  rw [htext] at hlined
  exact hlined.lines

/-- A definition with a call of a call in its body: `(defun f (a) ((g a a a) "x") ())`. -/
def foldedNode : Node :=
  let a := Node.identifier "a"
  .definition "f" ["a"]
    [.call [.call [.identifier "g", a, a, a], .literal (.string "x")], .call []]

theorem layout_keeps_to_width_folded :
    ∃ lines : List Line,
      ["(defun f (a)", "  ((g a a a)", "    \"x\")", "  ())"].map String.toList =
        lines.map (·.text.toList) ∧
        ∀ l ∈ lines, l.Placed 14 ⟨foldedNode, 0⟩ := by
  have ha : (Node.identifier "a").LineFree := .identifier (by decide)
  have hg : (Node.identifier "g").LineFree := .identifier (by decide)
  have hx : (Node.literal (.string "x")).LineFree := .literal (by decide)
  have hfree : foldedNode.LineFree :=
    .definition (by decide) (by decide) (by simp [ha, hg, hx, Node.LineFree.call])
  have hlines : (foldedNode.layout 14 0).toList.splitOn '\n' =
      ["(defun f (a)", "  ((g a a a)", "    \"x\")", "  ())"].map String.toList := by decide
  rw [← hlines]
  exact layout_keeps_to_width hfree (by decide) 14

end MiniLisp
