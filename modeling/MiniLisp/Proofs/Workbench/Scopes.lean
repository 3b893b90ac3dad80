/-
# MiniLisp.Proofs.Workbench.Scopes — scopes mean what their history says.

Which frames a scope has, which table it ends in, what a name means in it and whether it is bound
there at all: four questions with an answer of their own each.  At any time the log has all the
answers.  What an operation changes is then told for each: to put bindings above a scope changes no
scope that there is, and a definition changes what its own name means, where its table is at the end
and no frame is in front.
-/
import MiniLisp.Proofs.Value.Lookup
import MiniLisp.Proofs.Workbench.Refinement

namespace MiniLisp

/-! ## Parameters and arguments -/

/-- In `s'` a parameter means the last argument that was given for it.  Any other name means what it
means in `s`. -/
def Scope.BindsLast (ts : Tables) (params : List String) (args : List Value) (s s' : Scope) :
    Prop :=
  ∀ x, (x ∉ params → Eval.find ts s' x = Eval.find ts s x) ∧
    ∀ i v, params[i]? = some x → args[i]? = some v → x ∉ params.drop (i + 1) →
      Eval.find ts s' x = .ok v

theorem Scope.bindsLast_extend (ts : Tables) (params : List String) (args : List Value)
    (s : Scope) : BindsLast ts params args s (s.extend (params.zip args)) := by
  intro x
  constructor
  · intro hx
    have hother : ∀ b ∈ params.zip args, b.1 ≠ x := by
      rintro b hb rfl
      exact hx (List.of_mem_zip hb).1
    rw [Eval.find, lookup?_extend_of_notMem ts hother, Eval.find]
  · intro i v hparam harg hlast
    have hbinding : (params.zip args)[i]? = some (x, v) :=
      List.getElem?_zip_eq_some.mpr ⟨hparam, harg⟩
    obtain ⟨hi, hget⟩ := List.getElem?_eq_some_iff.mp hbinding
    have hsplit : params.zip args =
        (params.zip args).take i ++ (x, v) :: (params.zip args).drop (i + 1) := by
      rw [← hget, ← List.drop_eq_getElem_cons hi, List.take_append_drop]
    have hback : ∀ b ∈ (params.zip args).drop (i + 1), b.1 ≠ x := by
      rintro b hb rfl
      rw [List.zip, List.drop_zipWith] at hb
      exact hlast (List.of_mem_zip hb).1
    rw [Eval.find, hsplit, lookup?_extend_of_last hback]

namespace Workbench

variable {w w' : Workbench} {l : Log} {c : CellId} {s : Scope}

/-! ## What can be asked of scopes -/

theorem isTop_iff {id : TableId} : isTop id s = true ↔ s = .top id := by
  cases s with
  | top t => simp [isTop]
  | frame name value outer => simp [isTop]

namespace Refines

theorem root?_eq (h : w.Refines l) (hs : w.scope? c = some s) :
    ∃ r, w.root? c = some r ∧ l.root? c = some r ∧ w.scope? r = some (.top s.root) := by
  obtain ⟨r, hr, htop⟩ := h.root hs
  refine ⟨r, ?_, hr, htop⟩
  have hfind : w.root? c = w.cells.findIdx? fun cell => isTop s.root cell.scope := by
    rw [Workbench.root?, hs]
    rfl
  have hlt : r < w.cells.length := scope?_lt htop
  rw [hfind, List.findIdx?_eq_some_iff_getElem]
  refine ⟨hlt, isTop_iff.mpr ?_, fun j hj hisTop => ?_⟩
  · exact Option.some.inj ((scope?_eq hlt).symm.trans htop)
  · -- a scope in front of it would be the same table made twice
    have htop' := (scope?_eq (Nat.lt_trans hj hlt)).trans (congrArg some (isTop_iff.mp hisTop))
    exact Nat.ne_of_lt hj (h.one htop' htop)

/-- The table at the end of a scope has the definitions of the log. -/
theorem lookup?_root (h : w.Refines l) (hs : w.scope? c = some s) (x : String) :
    w.tables.lookup? s.root x = (l.root? c).bind fun r => l.defined? r x := by
  obtain ⟨r, hr, htop⟩ := h.root hs
  obtain ⟨table, htable, hlookup⟩ := h.table htop
  rw [Tables.lookup?, htable, hr]
  exact hlookup x

theorem lookup?_eq (h : w.Refines l) (hs : w.scope? c = some s) (x : String) :
    s.lookup? w.tables x = l.denotes? c x := by
  rw [Scope.lookup?_eq, h.frames hs, h.lookup?_root hs]
  rfl

end Refines

/-- Whatever is asked of the scopes, the answers are those of the log. -/
structure Shows (w : Workbench) (l : Log) : Prop where
  made : ∀ c, (∃ s, w.scope? c = some s) ↔ c < l.size
  frames : ∀ {c s}, w.scope? c = some s → s.frames = l.frames c
  root : ∀ {c s}, w.scope? c = some s →
    ∃ r, w.root? c = some r ∧ l.root? c = some r ∧ w.scope? r = some (.top s.root)
  lookup : ∀ {c s}, w.scope? c = some s → ∀ x, Eval.find w.tables s x =
    match l.denotes? c x with
    | some v => .ok v
    | none => .error (.unbound x)
  contains : ∀ {c s}, w.scope? c = some s → ∀ x,
    s.contains w.tables x = true ↔ ∃ v, Eval.find w.tables s x = .ok v

theorem Refines.shows (h : w.Refines l) : w.Shows l where
  made c := by
    rw [← h.size]
    exact ⟨fun ⟨s, hs⟩ => scope?_lt hs, fun hc => ⟨_, scope?_eq hc⟩⟩
  frames := h.frames
  root := h.root?_eq
  lookup {c s} hs x := by
    cases hdenotes : l.denotes? c x with
    | some v => rw [Eval.find, h.lookup?_eq hs, hdenotes]
    | none => rw [Eval.find, h.lookup?_eq hs, hdenotes]
  contains {c s} hs x := by
    rw [Scope.contains_eq, Eval.find]
    cases s.lookup? w.tables x <;> simp

/-! ## What operations change -/

/-- Every scope is still there, and every name means in it what it meant. -/
def Undisturbed (w w' : Workbench) : Prop :=
  ∀ c s, w.scope? c = some s →
    w'.scope? c = some s ∧ ∀ x, Eval.find w'.tables s x = Eval.find w.tables s x

theorem Grows.undisturbed (h : w.Grows w') : w.Undisturbed w' := by
  intro c s hs
  refine ⟨h.scopes hs, fun x => ?_⟩
  rw [h.tables]

/-- The tables, and no other scopes, take definitions. -/
theorem Refines.define_iff_root (h : w.Refines l) (r : CellId) (name : String) (value : Value) :
    (∃ w', w.define r name value = some w') ↔ w.root? r = some r := by
  constructor
  · rintro ⟨w', hdefine⟩
    obtain ⟨t, ht⟩ := scope?_of_define hdefine
    obtain ⟨r', hroot, hroot', -⟩ := h.root?_eq ht
    rw [hroot, ← hroot']
    exact h.root?_self_iff.mpr ⟨t, ht⟩
  · intro hself
    obtain ⟨s, hs, -⟩ := Option.bind_eq_some_iff.mp hself
    obtain ⟨r', hroot, hroot', -⟩ := h.root?_eq hs
    obtain ⟨t, ht⟩ := h.root?_self_iff.mp (hroot'.trans (hroot.symm.trans hself))
    exact ⟨_, define_eq ht name value⟩

/-- What a definition at the root `r` changes. -/
theorem Refines.find_define (h : w.Refines l) {r : CellId} {name : String} {value : Value}
    (hdefine : w.define r name value = some w') (hs : w.scope? c = some s) :
    w'.scope? c = some s ∧ ∀ x, Eval.find w'.tables s x =
      if x = name ∧ w.root? c = some r ∧ name ∉ s.frames.map (·.1) then .ok value
      else Eval.find w.tables s x := by
  obtain ⟨t, ht⟩ := scope?_of_define hdefine
  rw [define_eq ht] at hdefine
  cases hdefine
  have hs' : Workbench.scope? { w with tables := w.tables.modify t (·.define name value) } c =
      some s := hs
  obtain ⟨r', hroot, hroot', -⟩ := h.root?_eq hs
  refine ⟨hs', fun x => ?_⟩
  have hlookup := (h.define ht name value).lookup?_eq hs' x
  rw [Log.denotes?_definition, ← h.lookup?_eq hs, ← h.frames hs, hroot', ← hroot] at hlookup
  rw [Eval.find, hlookup]
  by_cases hchange : x = name ∧ w.root? c = some r ∧ name ∉ s.frames.map (·.1)
  · rw [if_pos hchange, if_pos hchange]
  · rw [if_neg hchange, if_neg hchange, Eval.find]

/-- Scopes mean what their history says.  After any row of operations the scopes that were made, the
frames of each, the table at its end and what a name means in it are as the log has them: a name
means its innermost frame, or else what was last defined for it in the table, or it is unbound; and
it is contained exactly if it is bound.

To put a binding above a scope, or the arguments of a procedure, leaves all that every scope means
as it is.  A definition, which only a table takes, changes what its own name means, in the scopes
that end in this table and have no frame of this name, and nothing else.  Arguments are bound if
there is one for each parameter, and then the last one counts where parameters have the same name;
otherwise there is an error and no new scope. -/
theorem scopes_refine_log (ops : List Operation) :
    let w := after ops
    w.Shows (Log.after ops) ∧
    (∀ c s name value, w.scope? c = some s →
      ∃ d w', w.extend c name value = some (d, w') ∧ w.Undisturbed w' ∧
        w'.scope? d = some (.frame name value s)) ∧
    (∀ r name value, (∃ w', w.define r name value = some w') ↔ w.root? r = some r) ∧
    (∀ r name value w', w.define r name value = some w' → ∀ c s, w.scope? c = some s →
      w'.scope? c = some s ∧ ∀ x, Eval.find w'.tables s x =
        if x = name ∧ w.root? c = some r ∧ name ∉ s.frames.map (·.1) then .ok value
        else Eval.find w.tables s x) ∧
    ∀ c s p args, w.scope? c = some s →
      (args.length ≠ p.params.length →
        w.bind c p args = .error (.argumentCount p args.length) ∧
          w.perform (.bind c p args) = w) ∧
      (args.length = p.params.length →
        ∃ d w' s', w.bind c p args = .ok (some (d, w')) ∧ w.Undisturbed w' ∧
          w'.scope? d = some s' ∧ Eval.bind p s args = .ok s' ∧
          Scope.BindsLast w'.tables p.params args s s') := by
  intro w
  have h : w.Refines (Log.after ops) := refines_after ops
  refine ⟨h.shows, ?_, h.define_iff_root, fun r name value w' hdefine c s => h.find_define hdefine,
    ?_⟩
  · intro c s name value hs
    let cell : Cell := ⟨.frame name value s, some c⟩
    refine ⟨w.cells.length, (w.add cell).2, extend_eq hs name value, (grows_add w _).undisturbed,
      ?_⟩
    rw [scope?_add, if_pos rfl]
  · intro c s p args hs
    constructor
    · intro hcount
      have hbind : w.bind c p args = .error (.argumentCount p args.length) := if_neg hcount
      refine ⟨hbind, ?_⟩
      rw [perform, hbind]
    · intro hcount
      obtain ⟨d, w', hall, -, hgrows, hd⟩ := h.extendAll hs (p.params.zip args)
      refine ⟨d, w', _, ?_, hgrows.undisturbed, hd, if_pos hcount, ?_⟩
      · rw [Workbench.bind, if_pos hcount, hall]
      · exact Scope.bindsLast_extend w'.tables p.params args s

/-- Both parameters have one name. -/
def twice : Procedure := { name := none, params := ["a", "a"], body := [] }

/-- Two scopes above one table, a call above the first of them, and then a definition. -/
def siblings : List Operation :=
  [.table [("x", .int 0)], .extend 0 "x" (.int 1), .extend 0 "y" (.int 2),
    .bind 1 twice [.int 3, .int 4], .define 0 "late" (.int 5)]

theorem scopes_refine_log_siblings :
    let w := after siblings
    let left : Scope := .frame "x" (.int 1) (.top 0)
    let right : Scope := .frame "y" (.int 2) (.top 0)
    let inner : Scope := .frame "a" (.int 4) (.frame "a" (.int 3) left)
    (w.scope? 1 = some left ∧ w.scope? 2 = some right ∧ w.scope? 4 = some inner) ∧
      (Eval.find w.tables inner "a" = .ok (.int 4) ∧ Eval.find w.tables inner "x" = .ok (.int 1) ∧
        Eval.find w.tables inner "late" = .ok (.int 5)) ∧
      (Eval.find w.tables right "x" = .ok (.int 0) ∧
        Eval.find w.tables right "a" = .error (.unbound "a")) ∧
      w.bind 4 twice [] = .error (.argumentCount twice 0) ∧
      ∃ w', w.define 0 "x" (.int 6) = some w' ∧
        Eval.find w'.tables right "x" = .ok (.int 6) ∧
        Eval.find w'.tables left "x" = .ok (.int 1) := by
  intro w left right inner
  have hleft : w.scope? 1 = some left := rfl
  have hright : w.scope? 2 = some right := rfl
  have hinner : w.scope? 4 = some inner := rfl
  obtain ⟨hshows, -, hdefines, hdefine, hbind⟩ := scopes_refine_log siblings
  obtain ⟨w', hw'⟩ := (hdefines 0 "x" (.int 6)).mpr rfl
  obtain ⟨-, hmeans⟩ := hdefine 0 "x" (.int 6) w' hw' 2 right hright
  obtain ⟨-, hkept⟩ := hdefine 0 "x" (.int 6) w' hw' 1 left hleft
  refine ⟨⟨hleft, hright, hinner⟩, ⟨hshows.lookup hinner "a", hshows.lookup hinner "x",
    hshows.lookup hinner "late"⟩, ⟨hshows.lookup hright "x", hshows.lookup hright "a"⟩,
    ((hbind 4 inner twice [] hinner).1 (by decide)).1, w', hw', ?_, ?_⟩
  · rw [hmeans "x", if_pos ⟨rfl, rfl, by decide⟩]
  · rw [hkept "x", if_neg fun h => absurd h.2.2 (by decide)]
    exact hshows.lookup hleft "x"

end Workbench

end MiniLisp
