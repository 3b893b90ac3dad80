/-
# MiniLisp.Proofs.Workbench.Refinement — a workbench and its history.

A workbench keeps chains of frames that share their tails, over tables that change in place.  The
log has nothing of the kind.  `Refines` says how the two are tied: the frames of a scope are those
that the log tells of, at its end is the table that the log names, this table is no other scope, and
it holds the definitions of the log.  It holds where nothing has been made, and every operation
keeps it.
-/
import MiniLisp.Proofs.Workbench.Log

namespace MiniLisp.Workbench

variable {w w' : Workbench} {l : Log} {c : CellId} {s : Scope} {t : TableId} {name : String}
  {value : Value}

/-! ## Scopes by number -/

theorem scope?_add (w : Workbench) (cell : Cell) (c : CellId) :
    (w.add cell).2.scope? c = if c = w.cells.length then some cell.scope else w.scope? c := by
  have hcell : (w.cells ++ [cell])[c]? = if c = w.cells.length then some cell else w.cells[c]? := by
    grind
  unfold add scope?
  rw [hcell]
  split <;> rfl

theorem scope?_lt (h : w.scope? c = some s) : c < w.cells.length := by
  obtain ⟨cell, hcell, -⟩ := Option.map_eq_some_iff.mp h
  exact (List.getElem?_eq_some_iff.mp hcell).1

theorem scope?_eq (h : c < w.cells.length) : w.scope? c = some w.cells[c].scope := by
  rw [scope?, List.getElem?_eq_getElem h]
  rfl

/-- There may be more scopes, and nothing else has changed. -/
structure Grows (w w' : Workbench) : Prop where
  tables : w'.tables = w.tables
  scopes : ∀ {c s}, w.scope? c = some s → w'.scope? c = some s

theorem Grows.refl (w : Workbench) : w.Grows w := ⟨rfl, id⟩

theorem Grows.trans {w'' : Workbench} (h : w.Grows w') (h' : w'.Grows w'') : w.Grows w'' :=
  ⟨h'.tables.trans h.tables, fun hs => h'.scopes (h.scopes hs)⟩

theorem grows_add (w : Workbench) (cell : Cell) : w.Grows (w.add cell).2 where
  tables := rfl
  scopes hs := by
    rw [scope?_add, if_neg (Nat.ne_of_lt (scope?_lt hs))]
    exact hs

/-! ## Single operations -/

theorem scope?_of_not_lt (hc : ¬c < w.cells.length) : w.scope? c = none := by
  rw [scope?, List.getElem?_eq_none (Nat.le_of_not_lt hc)]
  rfl

theorem extend_eq (hs : w.scope? c = some s) (name : String) (value : Value) :
    w.extend c name value = some (w.add ⟨.frame name value s, some c⟩) := by
  rw [extend, hs]
  rfl

theorem define_eq (ht : w.scope? c = some (.top t)) (name : String) (value : Value) :
    w.define c name value =
      some { w with tables := w.tables.modify t (·.define name value) } := by
  rw [define, ht]
  rfl

/-- Only tables can be defined in. -/
theorem scope?_of_define (h : w.define c name value = some w') :
    ∃ t, w.scope? c = some (.top t) := by
  rw [define] at h
  cases hs : w.scope? c with
  | none =>
      rw [hs] at h
      cases h
  | some s =>
      cases s with
      | top t => exact ⟨t, rfl⟩
      | frame _ _ _ =>
          rw [hs] at h
          cases h

/-- Bindings cannot be put above what is not there. -/
theorem extendAll_of_not_lt (hc : ¬c < w.cells.length) (bindings : List (String × Value)) :
    w.extendAll c bindings = none ∨ w.extendAll c bindings = some (c, w) := by
  cases bindings with
  | nil => exact .inr rfl
  | cons b bs =>
      left
      rw [Workbench.extendAll, extend, scope?_of_not_lt hc]
      rfl

/-! ## The invariant -/

/-- The log tells of this workbench. -/
structure Refines (w : Workbench) (l : Log) : Prop where
  size : w.cells.length = l.size
  frames : ∀ {c s}, w.scope? c = some s → s.frames = l.frames c
  root : ∀ {c s}, w.scope? c = some s → ∃ r, l.root? c = some r ∧ w.scope? r = some (.top s.root)
  /-- A table is one scope only. -/
  one : ∀ {c d t}, w.scope? c = some (.top t) → w.scope? d = some (.top t) → c = d
  table : ∀ {c t}, w.scope? c = some (.top t) →
    ∃ table, w.tables[t]? = some table ∧ ∀ x, table.lookup? x = l.defined? c x
  /-- Nothing was defined in what is not made yet. -/
  fresh : ∀ r x, l.size ≤ r → l.defined? r x = none

namespace Refines

theorem empty : Refines {} [] where
  size := rfl
  frames h := by cases h
  root h := by cases h
  one h := by cases h
  table h := by cases h
  fresh _ _ _ := rfl

/-- Every scope is new or was there before. -/
theorem scope?_add_cases (h : w.Refines l) {cell : Cell}
    (hs : (w.add cell).2.scope? c = some s) :
    c = l.size ∧ s = cell.scope ∨ c ≠ l.size ∧ w.scope? c = some s := by
  rw [scope?_add, h.size] at hs
  split at hs
  · next hc => exact .inl ⟨hc, (Option.some.inj hs).symm⟩
  · next hc => exact .inr ⟨hc, hs⟩

/-- A binding is put above a scope. -/
theorem frame (h : w.Refines l) (hs : w.scope? c = some s) (name : String) (value : Value) :
    (w.add ⟨.frame name value s, some c⟩).2.Refines (.frame name value c :: l) where
  size := by
    rw [Log.size, ← h.size]
    exact List.length_append
  frames := by
    intro d t ht
    rw [Log.frames]
    rcases h.scope?_add_cases ht with ⟨hd, rfl⟩ | ⟨hd, ht⟩
    · rw [if_pos hd, Scope.frames, h.frames hs]
    · rw [if_neg hd, h.frames ht]
  root := by
    intro d t ht
    rw [Log.root?]
    rcases h.scope?_add_cases ht with ⟨hd, rfl⟩ | ⟨hd, ht⟩
    · obtain ⟨r, hr, htop⟩ := h.root hs
      rw [if_pos hd]
      exact ⟨r, hr, (grows_add w _).scopes htop⟩
    · obtain ⟨r, hr, htop⟩ := h.root ht
      rw [if_neg hd]
      exact ⟨r, hr, (grows_add w _).scopes htop⟩
  one := by
    intro d d' t hd hd'
    rcases h.scope?_add_cases hd with ⟨-, heq⟩ | ⟨-, hd⟩
    · cases heq
    rcases h.scope?_add_cases hd' with ⟨-, heq⟩ | ⟨-, hd'⟩
    · cases heq
    exact h.one hd hd'
  table := by
    intro d t hd
    rcases h.scope?_add_cases hd with ⟨-, heq⟩ | ⟨-, hd⟩
    · cases heq
    exact h.table hd
  fresh r x hr := h.fresh r x (Nat.le_of_succ_le hr)

theorem table_lt (h : w.Refines l) (hc : w.scope? c = some (.top t)) : t < w.tables.length := by
  obtain ⟨table, htable, -⟩ := h.table hc
  exact (List.getElem?_eq_some_iff.mp htable).1

/-- A table is made. -/
theorem addTable (h : w.Refines l) (bindings : List (String × Value)) :
    (w.addTable bindings).2.Refines (Log.define (.table :: l) l.size bindings) where
  size := by
    rw [Log.size_define, Log.size, ← h.size]
    exact List.length_append
  frames := by
    intro d s hs
    rw [Log.frames_define, Log.frames]
    rcases h.scope?_add_cases hs with ⟨hd, rfl⟩ | ⟨hd, hs⟩
    · rw [if_pos hd, Scope.frames]
    · rw [if_neg hd, h.frames hs]
  root := by
    intro d s hs
    rw [Log.root?_define, Log.root?]
    rcases h.scope?_add_cases hs with ⟨hd, rfl⟩ | ⟨hd, hs'⟩
    · rw [if_pos hd]
      exact ⟨d, rfl, hs⟩
    · obtain ⟨r, hr, htop⟩ := h.root hs'
      rw [if_neg hd]
      exact ⟨r, hr, (grows_add w _).scopes htop⟩
  one := by
    intro d d' t hd hd'
    rcases h.scope?_add_cases hd with ⟨hnew, heq⟩ | ⟨-, hd⟩ <;>
      rcases h.scope?_add_cases hd' with ⟨hnew', heq'⟩ | ⟨-, hd'⟩
    · exact hnew.trans hnew'.symm
    · cases heq
      exact absurd (h.table_lt hd') (Nat.lt_irrefl _)
    · cases heq'
      exact absurd (h.table_lt hd) (Nat.lt_irrefl _)
    · exact h.one hd hd'
  table := by
    intro d t hd
    rcases h.scope?_add_cases hd with ⟨hnew, heq⟩ | ⟨hne, hd⟩
    · cases heq
      subst hnew
      -- before its own bindings nothing was defined in it, neither here nor there
      refine ⟨_, List.getElem?_concat_length, fun x => Log.defined?_define fun y => ?_⟩
      exact (h.fresh l.size y (Nat.le_refl _)).symm
    · obtain ⟨table, htable, hlookup⟩ := h.table hd
      refine ⟨table, ?_, fun x => ?_⟩
      · exact (List.getElem?_append_left (h.table_lt hd)).trans htable
      · rw [Log.defined?_define_of_ne hne]
        exact hlookup x
  fresh r x hr := by
    rw [Log.size_define] at hr
    rw [Log.defined?_define_of_ne (Nat.ne_of_gt hr)]
    exact h.fresh r x (Nat.le_of_succ_le hr)

/-- A name is defined in a table. -/
theorem define (h : w.Refines l) (hc : w.scope? c = some (.top t)) (name : String)
    (value : Value) :
    Refines { w with tables := w.tables.modify t (·.define name value) }
      (.definition c name value :: l) where
  size := h.size
  frames := h.frames
  root := h.root
  one := h.one
  table := by
    intro d u hd
    obtain ⟨table, htable, hlookup⟩ := h.table hd
    -- the table that changed is this one scope's, so no other scope needs the new definition
    by_cases hu : t = u
    · subst hu
      obtain rfl := h.one hc hd
      refine ⟨table.define name value, by simp [htable], fun x => ?_⟩
      rw [Table.lookup?_define, hlookup]
      simp [Log.defined?]
    · have hne : d ≠ c := by
        rintro rfl
        cases hc.symm.trans hd
        exact hu rfl
      refine ⟨table, by simp [hu, htable], fun x => ?_⟩
      rw [hlookup, Log.defined?, if_neg fun heq => hne heq.1]
  fresh r x hr := by
    have hlt : c < l.size := by
      rw [← h.size]
      exact scope?_lt hc
    rw [Log.defined?, if_neg fun heq => absurd heq.1 (Nat.ne_of_gt (Nat.lt_of_lt_of_le hlt hr))]
    exact h.fresh r x hr

/-! ## Operations -/

/-- Bindings that are put above a scope one after the other keep the invariant, and make the scope
that has them all. -/
theorem extendAll (h : w.Refines l) (hs : w.scope? c = some s)
    (bindings : List (String × Value)) :
    ∃ d w', w.extendAll c bindings = some (d, w') ∧ w'.Refines (l.stack c bindings) ∧
      w.Grows w' ∧ w'.scope? d = some (s.extend bindings) := by
  -- along the bindings, each of which makes the scope that the next one is put above
  induction bindings generalizing w l c s with
  | nil => exact ⟨c, w, rfl, h, .refl w, hs⟩
  | cons b bs ih =>
      obtain ⟨name, value⟩ := b
      have hnew : (w.add ⟨.frame name value s, some c⟩).2.scope? w.cells.length =
          some (.frame name value s) := by
        rw [scope?_add, if_pos rfl]
      obtain ⟨d, w', hall, hrefines, hgrows, hd⟩ := ih (h.frame hs name value) hnew
      refine ⟨d, w', ?_, ?_, (grows_add w _).trans hgrows, hd⟩
      · rw [Workbench.extendAll, extend_eq hs]
        exact hall
      · rw [Log.stack, ← h.size]
        exact hrefines

/-- The scopes that end in themselves are the tables. -/
theorem root?_self_iff (h : w.Refines l) :
    l.root? c = some c ↔ ∃ t, w.scope? c = some (.top t) := by
  constructor
  · intro hroot
    have hlt : c < w.cells.length := by
      rw [h.size]
      exact Log.root?_lt hroot
    have hs := scope?_eq hlt
    obtain ⟨r, hr, htop⟩ := h.root hs
    obtain rfl : r = c := Option.some.inj (hr.symm.trans hroot)
    exact ⟨_, htop⟩
  · rintro ⟨t, ht⟩
    obtain ⟨r, hr, htop⟩ := h.root ht
    obtain rfl : r = c := h.one htop ht
    exact hr

/-- Every operation keeps the invariant. -/
theorem perform (h : w.Refines l) (op : Operation) : (w.perform op).Refines (l.perform op) := by
  cases op with
  | table bindings => exact h.addTable bindings
  | define r name value =>
      rw [Workbench.perform, Log.perform]
      by_cases hr : l.root? r = some r
      · obtain ⟨t, ht⟩ := h.root?_self_iff.mp hr
        rw [if_pos hr, define_eq ht]
        exact h.define ht name value
      · have hnone : w.define r name value = none := Option.eq_none_iff_forall_ne_some.mpr
          fun w' hw' => hr (h.root?_self_iff.mpr (scope?_of_define hw'))
        rw [if_neg hr, hnone]
        exact h
  | extend c name value =>
      rw [Workbench.perform, Log.perform, ← h.size]
      by_cases hc : c < w.cells.length
      · have hs := scope?_eq hc
        rw [if_pos hc, extend_eq hs]
        exact h.frame hs name value
      · rw [if_neg hc, extend, scope?_of_not_lt hc]
        exact h
  | bind c p args =>
      rw [Workbench.perform, Log.perform, ← h.size]
      by_cases hcount : args.length = p.params.length
      · by_cases hc : c < w.cells.length
        · have hs := scope?_eq hc
          obtain ⟨d, w', hall, hrefines, -, -⟩ := h.extendAll hs (p.params.zip args)
          rw [if_pos ⟨hc, hcount⟩, Workbench.bind, if_pos hcount, hall]
          exact hrefines
        · rw [if_neg fun hboth => hc hboth.1, Workbench.bind, if_pos hcount]
          rcases extendAll_of_not_lt hc (p.params.zip args) with hall | hall <;>
            · rw [hall]
              exact h
      · rw [if_neg fun hboth => hcount hboth.2, Workbench.bind, if_neg hcount]
        exact h

end Refines

/-- At any time the log tells of the workbench. -/
theorem refines_after (ops : List Operation) : (after ops).Refines (Log.after ops) := by
  have hrun : ∀ {w : Workbench} {l : Log}, w.Refines l →
      Refines (ops.foldl perform w) (ops.foldl Log.perform l) := by
    induction ops with
    | nil => exact id
    | cons op ops ih => exact fun h => ih (h.perform op)
  exact hrun .empty

end MiniLisp.Workbench
