/-
# MiniLisp.Proofs.Value.Lookup — what names mean in chains of bindings.

A name is contained in a scope exactly if it means something there.  New bindings in front of a
scope hide what their names meant and leave all other names alone, and of several bindings of one
name the last one counts.
-/
import Mathlib.Data.List.Forall2
import MiniLisp.Scope

namespace MiniLisp

theorem Table.contains_eq (t : Table) (x : String) : t.contains x = (t.lookup? x).isSome := by
  unfold contains lookup?
  induction t.entries with
  | nil => rfl
  | cons e rest ih =>
      rw [List.any_cons, ih, get?]
      by_cases hx : e.1 = x <;> simp [hx]

theorem Tables.contains_eq (ts : Tables) (id : TableId) (x : String) :
    ts.contains id x = (ts.lookup? id x).isSome := by
  unfold contains lookup?
  cases ts[id]? with
  | none => rfl
  | some t => exact t.contains_eq x

namespace Scope

variable {ts : Tables} {s : Scope} {x : String} {v : Value}

/-! ## Frames and the table -/

/-- The frames come first, then the table. -/
theorem lookup?_eq (ts : Tables) (x : String) : (s : Scope) →
    s.lookup? ts x = match s.frames.find? (·.1 = x) with
      | some b => some b.2
      | none => ts.lookup? s.root x
  | top _ => rfl
  | frame name value outer => by
      by_cases hx : name = x
      · simp [frames, hx]
      · simp [frames, root, hx, lookup?_eq ts x outer]

/-- A name is contained exactly if it means something. -/
theorem contains_eq (ts : Tables) (x : String) : (s : Scope) →
    s.contains ts x = (s.lookup? ts x).isSome
  | top id => ts.contains_eq id x
  | frame name value outer => by
      have houter : outer.contains ts x = (outer.lookup? ts x).isSome := contains_eq ts x outer
      rw [contains] at houter
      rw [contains, frames, root, List.any_cons, Bool.or_assoc, houter, lookup?_frame]
      by_cases hx : name = x <;> simp [hx]

theorem contains_frame (ts : Tables) (x y : String) (v : Value) (s : Scope) :
    (frame x v s).contains ts y = true ↔ x = y ∨ s.contains ts y = true := by
  rw [contains_eq, contains_eq, lookup?_frame]
  by_cases hx : x = y <;> simp [hx]

/-! ## New bindings -/

/-- Bindings of other names do not matter. -/
theorem lookup?_extend_of_notMem (ts : Tables) {bs : List (String × Value)}
    (h : ∀ b ∈ bs, b.1 ≠ x) : (s.extend bs).lookup? ts x = s.lookup? ts x := by
  refine extend_induction (P := fun s' => s'.lookup? ts x = s.lookup? ts x) ?_ rfl
  intro b hb s' hs'
  rw [lookup?_frame, if_neg (h b hb)]
  exact hs'

/-- A name means its last binding. -/
theorem lookup?_extend_of_last {front back : List (String × Value)} (h : ∀ b ∈ back, b.1 ≠ x) :
    (s.extend (front ++ (x, v) :: back)).lookup? ts x = some v := by
  have hsplit : s.extend (front ++ (x, v) :: back) = (frame x v (s.extend front)).extend back :=
    List.foldl_append
  rw [hsplit, lookup?_extend_of_notMem ts h, lookup?_frame, if_pos rfl]

/-- Different names are bound each to its own value. -/
theorem lookups_extend (ts : Tables) {xs : List String} (hxs : xs.Nodup) {vs : List Value}
    (hcount : vs.length = xs.length) (s : Scope) :
    List.Forall₂ (fun x v => (s.extend (xs.zip vs)).lookup? ts x = some v) xs vs := by
  induction xs generalizing vs s with
  | nil =>
      obtain rfl := List.length_eq_zero_iff.mp hcount
      exact .nil
  | cons x xs ih =>
      obtain ⟨hx, hrest⟩ := List.nodup_cons.mp hxs
      cases vs with
      | nil => cases hcount
      | cons v vs =>
          refine .cons ?_ (ih hrest (Nat.succ.inj hcount) (frame x v s))
          -- the frames of the other names are in front of that of `x`
          have hother : ∀ b ∈ xs.zip vs, b.1 ≠ x :=
            fun b hb heq => hx (heq ▸ (List.of_mem_zip hb).1)
          have hextend : s.extend ((x :: xs).zip (v :: vs)) = (frame x v s).extend (xs.zip vs) :=
            rfl
          rw [hextend, lookup?_extend_of_notMem ts hother, lookup?_frame, if_pos rfl]

/-- New bindings add their names to those that are contained. -/
theorem contains_extend (ts : Tables) (x : String) (bs : List (String × Value)) (s : Scope) :
    (s.extend bs).contains ts x = true ↔ x ∈ bs.map Prod.fst ∨ s.contains ts x = true := by
  induction bs generalizing s with
  | nil => simp [extend]
  | cons b bs ih =>
      have hextend : s.extend (b :: bs) = (frame b.1 b.2 s).extend bs := rfl
      rw [hextend, ih, contains_frame, List.map_cons, List.mem_cons, eq_comm (a := x), or_left_comm,
        or_assoc]

end Scope

end MiniLisp
