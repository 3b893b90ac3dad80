/-
# MiniLisp.Proofs.Value.Sound — the values that programs make.

A value is a graph: lists hold values, procedures hold the scope they were made in, and a scope ends
at a table that holds values again.  `Value.Reaches` walks this graph.  A value is sound if what can
be seen of it without looking into the table is as programs make it: numbers are in range, bodies
consist of expressions, and scopes end at the first table.  Where the entries of the table are
sound, all that is reached from a sound value is sound.
-/
import MiniLisp.Proofs.Node.Grammar
import MiniLisp.Scope

namespace MiniLisp

/-! ## What is reached from a value -/

/-- A value that another one holds: itself, in a list, in a scope that a procedure was made in, or
in the table at the end of that scope. -/
inductive Value.Reaches (ts : Tables) : Value → Value → Prop
  | refl (v : Value) : Reaches ts v v
  | item {v w : Value} {vs : List Value} (hv : v ∈ vs) (h : Reaches ts v w) :
      Reaches ts (.list vs) w
  | frame {x : String} {v w : Value} {p : Procedure} {s : Scope} (hv : (x, v) ∈ s.frames)
      (h : Reaches ts v w) : Reaches ts (.closure p s) w
  | table {x : String} {v w : Value} {p : Procedure} {s : Scope} {t : Table}
      (ht : ts[s.root]? = some t) (hv : (x, v) ∈ t.entries) (h : Reaches ts v w) :
      Reaches ts (.closure p s) w

/-! ## Sound values -/

mutual

/-- A value as programs make it. -/
inductive Value.Sound : Value → Prop
  | int {n : Int} (hmin : minInt ≤ n) (hmax : n ≤ maxInt) : Value.Sound (.int n)
  | bool (b : Bool) : Value.Sound (.bool b)
  | str (text : String) : Value.Sound (.str text)
  | list {vs : List Value} (h : ∀ v ∈ vs, Value.Sound v) : Value.Sound (.list vs)
  | unit : Value.Sound .unit
  | builtin (b : Builtin) : Value.Sound (.builtin b)
  | form (f : SpecialForm) : Value.Sound (.form f)
  | definer : Value.Sound .definer
  | closure {p : Procedure} {s : Scope} (body : ∀ n ∈ p.body, n.Expression)
      (captured : Scope.Sound s) : Value.Sound (.closure p s)

/-- A scope as programs make it. -/
inductive Scope.Sound : Scope → Prop
  | top : Scope.Sound (.top 0)
  | frame {x : String} {v : Value} {s : Scope} (hv : Value.Sound v) (hs : Scope.Sound s) :
      Scope.Sound (.frame x v s)

end

/-- A table of sound values. -/
def Table.Sound (t : Table) : Prop := ∀ b ∈ t.entries, b.2.Sound

/-! ### Tables -/

namespace Table

theorem mem_of_get? {x : String} {v : Value} {entries : List (String × Value)}
    (h : get? x entries = some v) : (x, v) ∈ entries := by
  induction entries with
  | nil => cases h
  | cons b rest ih =>
      obtain ⟨y, w⟩ := b
      rw [get?] at h
      split at h
      · next hy =>
          obtain rfl : w = v := by simpa using h
          rw [hy]
          exact List.mem_cons_self
      · exact List.mem_cons_of_mem _ (ih h)

theorem mem_set {name : String} {value : Value} {entries : List (String × Value)}
    {b : String × Value} (h : b ∈ set name value entries) : b = (name, value) ∨ b ∈ entries := by
  induction entries with
  | nil => simpa [set] using h
  | cons e rest ih =>
      obtain ⟨x, v⟩ := e
      rw [set] at h
      split at h
      · rcases List.mem_cons.mp h with rfl | h
        · exact .inl rfl
        · exact .inr (List.mem_cons_of_mem _ h)
      · rcases List.mem_cons.mp h with rfl | h
        · exact .inr List.mem_cons_self
        · exact (ih h).imp_right (List.mem_cons_of_mem _)

theorem Sound.lookup? {t : Table} (ht : t.Sound) {x : String} {v : Value}
    (h : t.lookup? x = some v) : v.Sound :=
  ht _ (mem_of_get? h)

/-- Defining a sound value keeps a table sound. -/
theorem Sound.define {t : Table} (ht : t.Sound) {name : String} {value : Value}
    (hvalue : value.Sound) : (t.define name value).Sound := by
  intro b hb
  rcases mem_set hb with rfl | hb
  · exact hvalue
  · exact ht b hb

/-- Names are bound to nothing but predefined callables from the start. -/
theorem native_of_mem_defaults {b : String × Value} (h : b ∈ defaults) :
    (∃ c, b.2 = .builtin c) ∨ (∃ f, b.2 = .form f) ∨ b.2 = .definer := by
  unfold defaults at h
  rcases List.mem_append.mp h with h | h
  · rcases List.mem_append.mp h with h | h
    · obtain ⟨c, -, rfl⟩ := List.mem_map.mp h
      exact .inl ⟨c, rfl⟩
    · obtain ⟨f, -, rfl⟩ := List.mem_map.mp h
      exact .inr (.inl ⟨f, rfl⟩)
  · obtain rfl := List.mem_singleton.mp h
    exact .inr (.inr rfl)

theorem initial_sound : initial.Sound := by
  intro b hb
  rcases native_of_mem_defaults hb with ⟨c, hc⟩ | ⟨f, hf⟩ | hdefiner
  · rw [hc]
    exact .builtin c
  · rw [hf]
    exact .form f
  · rw [hdefiner]
    exact .definer

end Table

/-! ### Scopes -/

namespace Scope

theorem Sound.root_eq : {s : Scope} → s.Sound → s.root = 0
  | .top _, .top => rfl
  | .frame _ _ _, .frame _ hs => hs.root_eq

theorem Sound.of_mem_frames : {s : Scope} → s.Sound → ∀ b ∈ s.frames, b.2.Sound
  | .top _, _, _, hb => absurd hb List.not_mem_nil
  | .frame _ _ _, .frame hv hs, b, hb => by
      rcases List.mem_cons.mp hb with rfl | hb
      · exact hv
      · exact hs.of_mem_frames b hb

/-- What a name means in a sound scope is sound. -/
theorem Sound.lookup? {t : Table} {ts : Tables} (ht : t.Sound) {x : String} {v : Value} :
    {s : Scope} → s.Sound → s.lookup? (t :: ts) x = some v → v.Sound
  | .top _, .top, h => ht.lookup? h
  | .frame y _ _, .frame hv hs, h => by
      rw [Scope.lookup?] at h
      split at h
      · cases h
        exact hv
      · exact hs.lookup? ht h

theorem Sound.extend {s : Scope} (hs : s.Sound) {bs : List (String × Value)}
    (hbs : ∀ b ∈ bs, b.2.Sound) : (s.extend bs).Sound :=
  extend_induction (fun b hb _ hs => .frame (hbs b hb) hs) hs

end Scope

/-! ### Reached values -/

/-- Above a sound table all that a sound value reaches is sound. -/
theorem Value.Sound.of_reaches {t : Table} {ts : Tables} (ht : t.Sound) {v w : Value}
    (hv : v.Sound) (h : v.Reaches (t :: ts) w) : w.Sound := by
  induction h with
  | refl v => exact hv
  | item hmem _ ih => cases hv with | list hall => exact ih (hall _ hmem)
  | frame hmem _ ih =>
      cases hv with | closure _ captured => exact ih (captured.of_mem_frames _ hmem)
  | table htable hmem _ ih =>
      cases hv with
      | closure _ captured =>
          -- sound scopes end at the first table
          rw [captured.root_eq] at htable
          cases htable
          exact ih (ht _ hmem)

end MiniLisp
