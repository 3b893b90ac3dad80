/-
# MiniLisp.Proofs.Eval.Avoidance — a name that is written nowhere.

A binding matters to those who write its name.  Let two tables agree except for one name, and let
this name stand neither in an expression nor in the body of any procedure that can be reached
without it.  Then evaluation never asks for it: the two runs make the same values, which avoid the
name again, and meet the same errors.  The tables stand first among the tables that are read, and
the procedures in question end in them.
-/
import MiniLisp.Proofs.Eval.Soundness
import MiniLisp.Proofs.Value.Alike

namespace MiniLisp

/-! ## Values that avoid a name -/

mutual

/-- A value whose procedures do not have the name `g` in their bodies. -/
inductive Value.Avoids (g : String) : Value → Prop
  | int (n : Int) : Value.Avoids g (.int n)
  | bool (b : Bool) : Value.Avoids g (.bool b)
  | str (text : String) : Value.Avoids g (.str text)
  | list {vs : List Value} (h : ∀ v ∈ vs, Value.Avoids g v) : Value.Avoids g (.list vs)
  | unit : Value.Avoids g .unit
  | builtin (b : Builtin) : Value.Avoids g (.builtin b)
  | form (f : SpecialForm) : Value.Avoids g (.form f)
  | definer : Value.Avoids g .definer
  | closure {p : Procedure} {s : Scope} (body : g ∉ Node.identifiersAll p.body)
      (captured : Scope.Avoids g s) : Value.Avoids g (.closure p s)

/-- A scope above the first table whose frames hold such values. -/
inductive Scope.Avoids (g : String) : Scope → Prop
  | top : Scope.Avoids g (.top 0)
  | frame {x : String} {v : Value} {s : Scope} (hv : Value.Avoids g v) (hs : Scope.Avoids g s) :
      Scope.Avoids g (.frame x v s)

end

/-- Parameters bound to values that avoid a name. -/
theorem Scope.Avoids.extend {g : String} {s : Scope} (hs : s.Avoids g)
    {bs : List (String × Value)} (hbs : ∀ b ∈ bs, b.2.Avoids g) : (s.extend bs).Avoids g :=
  extend_induction (fun b hb _ hs => .frame (hbs b hb) hs) hs

/-! ## Tables that agree but for a name -/

/-- Two tables that bind all names but `g` to the same values, which avoid `g`. -/
def Table.AgreeOff (g : String) (t u : Table) : Prop :=
  ∀ x, x ≠ g → t.lookup? x = u.lookup? x ∧ ∀ v, t.lookup? x = some v → v.Avoids g

namespace Table.AgreeOff

variable {g name : String} {t u : Table} {v : Value}

/-- The same definition in both tables. -/
theorem define (h : t.AgreeOff g u) (name : String) (hv : v.Avoids g) :
    (t.define name v).AgreeOff g (u.define name v) := by
  intro x hx
  rw [lookup?_define, lookup?_define]
  split
  · refine ⟨rfl, ?_⟩
    rintro w ⟨⟩
    exact hv
  · exact h x hx

/-- A definition of the name itself. -/
theorem define_left (h : t.AgreeOff g u) (v : Value) : (t.define g v).AgreeOff g u := by
  intro x hx
  rw [lookup?_define, if_neg hx]
  exact h x hx

end Table.AgreeOff

theorem Table.agreeOff_initial (g : String) : initial.AgreeOff g initial := by
  refine fun x _ => ⟨rfl, fun v hv => ?_⟩
  rcases native_of_mem_defaults (mem_of_get? hv) with ⟨c, rfl⟩ | ⟨f, rfl⟩ | rfl
  · exact .builtin c
  · exact .form f
  · exact .definer

/-- Another name means the same in a scope above either table. -/
theorem Scope.Avoids.lookup? {g x : String} {t u : Table} {ts : Tables} (h : t.AgreeOff g u)
    (hx : x ≠ g) : {s : Scope} → s.Avoids g → s.lookup? (t :: ts) x = s.lookup? (u :: ts) x ∧
      ∀ v, s.lookup? (t :: ts) x = some v → v.Avoids g
  | .top 0, .top => h x hx
  | .frame y w outer, .frame hw hs => by
      rw [lookup?_frame, lookup?_frame]
      split
      · refine ⟨rfl, ?_⟩
        rintro v ⟨⟩
        exact hw
      · exact hs.lookup? h hx

/-! ## Evaluation -/

namespace Eval

variable {g : String} {t u : Table} {ts : Tables}

theorem literal_avoids (g : String) (tok : Token) :
    Agree (fun v w => v = w ∧ v.Avoids g) (· = ·) (Eval.literal tok) (Eval.literal tok) := by
  cases tok with
  | integer n => exact .ok ⟨rfl, .int n⟩
  | string text => exact .ok ⟨rfl, .str text⟩
  | _ => exact .error rfl

theorem find_avoids (h : t.AgreeOff g u) {s : Scope} (hs : s.Avoids g) {x : String} (hx : x ≠ g) :
    Agree (fun v w => v = w ∧ v.Avoids g) (· = ·) (find (t :: ts) s x) (find (u :: ts) s x) := by
  obtain ⟨hsame, havoids⟩ := hs.lookup? h hx
  unfold find
  rw [← hsame]
  cases hlookup : s.lookup? (t :: ts) x with
  | some v => exact .ok ⟨rfl, havoids v hlookup⟩
  | none => exact .error rfl

/-- Evaluations of an expression that avoids a name, above tables that agree but for this name. -/
def avoidance (h : t.AgreeOff g u) : Simulation (t :: ts) (u :: ts) where
  Val v w := v = w ∧ v.Avoids g
  Err e f := e = f
  At n s m s' := (n = m ∧ s = s') ∧ g ∉ n.identifiers ∧ s.Avoids g
  val_congr := by
    rintro v _ ⟨rfl, hv⟩
    cases hv with
    | list h => exact .list (forall₂_of_forall_mem h)
    | _ => constructor
  int _ _ := ⟨rfl, .int _⟩
  bool b := ⟨rfl, .bool b⟩
  str text := ⟨rfl, .str text⟩
  unit := ⟨rfl, .unit⟩
  list h := by
    obtain ⟨rfl, hall⟩ := forall_mem_of_forall₂ h
    exact ⟨rfl, .list hall⟩
  at_congr := by
    rintro n _ s _ ⟨⟨rfl, rfl⟩, hn, hs⟩
    cases n with
    | call ns =>
        refine .call (List.forall₂_same.mpr fun m hm => ⟨⟨rfl, rfl⟩, fun hg => hn ?_, hs⟩)
        exact Node.mem_identifiersAll hm hg
    | _ => constructor
  atom := by
    rintro n _ s _ ⟨⟨rfl, rfl⟩, hn, hs⟩ hcall depth
    cases n with
    | literal tok => exact .lift (literal_avoids g tok)
    | identifier x =>
        have hx : x ≠ g := by
          rintro rfl
          exact hn List.mem_cons_self
        exact .lift (find_avoids h hs hx)
    | call ns =>
        cases ns with
        | nil => exact .pure ⟨rfl, .list (by simp)⟩
        | cons head operands => exact absurd rfl (hcall head operands)
    | _ => exact .throw rfl
  binding := by
    rintro x y n _ s _ v _ ⟨⟨hx, rfl⟩, -, -⟩ ⟨⟨rfl, -⟩, hn, hs⟩ ⟨rfl, hv⟩
    cases hx
    exact ⟨⟨rfl, rfl⟩, hn, .frame hv hs⟩
  procedure := by
    rintro xs ys n _ s _ ⟨⟨hxs, rfl⟩, -, -⟩ ⟨⟨rfl, -⟩, hn, hs⟩
    obtain rfl : xs = ys := Node.map_identifier_inj (Node.call.inj hxs)
    exact ⟨rfl, .closure (by simpa [Node.identifiersAll] using hn) hs⟩
  params_length := by
    rintro p _ s _ ⟨h, -⟩
    cases h
    rfl
  body := by
    rintro p _ s _ vs ws ⟨h, havoids⟩ hargs -
    cases h
    cases havoids with
    | closure hbody hs =>
        obtain ⟨rfl, hvs⟩ := forall_mem_of_forall₂ hargs
        have hextend := hs.extend fun b (hb : b ∈ p.params.zip vs) =>
          hvs b.2 (List.of_mem_zip hb).2
        refine List.forall₂_same.mpr fun n hn => ⟨⟨rfl, rfl⟩, fun hg => hbody ?_, hextend⟩
        exact Node.mem_identifiersAll hn hg
  err := by
    intro e f h
    refine h.eq And.left ?_ ?_
    · rintro n m ⟨s, u, ⟨hnm, -⟩, -⟩
      exact hnm
    · rintro p q ⟨s, u, hpq, -⟩
      cases hpq
      rfl

/-- An expression that avoids a name has one effect and one result above either table. -/
theorem eval_agreeOff (h : t.AgreeOff g u) {n : Node} {s : Scope} (hn : g ∉ n.identifiers)
    (hs : s.Avoids g) (depth : Nat) : eval (t :: ts) depth n s = eval (u :: ts) depth n s := by
  funext c
  obtain ⟨hc, hresults⟩ := (avoidance h).eval_agree ⟨⟨rfl, rfl⟩, hn, hs⟩ depth c
  refine Prod.ext ?_ hc
  generalize (eval (t :: ts) depth n s c).1 = x, (eval (u :: ts) depth n s c).1 = y
    at hresults ⊢
  cases hresults with
  | ok hv => exact congrArg _ hv.1
  | error he => exact congrArg _ he

end Eval

end MiniLisp
