/-
# MiniLisp.Proofs.Session.Depth — more room never changes a run that ends by itself.

The bound on the evaluations that may be active at once decides one thing only: where a run gives
out.  Up to there it is the run that has more room.  So with a higher bound a run that ends for any
other reason ends in the same way, and one that gives out goes on: what it has written and taken is
the beginning of what the longer run writes and takes.
-/
import MiniLisp.Proofs.Session.Locality

namespace MiniLisp

/-! ## Runs that give out -/

section

variable {ε σ α β : Type}

/-- From every state `y` does the same as `x`, or it goes on where `x` fails with `gone`.  The order
`later` says which states may follow a state. -/
def GoesOn (later : σ → σ → Prop) (gone : ε) (x y : ExceptT ε (StateM σ) α) : Prop :=
  ∀ s, later s (y s).2 ∧ (x s = y s ∨ (x s).1 = .error gone ∧ later (x s).2 (y s).2)

variable {later : σ → σ → Prop} {gone : ε} {x y : ExceptT ε (StateM σ) α}

theorem GoesOn.refl (h : ∀ s, later s (x s).2) : GoesOn later gone x x :=
  fun s => ⟨h s, .inl rfl⟩

/-- Where the first part gives out, so does the whole, and the other side goes on with both parts. -/
theorem GoesOn.bind {f g : α → ExceptT ε (StateM σ) β}
    (h : GoesOn later gone x y) (htrans : ∀ a b c, later a b → later b c → later a c)
    (hf : ∀ a, GoesOn later gone (f a) (g a)) : GoesOn later gone (x >>= f) (y >>= g) := by
  intro s
  obtain ⟨hlater, hx⟩ := h s
  -- the second part only moves on from where the first part of the longer run ends
  have hrest : later (y s).2 ((y >>= g) s).2 ∨ (y >>= g) s = (((y >>= g) s).1, (y s).2) := by
    rw [bind_apply]
    rcases y s with ⟨e | a, s'⟩
    · exact .inr rfl
    · exact .inl (hf a s').1
  have hwhole : ∀ {t}, later t (y s).2 → later t ((y >>= g) s).2 := by
    intro t ht
    rcases hrest with hrest | hrest
    · exact htrans _ _ _ ht hrest
    · rw [hrest]
      exact ht
  refine ⟨hwhole hlater, ?_⟩
  rcases hx with hsame | ⟨hgone, hshort⟩
  · rw [bind_apply, bind_apply, hsame]
    rcases y s with ⟨e | a, s'⟩
    · exact .inl rfl
    · exact (hf a s').2
  · have hcut : x s = (.error gone, (x s).2) := Prod.ext hgone rfl
    rw [bind_apply, hcut]
    exact .inr ⟨rfl, hwhole hshort⟩

end

/-! ## Evaluations -/

/-- Actions that go on where others give out. -/
def Action.outlasting : Action.Relation where
  Holds x y := GoesOn Console.Before EvalError.tooDeep x y
  pure _ := .refl Console.Before.refl
  throw _ := .refl Console.Before.refl
  bind h hf := GoesOn.bind h (fun _ _ _ => .trans) hf
  writeLine text := .refl (Conversation.Local.before (Action.writeLine_local text))
  readLine := .refl (Conversation.Local.before Action.readLine_local)

/-- With more room an evaluation does the same, or it goes on where it gave out. -/
theorem Eval.eval_goesOn (ts : Tables) (n : Node) (s : Scope) {d d' : Nat} (h : d ≤ d') :
    GoesOn Console.Before .tooDeep (eval ts d n s) (eval ts d' n s) := by
  obtain ⟨more, rfl⟩ := Nat.exists_eq_add_of_le h
  refine Action.outlasting.eval_holds more (fun n s => ?_) d n s
  intro c
  -- without any room an evaluation gives out before it has done anything
  have hbefore : c.Before (eval ts more n s c).2 := (eval_local ts more n s).before c
  exact ⟨hbefore, .inr ⟨rfl, hbefore⟩⟩

/-! ## Steps -/

namespace Step

variable {α : Type}

/-- Steps that go on where others give out. -/
abbrev Outlasts (x y : Step α) : Prop :=
  GoesOn (fun s s' : Session => s.console.Before s'.console) (Failure.evaluation .tooDeep) x y

theorem outlasts_of_local {x : Step α} (h : x.Local) : Outlasts x x := .refl h.before

end Step

namespace Session

variable {nesting d d' : Nat}

theorem evaluate_outlasts (n : Node) (h : d ≤ d') :
    Step.Outlasts (evaluate ⟨nesting, d⟩ n) (evaluate ⟨nesting, d'⟩ n) := by
  intro s
  have happly : ∀ limits, evaluate limits n s =
      perform (eval s.tables limits.depth n scope) s := fun _ => rfl
  rw [happly, happly]
  obtain ⟨hlater, heval⟩ := Eval.eval_goesOn s.tables n scope h s.console
  unfold perform
  rcases hy : eval s.tables d' n scope s.console with ⟨r', c'⟩
  rw [hy] at hlater heval
  rcases heval with hsame | ⟨hgone, hshort⟩
  · rw [hsame]
    cases r' <;> exact ⟨hlater, .inl rfl⟩
  · rcases hx : eval s.tables d n scope s.console with ⟨r, c⟩
    rw [hx] at hgone hshort
    obtain rfl : r = .error .tooDeep := hgone
    cases r' <;> exact ⟨hlater, .inr ⟨rfl, hshort⟩⟩

/-- A statement that is no program goes on where it gave out. -/
theorem statement_outlasts (h : d ≤ d') {n : Node} (hn : ∀ ns, n ≠ .program ns) :
    Step.Outlasts (statement ⟨nesting, d⟩ n) (statement ⟨nesting, d'⟩ n) := by
  intro s
  by_cases hdefinition : ∃ name params body, n = .definition name params body
  · obtain ⟨name, params, body, rfl⟩ := hdefinition
    -- definitions take no room
    have hsame : statement ⟨nesting, d⟩ (.definition name params body) =
        statement ⟨nesting, d'⟩ (.definition name params body) := by
      rw [statement, statement]
    rw [hsame]
    exact Step.outlasts_of_local (statement_local _ hn) s
  · have hother : ∀ name params body, n ≠ .definition name params body :=
      fun name params body heq => hdefinition ⟨name, params, body, heq⟩
    rw [statement_apply _ s hn hother, statement_apply _ s hn hother]
    cases definitionCall? s.table n with
    | none => exact evaluate_outlasts n h s
    | some operands => exact Step.outlasts_of_local (install_local operands) s

/-- Steps that go on where others give out, beside each other. -/
def outlasting (nesting : Nat) (h : d ≤ d') : Step.Relation ⟨nesting, d⟩ ⟨nesting, d'⟩ where
  Holds x y := Step.Outlasts x y
  pure _ := .refl fun s => .refl s.console
  bind h hf := GoesOn.bind h (fun _ _ _ => .trans) hf
  record _ := .refl fun s => .refl s.console
  single _ hn := statement_outlasts h hn

/-! ## Runs -/

/-- What a run from `s` with the outcome `r` becomes where there is more room: `r'`. -/
structure Outlasted (s : Session) (r r' : Except Failure Value × Session) : Prop where
  /-- A run that is not cut short ends in the very same way. -/
  finished : r.1 ≠ .error .depthExceeded → r' = r
  /-- A run that is cut short has taken and written what comes first. -/
  cutShort : r.1 = .error .depthExceeded → ∃ taken more written,
    s.console.input = taken ++ r.2.console.input ∧
      r.2.console.input = more ++ r'.2.console.input ∧
      r'.2.console.output = r.2.console.output ++ written

theorem Outlasted.of_before {s : Session} {r r' : Except Failure Value × Session}
    (hfinished : r.1 ≠ .error .depthExceeded → r' = r)
    (h : s.console.Before r.2.console) (h' : r.2.console.Before r'.2.console) :
    s.Outlasted r r' := by
  obtain ⟨taken, htaken⟩ := h.taken
  obtain ⟨more, hmore⟩ := h'.taken
  obtain ⟨written, hwritten⟩ := h'.written
  exact ⟨hfinished, fun _ => ⟨taken, more, written, htaken.symm, hmore.symm, hwritten⟩⟩

theorem boundDepth_outlasted {x y : Step Value} (hx : x.Local) (h : Step.Outlasts x y)
    (s : Session) : s.Outlasted (boundDepth x s) (boundDepth y s) := by
  have hsession : ∀ z : Step Value, (boundDepth z s).2 = (z s).2 := by
    intro z
    unfold boundDepth
    rcases z s with ⟨_ | _, _⟩ <;> rfl
  obtain ⟨-, hsame | ⟨hgone, hshort⟩⟩ := h s
  · have heq : boundDepth y s = boundDepth x s := by
      unfold boundDepth
      rw [hsame]
    refine .of_before (fun _ => heq) ?_ ?_
    · rw [hsession]
      exact hx.before s
    · rw [heq]
      exact .refl _
  · have hcut : x s = (.error (.evaluation .tooDeep), (x s).2) := Prod.ext hgone rfl
    have hexceeded : boundDepth x s = (.error .depthExceeded, (x s).2) :=
      boundDepth_eq_error_iff.mpr ⟨_, hcut, rfl⟩
    refine .of_before (absurd (congrArg Prod.fst hexceeded)) ?_ ?_
    · rw [hsession]
      exact hx.before s
    · rw [hsession, hsession]
      exact hshort

end Session

open Session (Outlasted boundDepth)

/-- More room for evaluations never changes a run that ends by itself, and a run that is cut short is
the beginning of the one with more room.  This holds of the statements of any program, for either
purpose and from every session, and of the texts that are read as programs. -/
theorem deeper_runs_go_on {d d' : Nat} (h : d ≤ d') (purpose : Request.Purpose) (nesting : Nat)
    (source : String) (s : Session) :
    (∀ v ns, s.Outlasted (boundDepth (Request.execute ⟨purpose, ⟨nesting, d⟩, source⟩ v ns) s)
      (boundDepth (Request.execute ⟨purpose, ⟨nesting, d'⟩, source⟩ v ns) s)) ∧
    s.Outlasted (Request.serve ⟨purpose, ⟨nesting, d⟩, source⟩ s)
      (Request.serve ⟨purpose, ⟨nesting, d'⟩, source⟩ s) := by
  have hexecute : ∀ v ns (s : Session),
      s.Outlasted (boundDepth (Request.execute ⟨purpose, ⟨nesting, d⟩, source⟩ v ns) s)
        (boundDepth (Request.execute ⟨purpose, ⟨nesting, d'⟩, source⟩ v ns) s) := by
    intro v ns s
    have hlocal : Step.Local (Request.execute ⟨purpose, ⟨nesting, d⟩, source⟩ v ns) :=
      ((Session.locality ⟨nesting, d⟩).execute_holds purpose source v ns).2
    have houtlasts : Step.Outlasts (Request.execute ⟨purpose, ⟨nesting, d⟩, source⟩ v ns)
        (Request.execute ⟨purpose, ⟨nesting, d'⟩, source⟩ v ns) :=
      (Session.outlasting nesting h).execute_holds purpose source v ns
    exact Session.boundDepth_outlasted hlocal houtlasts s
  refine ⟨fun v ns => hexecute v ns s, ?_⟩
  rw [Request.serve_apply, Request.serve_apply]
  cases Reader.parse nesting source with
  | error e => exact .of_before (fun _ => rfl) (.refl _) (.refl _)
  | ok ns =>
      obtain ⟨hfinished, hcutShort⟩ := hexecute .unit ns (s.read ns)
      exact ⟨hfinished, hcutShort⟩

/-- A program that writes a line and then needs room for three evaluations at once:
`(write "a") (+ 1 (+ 1 1))`. -/
def steepSum : List Node :=
  let one := Node.literal (.integer 1)
  [.call [.identifier "write", .literal (.string "a")],
    .call [.identifier "+", one, .call [.identifier "+", one, one]]]

/-- The sum with room for `d` evaluations, in a new session. -/
def runSteepSum (d : Nat) : Except Failure Value × Session :=
  boundDepth (Request.execute ⟨.run, ⟨9, d⟩, ""⟩ .unit steepSum) {}

theorem deeper_runs_go_on_steepSum :
    (runSteepSum 2).1 = .error .depthExceeded ∧
      (∃ written, (runSteepSum 3).2.console.output = "a\n" ++ written) ∧
      runSteepSum 4 = runSteepSum 3 := by
  have hexceeded : (runSteepSum 2).1 = .error .depthExceeded := rfl
  have hends : (runSteepSum 3).1 = .ok .unit := rfl
  obtain ⟨hfrom2, -⟩ := deeper_runs_go_on (by decide : 2 ≤ 3) .run 9 "" {}
  obtain ⟨hfrom3, -⟩ := deeper_runs_go_on (by decide : 3 ≤ 4) .run 9 "" {}
  obtain ⟨-, -, written, -, -, hwritten⟩ := (hfrom2 .unit steepSum).cutShort hexceeded
  refine ⟨hexceeded, ⟨written, hwritten⟩, (hfrom3 .unit steepSum).finished ?_⟩
  intro herror
  cases hends.symm.trans herror

end MiniLisp
