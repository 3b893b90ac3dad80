/-
# MiniLisp.Proofs.Session.Numbers — all numbers have 64 bits.

Numbers come from two places: the literals of a text, which the lexer bounds from above, and the
results of arithmetic, which are checked.  Between them they cover whatever a session holds or
computes: sound values hold numbers in range only, and this carries over to the scopes, to the
arguments and to the results of every evaluation inside a request.
-/
import Mathlib.Algebra.Ring.Int.Defs
import MiniLisp.Proofs.Eval.Inner
import MiniLisp.Proofs.Session.Soundness

namespace MiniLisp

/-! ## The range -/

/-- A signed integer of 64 bits can hold the number. -/
def FitsInt64 (k : Int) : Prop := -2 ^ 63 ≤ k ∧ k ≤ 2 ^ 63 - 1

instance : DecidablePred FitsInt64 :=
  fun k => inferInstanceAs (Decidable (-2 ^ 63 ≤ k ∧ k ≤ 2 ^ 63 - 1))

theorem fitsInt64_iff {k : Int} : FitsInt64 k ↔ minInt ≤ k ∧ k ≤ maxInt := by
  have hmin : minInt = -2 ^ 63 := by decide
  have hmax : maxInt = 2 ^ 63 - 1 := by decide
  rw [FitsInt64, hmin, hmax]

/-! ## Literals -/

/-- The numbers that are written in a tree fit. -/
def Node.NumbersFit (n : Node) : Prop := ∀ k, Token.integer k ∈ n.tokens → FitsInt64 k

namespace Node

theorem numbersFit_of_mem_tokensAll {ns : List Node} (h : ∀ n ∈ ns, n.NumbersFit) {k : Int}
    (hk : Token.integer k ∈ tokensAll ns) : FitsInt64 k := by
  rw [tokensAll_eq_flatten, List.mem_flatten] at hk
  obtain ⟨row, hrow, hk⟩ := hk
  obtain ⟨n, hn, rfl⟩ := List.mem_map.mp hrow
  exact h n hn k hk

/-- A literal has no sign, and the lexer rejects one that is too large. -/
theorem Expression.numbersFit {n : Node} (h : n.Expression) : n.NumbersFit := by
  induction h with
  | literal hlit =>
      intro k hk
      obtain rfl := List.mem_singleton.mp hk
      have hmin : minInt ≤ 0 := by decide
      exact fitsInt64_iff.mpr ⟨Int.le_trans hmin hlit.1, hlit.2⟩
  | identifier =>
      intro k hk
      cases List.mem_singleton.mp hk
  | call _ ih =>
      intro k hk
      exact numbersFit_of_mem_tokensAll ih (by simpa [tokens] using hk)

theorem Statement.numbersFit {n : Node} (h : n.Statement) : n.NumbersFit := by
  cases h with
  | expression h _ => exact h.numbersFit
  | definition _ _ hbody =>
      intro k hk
      exact numbersFit_of_mem_tokensAll (fun m hm => (hbody m hm).numbersFit)
        (by simpa [tokens] using hk)

end Node

/-! ## Values and evaluations -/

/-- The numbers of a value fit: those that it reaches, and those that are written in the bodies of
the procedures that it reaches. -/
structure Value.NumbersFit (ts : Tables) (v : Value) : Prop where
  reached : ∀ k, v.Reaches ts (.int k) → FitsInt64 k
  written : ∀ p s, v.Reaches ts (.closure p s) → ∀ n ∈ p.body, n.NumbersFit

theorem Value.Sound.numbersFit {t : Table} {ts : Tables} (ht : t.Sound) {v : Value}
    (hv : v.Sound) : v.NumbersFit (t :: ts) where
  reached k h := by
    cases hv.of_reaches ht h with
    | int hmin hmax => exact fitsInt64_iff.mpr ⟨hmin, hmax⟩
  written p s h := by
    cases hv.of_reaches ht h with
    | closure hbody _ => exact fun n hn => (hbody n hn).numbersFit

namespace Evaluation

variable {t : Table} {ts : Tables} {e : Evaluation}

/-- The numbers that an evaluation in a session has to do with fit: those of the expression, of what
is bound in the scope and in the table, of the value, and of the arguments and the result of a
builtin. -/
structure NumbersFit (s : Session) (e : Evaluation) : Prop where
  written : e.node.NumbersFit
  bindings : ∀ b ∈ e.scope.frames ++ s.table.entries, b.2.NumbersFit s.tables
  value : ∀ v c, e.outcome s.tables = (.ok v, c) → v.NumbersFit s.tables
  arguments : ∀ b args c, e.Invokes s.tables b args c → ∀ v ∈ args, v.NumbersFit s.tables
  result : ∀ b args c, e.Invokes s.tables b args c →
    ∀ v c', Eval.runBuiltin b args c = (.ok v, c') → v.NumbersFit s.tables

theorem Sound.arguments (ht : t.Sound) (he : e.Sound) {b : Builtin} {args : List Value}
    {c : Console} (h : e.Invokes (t :: ts) b args c) : ∀ v ∈ args, v.Sound := by
  cases h with
  | call _ _ hargs => exact Eval.evalAll_sound ht he.operands_written he.scope hargs

theorem Sound.numbersFit {s : Session} (hs : s.table.Sound) (he : e.Sound) : e.NumbersFit s where
  written := he.written.numbersFit
  bindings b hb := by
    rcases List.mem_append.mp hb with hb | hb
    · exact (he.scope.of_mem_frames b hb).numbersFit hs
    · exact (hs b hb).numbersFit hs
  value v c hv := (he.value hs hv).numbersFit hs
  arguments b args c h v hv := (he.arguments hs h v hv).numbersFit hs
  result b args c h v c' hv := by
    rw [← h.outcome_eq] at hv
    exact (he.value hs hv).numbersFit hs

/-! ## Arithmetic -/

/-- Arithmetic is exact, or it fails. -/
theorem checkRange_apply (name : String) (k : Int) (c : Console) :
    (do return .int (← Eval.checkRange name k) : Action Value) c =
      if FitsInt64 k then (.ok (.int k), c) else (.error (.overflow name), c) := by
  rw [lift_bind_apply, Eval.checkRange]
  by_cases hk : FitsInt64 k
  · rw [if_pos hk, if_pos (fitsInt64_iff.mp hk)]
    rfl
  · rw [if_neg hk, if_neg fun h => hk (fitsInt64_iff.mpr h)]

variable {m n : Int} {c : Console}

theorem Invokes.add_eq (h : e.Invokes ts .add [.int m, .int n] c) :
    e.outcome ts = if FitsInt64 (m + n) then (.ok (.int (m + n)), c)
      else (.error (.overflow "+"), c) :=
  h.outcome_eq.trans (checkRange_apply "+" (m + n) c)

theorem Invokes.subtract_eq (h : e.Invokes ts .subtract [.int m, .int n] c) :
    e.outcome ts = if FitsInt64 (m - n) then (.ok (.int (m - n)), c)
      else (.error (.overflow "-"), c) :=
  h.outcome_eq.trans (checkRange_apply "-" (m - n) c)

end Evaluation

/-! ## Requests -/

namespace Request

variable {r : Request} {s s₁ : Session} {n : Node} {e : Evaluation}

/-- A request comes to the statement `n` in the session `s₁`: it is read, and the statements in
front of this one have succeeded. -/
def ComesTo (r : Request) (s : Session) (n : Node) (s₁ : Session) : Prop :=
  ∃ pre post v, Reader.parse r.limits.nesting r.source = .ok (pre ++ n :: post) ∧
    r.execute .unit pre (s.read (pre ++ n :: post)) = (.ok v, s₁)

theorem ComesTo.sound (hs : s.table.Sound) (h : r.ComesTo s n s₁) :
    n.Statement ∧ s₁.table.Sound := by
  obtain ⟨pre, post, v, hread, hpre⟩ := h
  have hns : ∀ m ∈ pre ++ n :: post, m.Statement := (Reader.parse_eq_ok_iff.mp hread).1
  have hexecute : Session.SoundStep (s.read (pre ++ n :: post)) (r.execute .unit pre) :=
    execute_sound hs .unit fun m hm => hns m (List.mem_append_left _ hm)
  exact ⟨hns n (by simp), (hexecute.ok hpre).2⟩

/-- The evaluations in a request, each with the session that its statement finds: those of
statements, and those that an evaluation starts. -/
inductive Evaluates (r : Request) (s : Session) : Session → Evaluation → Prop
  | statement {n : Node} {s₁ : Session} (h : r.ComesTo s n s₁)
      (hdefinition : ∀ name params body, n ≠ .definition name params body)
      (hcall : Session.definitionCall? s₁.table n = none) :
      Evaluates r s s₁ ⟨r.limits.depth, n, Session.scope, s₁.console⟩
  | inner {s₁ : Session} {e e' : Evaluation} (h : Evaluates r s s₁ e)
      (hinner : e.Inner s₁.tables e') : Evaluates r s s₁ e'

/-- All evaluations in a sound session are sound. -/
theorem Evaluates.sound (hs : s.table.Sound) (h : r.Evaluates s s₁ e) :
    s₁.table.Sound ∧ e.Sound := by
  induction h with
  | statement h hdefinition _ =>
      obtain ⟨hn, hs₁⟩ := h.sound hs
      refine ⟨hs₁, ?_, .top⟩
      cases hn with
      | expression h _ => exact h
      | definition => exact absurd rfl (hdefinition _ _ _)
  | inner _ hinner ih => exact ⟨ih.1, hinner.sound ih.1 ih.2⟩

end Request

/-- All numbers of a session are signed integers of 64 bits.  In a session that was given any texts,
each of which may have failed, and that is given one more, this holds of the literals that are read,
of all that is reached from the bindings, from the value of each statement and from the value of the
request, also when more requests have followed, and of whatever an evaluation inside the request has
to do with.  Where addition or subtraction is applied to two numbers, the result is exact if it
fits, and else there is an overflow. -/
theorem numbers_fit_int64 (console : Console) (rs : List Request) (r : Request) :
    let s := (Session.start console).after rs
    (∀ ns, Reader.parse r.limits.nesting r.source = .ok ns → ∀ n ∈ ns, n.NumbersFit) ∧
    (∀ b ∈ s.table.entries, b.2.NumbersFit s.tables) ∧
    (∀ n s₁ v s₂, r.ComesTo s n s₁ → Session.statement r.limits n s₁ = (.ok v, s₂) →
      v.NumbersFit s₂.tables) ∧
    (∀ v s', r.serve s = (.ok v, s') → ∀ qs, v.NumbersFit (s'.after qs).tables) ∧
    (∀ s₁ e, r.Evaluates s s₁ e → e.NumbersFit s₁) ∧
    ∀ ts e m n c,
      (Evaluation.Invokes ts e .add [.int m, .int n] c → e.outcome ts =
        if FitsInt64 (m + n) then (.ok (.int (m + n)), c) else (.error (.overflow "+"), c)) ∧
      (Evaluation.Invokes ts e .subtract [.int m, .int n] c → e.outcome ts =
        if FitsInt64 (m - n) then (.ok (.int (m - n)), c) else (.error (.overflow "-"), c)) := by
  intro s
  have hs : s.table.Sound := Session.after_sound console rs
  refine ⟨?_, ?_, ?_, ?_, ?_, fun _ _ _ _ _ => ⟨fun h => h.add_eq, fun h => h.subtract_eq⟩⟩
  · intro ns hread n hn
    exact ((Reader.parse_eq_ok_iff.mp hread).1 n hn).numbersFit
  · intro b hb
    exact (hs b hb).numbersFit hs
  · intro n s₁ v s₂ h hstatement
    obtain ⟨hn, hs₁⟩ := h.sound hs
    obtain ⟨hv, hs₂⟩ := (Session.statement_sound hs₁ hn).ok hstatement
    exact hv.numbersFit hs₂
  · intro v s' hserve qs
    obtain ⟨hv, hs'⟩ := (r.serve_sound hs).ok hserve
    exact hv.numbersFit (Session.after_keeps_sound hs' qs)
  · intro s₁ e h
    obtain ⟨hs₁, he⟩ := h.sound hs
    exact he.numbersFit hs₁

/-- One less than nothing. -/
def belowZero : Node := .call [.identifier "-", .literal (.integer 0), .literal (.integer 1)]

/-- One more than the largest number. -/
def pastTheEnd : Node := .call [.identifier "+", .literal (.integer maxInt), .literal (.integer 1)]

theorem numbers_fit_int64_pastTheEnd :
    let below : Evaluation := ⟨9, belowZero, Session.scope, {}⟩
    let past : Evaluation := ⟨9, pastTheEnd, Session.scope, {}⟩
    let s := ((Request.printed .eval [belowZero]).serve (Session.start {})).2
    let s₁ := (Session.start {}).read [belowZero, pastTheEnd]
    (∀ n ∈ [belowZero, pastTheEnd], n.NumbersFit) ∧
      (Value.int (-1)).NumbersFit [.initial] ∧
      (Value.int (-1)).NumbersFit (s.after [defineKeep]).tables ∧ past.NumbersFit s₁ ∧
      below.outcome [.initial] = (.ok (.int (-1)), {}) ∧
      past.outcome [.initial] = (.error (.overflow "+"), {}) := by
  intro below past s s₁
  let ns := [belowZero, pastTheEnd]
  let r := Request.printed .run ns
  have hread : Reader.parse r.limits.nesting r.source = .ok ns :=
    Request.printed_parse (by decide) (by decide)
  have hbelow : r.ComesTo (Session.start {}) belowZero s₁ := ⟨[], [pastTheEnd], .unit, hread, rfl⟩
  have hpast : r.ComesTo (Session.start {}) pastTheEnd s₁ := ⟨[belowZero], [], .unit, hread, rfl⟩
  have hserve : (Request.printed .eval [belowZero]).serve (Session.start {}) =
      (.ok (.int (-1)), s) := by
    refine Prod.ext ?_ rfl
    rw [Request.printed_serve (by decide) (by decide)]
    rfl
  obtain ⟨hliterals, -, hstatement, -, hevaluates, harithmetic⟩ := numbers_fit_int64 {} [] r
  obtain ⟨-, -, -, hvalue, -, -⟩ := numbers_fit_int64 {} [] (.printed .eval [belowZero])
  refine ⟨hliterals ns hread, hstatement belowZero s₁ _ s₁ hbelow rfl,
    hvalue (.int (-1)) s hserve [defineKeep], ?_, ?_, ?_⟩
  · exact hevaluates s₁ past (.statement hpast nofun rfl)
  · -- the difference is in range, though no literal stands for it
    obtain ⟨-, hsubtract⟩ := harithmetic [.initial] below 0 1 {}
    exact hsubtract (.call rfl rfl rfl)
  · obtain ⟨hadd, -⟩ := harithmetic [.initial] past maxInt 1 {}
    exact hadd (.call rfl rfl rfl)

end MiniLisp
