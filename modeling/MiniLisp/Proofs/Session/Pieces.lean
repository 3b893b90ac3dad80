/-
# MiniLisp.Proofs.Session.Pieces — a text in pieces and the text as a whole.

A text that is cut at some blanks between two statements means the same in one piece and in two.
Three layers have to agree on the cut: blanks end every word, so the tokens are those of the two
pieces in a row; a statement ends at the same token whatever comes behind it; and all that
statements hand on to one another is the session.
-/
import MiniLisp.Proofs.Session.Atomicity
import MiniLisp.Proofs.Session.Beside

namespace MiniLisp

/-! ## Reading -/

/-- Two texts with blanks between them are read as the statements of the one and then those of the
other. -/
theorem Reader.parse_append {limit : Nat} {a gap b : String} {ns ms : List Node}
    (ha : parse limit a = .ok ns) (hgap : IsGap gap) (hb : parse limit b = .ok ms) :
    parse limit (a ++ gap ++ b) = .ok (ns ++ ms) := by
  obtain ⟨hns, hlexed, hroom⟩ := parse_eq_ok_iff.mp ha
  obtain ⟨hms, hlexed', hroom'⟩ := parse_eq_ok_iff.mp hb
  have hpiece : Piece a (Node.tokensAll ns) := (lexed_eq_iff_spells.mp hlexed).piece
  have hpiece' : Piece b (Node.tokensAll ms) := (lexed_eq_iff_spells.mp hlexed').piece
  have hspells := (hpiece.append hgap hpiece').spells
  rw [← Node.tokensAll_append] at hspells
  refine parse_eq_ok_iff.mpr ⟨?_, hspells.lexed_eq, ?_⟩
  · intro n hn
    exact (List.mem_append.mp hn).elim (hns n) (hms n)
  · rw [Node.nestingAll_append]
    exact max_le hroom hroom'

/-! ## Execution -/

/-- The bound on the nesting holds for two parts as it holds for each. -/
theorem Session.boundDepth_bind {α β : Type} (x : Step α) (f : α → Step β) :
    boundDepth (x >>= f) = boundDepth x >>= fun a => boundDepth (f a) := by
  funext s
  rw [bind_apply]
  unfold boundDepth
  rw [bind_apply]
  rcases x s with ⟨_ | a, s'⟩ <;> rfl

namespace Request

/-- A request for two texts with blanks between them ends as a request for the first and then, if
that succeeds, one for the second. -/
theorem serve_pieces (purpose : Purpose) (limits : Limits) {a gap b : String} {ns ms : List Node}
    (ha : Reader.parse limits.nesting a = .ok ns) (hgap : IsGap gap)
    (hb : Reader.parse limits.nesting b = .ok ms) (s : Session) :
    Step.EndAlike (· = ·) (fun v w => purpose = .run ∨ ms ≠ [] → v = w)
      (serve ⟨purpose, limits, a ++ gap ++ b⟩ s)
      ((do
        let _ ← serve ⟨purpose, limits, a⟩
        serve ⟨purpose, limits, b⟩) s) := by
  let r : Request := ⟨purpose, limits, a ++ gap ++ b⟩
  have hwhole : r.serve s = (do
      let v ← Session.boundDepth (r.execute .unit ns)
      Session.boundDepth (r.execute v ms)) (s.read (ns ++ ms)) := by
    rw [serve_of_parse (r := r) (Reader.parse_append ha hgap hb), execute_append,
      Session.boundDepth_bind]
  rw [hwhole]
  -- the two runs differ in when they record what was read, and in the value they go on with
  refine .bind (V := (· = ·)) ?_ ?_
  · rw [serve_of_parse (r := ⟨purpose, limits, a⟩) ha]
    have hns := (Reader.parse_eq_ok_iff.mp ha).1
    exact .boundDepth (r.execute_unrecorded hns .unit ⟨rfl, rfl, rfl⟩)
  · rintro v _ s₁ s₁' rfl h₁
    rw [serve_of_parse (r := ⟨purpose, limits, b⟩) hb]
    by_cases hvalue : purpose = .run ∨ ms ≠ []
    · rw [r.execute_value hvalue v .unit]
      have hms := (Reader.parse_eq_ok_iff.mp hb).1
      have hbeside : s₁.Beside (· = ·) (s₁'.read ms) := h₁.recorded
      exact (r.execute_unrecorded hms .unit hbeside).boundDepth.mono fun _ _ heq _ => heq
    · -- no statement is left, and the value is that of the first text
      obtain ⟨heval, rfl⟩ : purpose = .eval ∧ ms = [] := by
        cases purpose <;> simp_all
      subst heval
      exact .ok (fun h => absurd h hvalue) h₁.recorded

end Request

/-! ## The theorem -/

/-- Feeding a text in pieces equals feeding it whole, in every session and wherever there are blanks
between two texts that can be read.  The whole text is read as the statements of the first and then
those of the second.  To run it ends as to run the first and then, if that succeeds, the second:
both succeed, or both fail with the same failure, and the tables and consoles are the same.  The
same holds for the value of a text, which is the same on both sides if there is a statement in the
second text. -/
theorem pieces_end_like_whole (limits : Limits) (s : Session) {a gap b : String}
    {ns ms : List Node} (ha : Reader.parse limits.nesting a = .ok ns) (hgap : IsGap gap)
    (hb : Reader.parse limits.nesting b = .ok ms) :
    Reader.parse limits.nesting (a ++ gap ++ b) = .ok (ns ++ ms) ∧
    Step.EndAlike (· = ·) (· = ·) (Session.runSource limits (a ++ gap ++ b) s)
      ((do
        let _ ← Session.runSource limits a
        Session.runSource limits b) s) ∧
    Step.EndAlike (· = ·) (fun v w => ms ≠ [] → v = w) (Session.evalSource limits (a ++ gap ++ b) s)
      ((do
        let _ ← Session.evalSource limits a
        Session.evalSource limits b) s) := by
  refine ⟨Reader.parse_append ha hgap hb, ?_, ?_⟩
  · have hrun := Request.serve_pieces .run limits ha hgap hb s
    exact hrun.mono fun _ _ h => h (.inl rfl)
  · have heval := Request.serve_pieces .eval limits ha hgap hb s
    exact heval.mono fun _ _ h hms => h (.inr hms)

/-- The call of the procedure that `oneNode` defines. -/
def callOne : Node := .call [.identifier "one"]

theorem pieces_end_like_whole_callOne :
    let limits : Limits := { nesting := 9, depth := 9 }
    let s := Session.start {}
    let text := (Node.program [oneNode]).format ++ "\n" ++ (Node.program [callOne]).format
    Reader.parse 9 text = .ok [oneNode, callOne] ∧
      (Session.runSource limits text s).2.table =
        s.table.define "one" (.closure one Session.scope) ∧
      (Session.evalSource limits text s).1 = .ok (.int 1) := by
  intro limits s text
  have hdefine : Reader.parse 9 (Node.program [oneNode]).format = .ok [oneNode] :=
    Reader.parse_format (by decide) (by decide)
  have hcall : Reader.parse 9 (Node.program [callOne]).format = .ok [callOne] :=
    Reader.parse_format (by decide) (by decide)
  obtain ⟨hparse, hrun, heval⟩ := pieces_end_like_whole limits s hdefine isGap_newline hcall
  let t := (s.read [oneNode]).defined "one" one
  refine ⟨hparse, ?_, ?_⟩
  · have hfirst : Session.runSource limits (Node.program [oneNode]).format s = (.ok .unit, t) :=
      Request.serve_of_parse (r := ⟨.run, limits, _⟩) hdefine s
    have hsecond : (Session.runSource limits (Node.program [callOne]).format t).2.table = t.table :=
      congrArg (·.2.table) (Request.serve_of_parse (r := ⟨.run, limits, _⟩) hcall t)
    rw [hrun.sessions.table, bind_apply, hfirst]
    exact hsecond
  · let u : Session := { t with events := t.events ++ [.evaluated .unit] }
    have hfirst : Session.evalSource limits (Node.program [oneNode]).format s = (.ok .unit, u) :=
      Request.serve_of_parse (r := ⟨.eval, limits, _⟩) hdefine s
    have hsecond : (Session.evalSource limits (Node.program [callOne]).format u).1 = .ok (.int 1) :=
      congrArg Prod.fst (Request.serve_of_parse (r := ⟨.eval, limits, _⟩) hcall u)
    rw [(heval.mono fun _ _ h => h (by simp)).result_eq, bind_apply, hfirst]
    exact hsecond

end MiniLisp
