/-
# MiniLisp.Proofs.Token.Alike — streams that cannot be told apart.

What a stream answers is settled by its future: the tokens to come and the error behind them.  So
streams with the same tokens to come answer alike for good, up to the error at the end, whatever was
handed over before and whatever has been scanned already.  A text that is put in front of another
one, and is handed over, leaves such a stream: only the place of an error has moved with the text.
-/
import MiniLisp.Proofs.Computation
import MiniLisp.Proofs.Token.Location

namespace MiniLisp

/-! ## Futures -/

namespace Future

variable {E : LexError → LexError → Prop} {f g : Future}

/-- The same tokens to come, and errors behind them that `E` relates, or none. -/
structure Alike (E : LexError → LexError → Prop) (f g : Future) : Prop where
  tokens : f.1 = g.1
  ends : Option.Rel E f.2 g.2

/-- There are tokens to come on both sides, or an end, or an error. -/
theorem Alike.cases (h : f.Alike E g) :
    (∃ t ts e e', f = (t :: ts, e) ∧ g = (t :: ts, e') ∧ Option.Rel E e e') ∨
      (f = ([], none) ∧ g = ([], none)) ∨
      ∃ e e', f = ([], some e) ∧ g = ([], some e') ∧ E e e' := by
  obtain ⟨ts, e⟩ := f
  obtain ⟨us, e'⟩ := g
  obtain ⟨rfl, hends⟩ : ts = us ∧ Option.Rel E e e' := ⟨h.tokens, h.ends⟩
  cases ts with
  | cons t ts => exact .inl ⟨t, ts, e, e', rfl, rfl, hends⟩
  | nil =>
      cases hends with
      | none => exact .inr (.inl ⟨rfl, rfl⟩)
      | some he => exact .inr (.inr ⟨_, _, rfl, rfl, he⟩)

theorem Alike.answer (h : f.Alike E g) : Agree (· = ·) E f.answer g.answer := by
  rcases h.cases with ⟨t, ts, e, e', rfl, rfl, -⟩ | ⟨rfl, rfl⟩ | ⟨e, e', rfl, rfl, he⟩
  · exact .ok rfl
  · exact .ok rfl
  · exact .error he

theorem Alike.behind (h : f.Alike E g) : f.behind.Alike E g.behind := by
  rcases h.cases with ⟨t, ts, e, e', rfl, rfl, hends⟩ | ⟨rfl, rfl⟩ | ⟨e, e', rfl, rfl, -⟩
  · exact ⟨rfl, hends⟩
  · exact ⟨rfl, .none⟩
  · exact ⟨rfl, .none⟩

theorem Alike.kept (h : f.Alike E g) : f.kept.Alike E g.kept := by
  rcases h.cases with ⟨t, ts, e, e', rfl, rfl, hends⟩ | ⟨rfl, rfl⟩ | ⟨e, e', rfl, rfl, -⟩
  · exact ⟨rfl, hends⟩
  · exact ⟨rfl, .none⟩
  · exact ⟨rfl, .none⟩

end Future

/-! ## Streams -/

namespace TokenStream

variable {E : LexError → LexError → Prop} {s s' : TokenStream}

theorem future_ofText (text : String) : (ofText text).future = lexed text.toList text.toList := rfl

/-- Streams to which the same tokens come, and errors behind them that `E` relates, or none. -/
def Alike (E : LexError → LexError → Prop) (s s' : TokenStream) : Prop :=
  Future.Alike E s.future s'.future

/-- Two uses of streams have ended alike: with the same result or with errors that `F` relates, and
they have left streams that are alike. -/
structure EndAlike {ε α : Type} (F : ε → ε → Prop) (E : LexError → LexError → Prop)
    (o o' : Except ε α × TokenStream) : Prop where
  results : Agree (· = ·) F o.1 o'.1
  streams : o.2.Alike E o'.2

namespace EndAlike

variable {ε α : Type} {F : ε → ε → Prop} {o o' : Except ε α × TokenStream}

theorem ok {a : α} (h : s.Alike E s') :
    EndAlike F E ((.ok a, s) : Except ε α × TokenStream) (.ok a, s') :=
  ⟨.ok rfl, h⟩

theorem error {e e' : ε} (he : F e e') (h : s.Alike E s') :
    EndAlike F E ((.error e, s) : Except ε α × TokenStream) (.error e', s') :=
  ⟨.error he, h⟩

/-- There is a result on both sides, or an error on both. -/
theorem cases (h : EndAlike F E o o') :
    (∃ a s s', o = (.ok a, s) ∧ o' = (.ok a, s') ∧ s.Alike E s') ∨
      ∃ e e' s s', o = (.error e, s) ∧ o' = (.error e', s') ∧ F e e' ∧ s.Alike E s' := by
  obtain ⟨r, s⟩ := o
  obtain ⟨r', s'⟩ := o'
  obtain ⟨hresults, hs⟩ := h
  cases hresults with
  | ok heq =>
      cases heq
      exact .inl ⟨_, s, s', rfl, rfl, hs⟩
  | error he => exact .inr ⟨_, _, s, s', rfl, rfl, he, hs⟩

/-- What is done to the result afterwards is done on both sides. -/
theorem map {β : Type} (f : α → β) (h : EndAlike F E o o') :
    EndAlike F E (o.1.map f, o.2) (o'.1.map f, o'.2) := by
  rcases h.cases with ⟨a, s, s', rfl, rfl, hs⟩ | ⟨e, e', s, s', rfl, rfl, he, hs⟩
  · exact .ok hs
  · exact .error he hs

/-- The same for the error. -/
theorem mapError {φ : Type} {G : φ → φ → Prop} {g : ε → φ} (h : EndAlike F E o o')
    (hg : ∀ {e e'}, F e e' → G (g e) (g e')) :
    EndAlike G E (o.1.mapError g, o.2) (o'.1.mapError g, o'.2) := by
  rcases h.cases with ⟨a, s, s', rfl, rfl, hs⟩ | ⟨e, e', s, s', rfl, rfl, he, hs⟩
  · exact .ok hs
  · exact .error (hg he) hs

end EndAlike

/-- Streams that are alike hand over the same, and are alike again. -/
theorem Alike.advance (h : s.Alike E s') : EndAlike E E s.advance s'.advance := by
  obtain ⟨hanswer, hbehind⟩ := s.advance_eq
  obtain ⟨hanswer', hbehind'⟩ := s'.advance_eq
  constructor
  · rw [hanswer, hanswer']
    exact Future.Alike.answer h
  · rw [Alike, hbehind, hbehind']
    exact Future.Alike.behind h

/-- Streams that are alike show the same, and are alike again. -/
theorem Alike.peek (h : s.Alike E s') : EndAlike E E s.peek s'.peek := by
  obtain ⟨hanswer, hkept⟩ := s.peek_eq
  obtain ⟨hanswer', hkept'⟩ := s'.peek_eq
  constructor
  · rw [hanswer, hanswer']
    exact Future.Alike.answer h
  · rw [Alike, hkept, hkept']
    exact Future.Alike.kept h

end TokenStream

/-! ## A text in front of another one -/

section

variable {front text gap source : List Char} {row : List Token}

/-- Blanks in front of a text hold no tokens. -/
theorem lexed_blanks (hgap : ∀ c ∈ gap, Text.isBlank c = true) :
    lexed source (gap ++ text) = lexed source text := by
  have hscan : scan (gap ++ text) = scan text := by
    unfold scan
    rw [List.dropWhile_append_of_pos hgap]
  cases hs : scan text with
  | done => rw [lexed_done hs, lexed_done (hscan.trans hs)]
  | fault cause left => rw [lexed_fault hs, lexed_fault (hscan.trans hs)]
  | token t rest => rw [lexed_token hs, lexed_token (hscan.trans hs)]

theorem Spells.eq_nil (h : Spells [] row) : row = [] := by
  have hlexed : lexed [] [] = (row, none) := h.lexed_eq
  rw [lexed_nil] at hlexed
  exact (congrArg Prod.fst hlexed).symm

/-- A text whose last token closes itself is read up to its end, whatever is put behind it. -/
theorem Spells.lexed_append (h : Spells front row)
    (hlast : ∀ t ∈ row.getLast?, t.closesItself = true) :
    lexed source (front ++ text) = (row ++ (lexed source text).1, (lexed source text).2) := by
  induction h with
  | nil blank => exact lexed_blanks blank
  | @cons gap lexeme rest t ts blank lexeme_of parted tail ih =>
      have hparted : t.closesItself = true ∨ WordEnds (rest ++ text) := by
        cases rest with
        | nil =>
            obtain rfl := tail.eq_nil
            exact .inl (hlast t rfl)
        | cons c cs => exact parted
      have hrest : ∀ u ∈ ts.getLast?, u.closesItself = true := by
        intro u hu
        refine hlast u ?_
        rw [List.getLast?_cons, hu]
        rfl
      have hscan : scan (gap ++ lexeme ++ rest ++ text) = .token t (rest ++ text) :=
        scan_eq_token_iff.mpr ⟨gap, lexeme, List.append_assoc _ _ _, blank, lexeme_of, hparted⟩
      rw [lexed_token hscan, ih hrest]
      rfl

/-- The same lexical error in two texts, of which `front ++ text` has the first one and `text` the
second one, where a bad lexeme begins at some offset. -/
structure LexError.Moved (front text : List Char) (e e' : LexError) : Prop where
  fault : e.fault = e'.fault
  place : ∃ offset, BadLexeme e'.fault (text.drop offset) ∧
    e'.position = Text.position text offset ∧
    e.position = Text.position (front ++ text) (front.length + offset)

/-- The tokens of a text do not depend on what stands in front, and its error moves with it. -/
theorem lexed_moved (front text : List Char) :
    Future.Alike (LexError.Moved front text) (lexed (front ++ text) text) (lexed text text) := by
  rcases hlexed : lexed text text with ⟨ts, _ | e⟩
  · have hspells : Spells text ts := lexed_eq_iff_spells.mp hlexed
    rw [hspells.lexed_eq]
    exact ⟨rfl, .none⟩
  · obtain ⟨bad, hbreaks, hposition⟩ := lexed_eq_some_iff.mp hlexed
    have hmoved : lexed (front ++ text) text =
        (ts, some ⟨e.fault, locate (front ++ text) bad.length⟩) :=
      lexed_eq_some_iff.mpr ⟨bad, hbreaks, rfl⟩
    rw [hmoved]
    refine ⟨rfl, .some ⟨rfl, text.length - bad.length, ?_, hposition, ?_⟩⟩
    · rw [← List.suffix_iff_eq_drop.mp hbreaks.suffix]
      exact hbreaks.badLexeme
    · have hle : bad.length ≤ text.length := hbreaks.suffix.length_le
      have hoffset : (front ++ text).length - bad.length =
          front.length + (text.length - bad.length) := by
        rw [List.length_append]
        omega
      exact congrArg (Text.position (front ++ text)) hoffset

end

end MiniLisp
