/-
# MiniLisp.Proofs.Token.Cursor — how far a stream has come.

What a stream will still hand over does not tell how much of the text has been scanned for it.
`Scans` is that part of the story: the tokens scanned so far, and the text behind them.  A stream
stands behind the tokens that it has handed over, and the text is scanned no further than to the
token that was looked at.
-/
import MiniLisp.Proofs.Token.Faults

namespace MiniLisp

/-! ## The beginning of a text -/

/-- The text begins with these tokens, and `rest` is what is left of it behind the last of them,
where blanks at the end of the text may be gone. -/
inductive Scans : List Char → List Token → List Char → Prop
  | nil (text : List Char) : Scans text [] text
  | ended {text : List Char} (blank : scan text = .done) : Scans text [] []
  | cons {text mid rest : List Char} {t : Token} {ts : List Token} (head : scan text = .token t mid)
      (tail : Scans mid ts rest) : Scans text (t :: ts) rest

section

variable {source text mid rest : List Char} {t : Token} {ts : List Token}

/-- One token more. -/
theorem Scans.concat (h : Scans text ts mid) (hscan : scan mid = .token t rest) :
    Scans text (ts ++ [t]) rest := by
  induction h with
  | nil _ => exact .cons hscan (.nil rest)
  | ended _ => cases hscan
  | cons head _ ih => exact .cons head (ih hscan)

/-- The end of the text. -/
theorem Scans.to_end (h : Scans text ts mid) (hscan : scan mid = .done) : Scans text ts [] := by
  induction h with
  | nil _ => exact .ended hscan
  | ended blank => exact .ended blank
  | cons head _ ih => exact .cons head (ih hscan)

/-- All tokens of a text are those at its beginning and those of the rest. -/
theorem Scans.lexed_eq (h : Scans text ts rest) :
    lexed source text = (ts ++ (lexed source rest).1, (lexed source rest).2) := by
  induction h with
  | nil _ => rfl
  | ended blank => rw [lexed_done blank, lexed_nil, List.append_nil]
  | cons head _ ih => rw [lexed_token head, ih, List.cons_append]

end

/-! ## Streams -/

namespace TokenStream

variable {source : String} {s s' : TokenStream} {t : Token} {ts : List Token} {e : LexError}

/-- The stream has handed over the tokens `ts` of the text, and nothing is scanned but them and the
token in its buffer. -/
structure At (source : String) (ts : List Token) (s : TokenStream) : Prop where
  source_eq : s.source = source.toList
  scans : Scans source.toList (ts ++ s.buffer.toList) s.rest

theorem At.start (source : String) : (ofText source).At source [] := ⟨rfl, .nil _⟩

/-- What the text holds has been handed over, or is still to come. -/
theorem At.passes (h : s.At source ts) : (ofText source).Passes ts s := by
  have hlexed : lexed source.toList source.toList = _ := h.scans.lexed_eq
  rw [List.append_assoc] at hlexed
  unfold Passes future
  rw [h.source_eq]
  exact hlexed

/-- What was handed over has a lexeme. -/
theorem At.lexical (h : s.At source ts) : ∀ t ∈ ts, ∃ lexeme, t.Lexeme lexeme := by
  intro t ht
  refine lexical_ofText source t ?_
  rw [h.passes]
  exact List.mem_append_left _ ht

/-- What is scanned comes behind what was handed over. -/
theorem At.pull {shown : Option Token} (h : s.At source ts) (hbuffer : s.buffer = none)
    (hp : s.pull = (.ok shown, s')) :
    s'.source = source.toList ∧ Scans source.toList (ts ++ shown.toList) s'.rest ∧
      s'.buffer = none := by
  have hscans := h.scans
  rw [hbuffer, Option.toList_none, List.append_nil] at hscans
  unfold TokenStream.pull at hp
  split at hp <;> cases hp
  · next hscan => exact ⟨h.source_eq, by simpa using hscans.to_end hscan, hbuffer⟩
  · next hscan => exact ⟨h.source_eq, hscans.concat hscan, hbuffer⟩

/-- The next token is handed over, and nothing behind it is scanned. -/
theorem At.advance (h : s.At source ts) (ha : s.advance = (.ok (some t), s')) :
    s'.At source (ts ++ [t]) ∧ s'.buffer = none := by
  cases hb : s.buffer with
  | some b =>
      simp only [TokenStream.advance, hb] at ha
      cases ha
      have hscans := h.scans
      rw [hb] at hscans
      exact ⟨⟨h.source_eq, by simpa using hscans⟩, rfl⟩
  | none =>
      simp only [TokenStream.advance, hb] at ha
      obtain ⟨hsource, hscans, hbuffer⟩ := h.pull hb ha
      exact ⟨⟨hsource, by simpa [hbuffer] using hscans⟩, hbuffer⟩

/-- The next token is scanned to be looked at, and no other one. -/
theorem At.peek {shown : Option Token} (h : s.At source ts) (hp : s.peek = (.ok shown, s')) :
    s'.At source ts := by
  cases hb : s.buffer with
  | some b =>
      simp only [TokenStream.peek, hb] at hp
      cases hp
      exact h
  | none =>
      simp only [TokenStream.peek, hb] at hp
      split at hp <;> cases hp
      next hpull =>
      obtain ⟨hsource, hscans, -⟩ := h.pull hb hpull
      exact ⟨hsource, hscans⟩

/-- Where no token comes, the text has ended. -/
theorem At.tokenize_of_end (h : s.At source ts) (hend : s.future = ([], none)) :
    tokenize source = .ok ts := by
  rw [tokenize_eq_ok_iff, ← @lexed_eq_iff_spells source.toList]
  have hpasses := h.passes
  rw [Passes, hend, List.append_nil] at hpasses
  exact hpasses

/-- Where no token can be formed, the text breaks. -/
theorem At.breaks (h : s.At source ts) (herror : s.future = ([], some e)) :
    ∃ front bad, source.toList = front ++ bad ∧ Breaks e.fault bad source.toList ts ∧
      e.position = Text.placeAfter front := by
  have hpasses := h.passes
  rw [Passes, herror, List.append_nil] at hpasses
  exact (exists_breaks_iff List.suffix_rfl).mp (lexed_eq_some_iff.mp hpasses)

end TokenStream

end MiniLisp
