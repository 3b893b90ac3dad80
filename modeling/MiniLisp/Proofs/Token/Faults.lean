/-
# MiniLisp.Proofs.Token.Faults — where no token can be formed.

`BadLexeme` says which texts begin with a lexeme that is no token, and why: a double quote without a
partner, digits that run into other characters, a number out of range, a number too long to be
converted.  `Breaks` says where in a text the first of them stands, in front of which all is well.
The lexer fails exactly there, and the place that it reports is the place of the lexeme.  A stream
fails in the same way, when it is asked for the token that cannot be formed.
-/
import MiniLisp.Proofs.Token.Stream

namespace MiniLisp

variable {cause : LexFault} {text bad source : List Char} {ts : List Token}

/-! ## Bad lexemes -/

/-- A run of digits that is no number of the language. -/
inductive BadNumeral : LexFault → List Char → Prop
  | tooLong {digits : List Char} (long : Text.maxDigits < digits.length) :
      BadNumeral (.integerTooLong digits.length) digits
  | outOfRange {digits : List Char} (short : digits.length ≤ Text.maxDigits)
      (large : maxInt < Text.digitsValue digits) :
      BadNumeral (.integerOutOfRange (String.ofList digits)) digits

/-- A text that begins with a lexeme that is no token. -/
inductive BadLexeme : LexFault → List Char → Prop
  | unterminated {inside : List Char} (open_end : '"' ∉ inside) :
      BadLexeme .unterminatedString ('"' :: inside)
  | malformed {digits glued rest : List Char} (nonempty : digits ≠ [])
      (all : ∀ c ∈ digits, Text.isDigit c = true) (glued_nonempty : glued ≠ [])
      (word : ∀ c ∈ glued, isWordChar c = true)
      (first : ∀ c ∈ glued.head?, Text.isDigit c = false) (ends : WordEnds rest) :
      BadLexeme (.malformedInteger (String.ofList (digits ++ glued))) (digits ++ (glued ++ rest))
  | numeral {cause : LexFault} {digits rest : List Char} (nonempty : digits ≠ [])
      (all : ∀ c ∈ digits, Text.isDigit c = true) (bad : BadNumeral cause digits)
      (ends : WordEnds rest) : BadLexeme cause (digits ++ rest)

/-- A bad lexeme is a string that does not end, or it begins with a digit. -/
theorem BadLexeme.first (h : BadLexeme cause bad) :
    (∃ inside, bad = '"' :: inside ∧ '"' ∉ inside ∧ cause = .unterminatedString) ∨
      ∃ c cs, bad = c :: cs ∧ Text.isDigit c = true := by
  cases h with
  | unterminated open_end => exact .inl ⟨_, rfl, open_end, rfl⟩
  | malformed nonempty all _ _ _ _ | numeral nonempty all _ _ =>
      obtain ⟨d, ds, rfl⟩ := List.exists_cons_of_ne_nil nonempty
      exact .inr ⟨d, _, rfl, all d List.mem_cons_self⟩

/-- A bad lexeme begins with no blank. -/
theorem BadLexeme.exists_cons (h : BadLexeme cause bad) :
    ∃ c cs, bad = c :: cs ∧ Text.isBlank c = false := by
  rcases h.first with ⟨inside, rfl, -, -⟩ | ⟨c, cs, rfl, hdigit⟩
  · exact ⟨'"', inside, rfl, by decide⟩
  · exact ⟨c, cs, rfl, isBlank_eq_false_of_isWordChar (isWordChar_of_isDigit hdigit)⟩

/-! ## One step of the lexer -/

theorem integerToken_eq_error_iff {digits : List Char} :
    integerToken digits = .error cause ↔ BadNumeral cause digits := by
  constructor
  · intro h
    unfold integerToken at h
    split at h
    · next hlong =>
      cases h
      exact .tooLong hlong
    · next hshort =>
      split at h
      · next hlarge =>
        cases h
        exact .outOfRange (Nat.not_lt.mp hshort) hlarge
      · cases h
  · rintro (⟨hlong⟩ | ⟨hshort, hlarge⟩)
    · exact if_pos hlong
    · unfold integerToken
      rw [if_neg (Nat.not_lt.mpr hshort), if_pos hlarge]

/-- What the lexer makes of digits and of the word characters that they run into. -/
theorem scanInteger_eq {digits glued rest : List Char} (all : ∀ c ∈ digits, Text.isDigit c = true)
    (word : ∀ c ∈ glued, isWordChar c = true)
    (first : ∀ c ∈ glued.head?, Text.isDigit c = false) (ends : WordEnds rest) :
    scanInteger (digits ++ (glued ++ rest)) =
      if glued = [] then
        match integerToken digits with
        | .ok t => .token t rest
        | .error cause => .fault cause (digits ++ (glued ++ rest)).length
      else
        .fault (.malformedInteger (String.ofList (digits ++ glued)))
          (digits ++ (glued ++ rest)).length := by
  have hstop : ∀ c ∈ (glued ++ rest).head?, Text.isDigit c = false := by
    cases glued with
    | nil => exact ends.not_digit
    | cons c cs => exact first
  obtain ⟨htake, hdrop⟩ := (span_iff (p := Text.isDigit)).mpr ⟨rfl, all, hstop⟩
  obtain ⟨hglued, -⟩ := (span_iff (p := isWordChar)).mpr ⟨rfl, word, ends⟩
  simp only [scanInteger, htake, hdrop, hglued, List.isEmpty_iff]
  cases glued with
  | nil => rfl
  | cons c cs => rfl

/-- Every text is cut into digits, what they run into, and what is behind the word. -/
theorem exists_numeral_parts (text : List Char) : ∃ digits glued rest,
    text = digits ++ (glued ++ rest) ∧ (∀ c ∈ digits, Text.isDigit c = true) ∧
      (∀ c ∈ glued, isWordChar c = true) ∧ (∀ c ∈ glued.head?, Text.isDigit c = false) ∧
      WordEnds rest := by
  obtain ⟨happ, hall, hstop⟩ := (span_iff (p := Text.isDigit) (l := text)).mp ⟨rfl, rfl⟩
  obtain ⟨happ', hword, hends⟩ :=
    (span_iff (p := isWordChar) (l := text.dropWhile Text.isDigit)).mp ⟨rfl, rfl⟩
  refine ⟨_, _, _, happ.trans (congrArg _ happ'), hall, hword, fun c hc => ?_, hends⟩
  refine hstop c ?_
  rw [happ', List.head?_append, Option.mem_def.mp hc]
  rfl

theorem scanInteger_eq_fault_iff {left : Nat}
    (hdigit : ∃ c cs, text = c :: cs ∧ Text.isDigit c = true) :
    scanInteger text = .fault cause left ↔ BadLexeme cause text ∧ left = text.length := by
  constructor
  · intro h
    obtain ⟨digits, glued, rest, rfl, hall, hword, hfirst, hends⟩ := exists_numeral_parts text
    obtain ⟨c, cs, hcons, hc⟩ := hdigit
    have hne : digits ≠ [] := by
      rintro rfl
      cases glued with
      | nil => simp [hends.not_digit c (by simp_all)] at hc
      | cons d ds => simp [hfirst c (by simp_all)] at hc
    rw [scanInteger_eq hall hword hfirst hends] at h
    split at h
    · next hglued =>
      subst hglued
      split at h
      · cases h
      · next hbad =>
        cases h
        exact ⟨.numeral hne hall (integerToken_eq_error_iff.mp hbad) hends, rfl⟩
    · next hglued =>
      cases h
      exact ⟨.malformed hne hall hglued hword hfirst hends, rfl⟩
  · rintro ⟨hbad, rfl⟩
    cases hbad with
    | unterminated _ =>
        obtain ⟨c, cs, hcons, hc⟩ := hdigit
        obtain ⟨rfl, -⟩ := List.cons.inj hcons
        exact absurd hc (by decide)
    | malformed _ hall hglued hword hfirst hends =>
        rw [scanInteger_eq hall hword hfirst hends, if_neg hglued]
    | @numeral cause digits rest _ hall hbad hends =>
        have hscan : scanInteger (digits ++ ([] ++ rest)) = _ :=
          scanInteger_eq hall (by simp) (by simp) hends
        rw [if_pos rfl, integerToken_eq_error_iff.mpr hbad] at hscan
        exact hscan

theorem scanString_eq_fault_iff {inside : List Char} {left : Nat} :
    scanString inside = .fault cause left ↔
      BadLexeme cause ('"' :: inside) ∧ left = inside.length + 1 := by
  have hopen : inside.dropWhile (· ≠ '"') = [] ↔ '"' ∉ inside := by
    rw [List.dropWhile_eq_nil_iff]
    simp only [ne_eq, decide_not, Bool.not_eq_true', decide_eq_false_iff_not]
    exact ⟨fun h hmem => h _ hmem rfl, fun h c hc heq => h (heq ▸ hc)⟩
  constructor
  · intro h
    unfold scanString at h
    split at h
    · next hnil =>
      cases h
      exact ⟨.unterminated (hopen.mp hnil), rfl⟩
    · cases h
  · rintro ⟨hbad, rfl⟩
    rcases hbad.first with ⟨_, hcons, hmem, rfl⟩ | ⟨c, cs, hcons, hdigit⟩
    · obtain ⟨-, rfl⟩ := List.cons.inj hcons
      simp only [scanString, hopen.mpr hmem]
    · obtain ⟨rfl, -⟩ := List.cons.inj hcons
      exact absurd hdigit (by decide)

theorem scanLexeme_eq_fault_iff {c : Char} {rest : List Char} {left : Nat} :
    scanLexeme c rest = .fault cause left ↔
      BadLexeme cause (c :: rest) ∧ left = rest.length + 1 := by
  -- no bad lexeme begins with another character
  have hother (hquote : c ≠ '"') (hdigit : ¬Text.isDigit c = true) :
      ¬BadLexeme cause (c :: rest) := by
    intro hbad
    rcases hbad.first with ⟨_, hcons, -, -⟩ | ⟨d, ds, hcons, hd⟩
    · exact hquote (List.cons.inj hcons).1
    · rw [← (List.cons.inj hcons).1] at hd
      exact hdigit hd
  unfold scanLexeme
  split
  · next hparen => simp [hother (by simp [hparen]) (by rw [hparen]; decide)]
  split
  · next hparen => simp [hother (by simp [hparen]) (by rw [hparen]; decide)]
  split
  · next hquote =>
    subst hquote
    exact scanString_eq_fault_iff
  · next hquote =>
    split
    · next hdigit => exact scanInteger_eq_fault_iff ⟨c, rest, rfl, hdigit⟩
    · next hdigit => simp [hother hquote hdigit]

/-- The lexer fails exactly where a bad lexeme comes next, possibly after blanks. -/
theorem scan_eq_fault_iff {left : Nat} :
    scan text = .fault cause left ↔ ∃ gap bad, text = gap ++ bad ∧
      (∀ c ∈ gap, Text.isBlank c = true) ∧ BadLexeme cause bad ∧ left = bad.length := by
  constructor
  · intro h
    obtain ⟨happ, hblank, -⟩ := (span_iff (p := Text.isBlank) (l := text)).mp ⟨rfl, rfl⟩
    unfold scan at h
    split at h
    · cases h
    · next c rest hrest =>
      rw [hrest] at happ
      obtain ⟨hbad, rfl⟩ := scanLexeme_eq_fault_iff.mp h
      exact ⟨_, _, happ, hblank, hbad, rfl⟩
  · rintro ⟨gap, bad, rfl, hblank, hbad, rfl⟩
    obtain ⟨c, cs, rfl, hc⟩ := hbad.exists_cons
    have hdrop : (gap ++ c :: cs).dropWhile Text.isBlank = c :: cs :=
      ((span_iff (p := Text.isBlank)).mpr ⟨rfl, hblank, by simpa using hc⟩).2
    unfold scan
    rw [hdrop]
    exact scanLexeme_eq_fault_iff.mpr ⟨hbad, rfl⟩

/-! ## The first bad lexeme of a text -/

/-- A text spells the tokens `ts`, and behind them it begins with a bad lexeme: `bad` is what is left
of the text there. -/
inductive Breaks (cause : LexFault) (bad : List Char) : List Char → List Token → Prop
  | here {gap : List Char} (blank : ∀ c ∈ gap, Text.isBlank c = true) (h : BadLexeme cause bad) :
      Breaks cause bad (gap ++ bad) []
  | cons {gap lexeme rest : List Char} {t : Token} {ts : List Token}
      (blank : ∀ c ∈ gap, Text.isBlank c = true) (lexeme_of : t.Lexeme lexeme)
      (parted : t.closesItself = true ∨ WordEnds rest) (tail : Breaks cause bad rest ts) :
      Breaks cause bad (gap ++ lexeme ++ rest) (t :: ts)

/-- What is left is the end of the text. -/
theorem Breaks.suffix (h : Breaks cause bad text ts) : bad <:+ text := by
  induction h with
  | here _ _ => exact List.suffix_append _ bad
  | cons _ _ _ _ ih => exact ih.trans (List.suffix_append _ _)

/-- A text in which no token can be formed next. -/
theorem breaks_nil_iff : Breaks cause bad text [] ↔
    ∃ gap, text = gap ++ bad ∧ (∀ c ∈ gap, Text.isBlank c = true) ∧ BadLexeme cause bad := by
  constructor
  · rintro (⟨blank, h⟩ | _)
    exact ⟨_, rfl, blank, h⟩
  · rintro ⟨gap, rfl, blank, h⟩
    exact .here blank h

theorem scan_eq_fault_iff_breaks {left : Nat} :
    scan text = .fault cause left ↔ ∃ bad, Breaks cause bad text [] ∧ left = bad.length := by
  simp only [scan_eq_fault_iff, breaks_nil_iff]
  constructor
  · rintro ⟨gap, bad, happ, blank, h, hleft⟩
    exact ⟨bad, ⟨gap, happ, blank, h⟩, hleft⟩
  · rintro ⟨bad, ⟨gap, happ, blank, h⟩, hleft⟩
    exact ⟨gap, bad, happ, blank, h, hleft⟩

/-- A lexical error stands behind the tokens of a text exactly if the text breaks there, and it is
located where the bad lexeme begins. -/
theorem lexed_eq_some_iff {e : LexError} :
    lexed source text = (ts, some e) ↔
      ∃ bad, Breaks e.fault bad text ts ∧ e.position = locate source bad.length := by
  constructor
  · intro h
    induction hk : text.length using Nat.strongRecOn generalizing text ts with
    | _ k ih =>
      subst hk
      cases hs : scan text with
      | done =>
          rw [lexed_done hs] at h
          cases h
      | fault cause left =>
          rw [lexed_fault hs] at h
          cases h
          obtain ⟨bad, hbreaks, rfl⟩ := scan_eq_fault_iff_breaks.mp hs
          exact ⟨bad, hbreaks, rfl⟩
      | token t rest =>
          rw [lexed_token hs] at h
          obtain ⟨rfl, hsome⟩ := Prod.mk.inj h
          obtain ⟨bad, hbreaks, hposition⟩ :=
            ih rest.length (scan_length hs) (Prod.ext rfl hsome) rfl
          obtain ⟨gap, lexeme, rfl, blank, lexeme_of, parted⟩ := scan_eq_token_iff.mp hs
          exact ⟨bad, .cons blank lexeme_of parted hbreaks, hposition⟩
  · rintro ⟨bad, hbreaks, hposition⟩
    obtain ⟨fault, position⟩ := e
    obtain rfl : position = locate source bad.length := hposition
    induction hbreaks with
    | here blank h => exact lexed_fault (scan_eq_fault_iff.mpr ⟨_, _, rfl, blank, h, rfl⟩)
    | cons blank lexeme_of parted _ ih =>
        rw [lexed_token (scan_eq_token_iff.mpr ⟨_, _, rfl, blank, lexeme_of, parted⟩), ih]

/-! ## Places -/

/-- The place behind a text, in lines and columns. -/
def Text.placeAfter (front : List Char) : Position where
  line := front.count '\n' + 1
  column := lastLineLength front + 1

theorem locate_append (front bad : List Char) :
    locate (front ++ bad) bad.length = Text.placeAfter front := by
  simp [locate, Text.position, Text.placeAfter]

/-- What is left of a text where it breaks is located in lines and columns. -/
theorem exists_breaks_iff (h : text <:+ source) {position : Text.Position} :
    (∃ bad, Breaks cause bad text ts ∧ position = locate source bad.length) ↔
      ∃ front bad, source = front ++ bad ∧ Breaks cause bad text ts ∧
        position = Text.placeAfter front := by
  constructor
  · rintro ⟨bad, hbreaks, rfl⟩
    obtain ⟨front, rfl⟩ := hbreaks.suffix.trans h
    exact ⟨front, bad, rfl, hbreaks, locate_append front bad⟩
  · rintro ⟨front, bad, rfl, hbreaks, rfl⟩
    exact ⟨bad, hbreaks, (locate_append front bad).symm⟩

/-- A text is not tokenized exactly if it breaks, and the error has the place of the bad lexeme. -/
theorem tokenize_eq_error_iff {source : String} {e : LexError} :
    tokenize source = .error e ↔ ∃ ts front bad, source.toList = front ++ bad ∧
      Breaks e.fault bad source.toList ts ∧ e.position = Text.placeAfter front := by
  have hlexed : tokenize source = .error e ↔
      ∃ ts, lexed source.toList source.toList = (ts, some e) := by
    rw [tokenize, tokensFrom_eq]
    rcases lexed source.toList source.toList with ⟨us, _ | e'⟩ <;> simp
  rw [hlexed]
  exact exists_congr fun ts => lexed_eq_some_iff.trans (exists_breaks_iff List.suffix_rfl)

/-! ## Streams -/

namespace TokenStream

variable {s : TokenStream} {e : LexError} {text : String}

/-- The states of a stream over a text. -/
inductive Over (text : String) : TokenStream → Prop
  | start : Over text (ofText text)
  | peek {s : TokenStream} (h : Over text s) : Over text s.peek.2
  | advance {s : TokenStream} (h : Over text s) : Over text s.advance.2

theorem pull_rest (s : TokenStream) : s.pull.2.source = s.source ∧ s.pull.2.rest <:+ s.rest := by
  unfold pull
  cases hs : scan s.rest with
  | done => exact ⟨rfl, List.nil_suffix⟩
  | fault cause left => exact ⟨rfl, List.nil_suffix⟩
  | token t rest =>
      obtain ⟨gap, lexeme, happ, -⟩ := scan_eq_token_iff.mp hs
      exact ⟨rfl, ⟨_, happ.symm⟩⟩

/-- A stream keeps its text, and what is left of it is the end of the text. -/
theorem Over.rest (h : Over text s) : s.source = text.toList ∧ s.rest <:+ text.toList := by
  induction h with
  | start => exact ⟨rfl, List.suffix_rfl⟩
  | @peek s _ ih =>
      have hpull : s.pull.2.source = text.toList ∧ s.pull.2.rest <:+ text.toList :=
        ⟨(pull_rest s).1.trans ih.1, (pull_rest s).2.trans ih.2⟩
      unfold TokenStream.peek
      split
      · exact ih
      · split
        · next hp =>
          rw [hp] at hpull
          exact hpull
        · next hp =>
          rw [hp] at hpull
          exact hpull
  | @advance s _ ih =>
      unfold TokenStream.advance
      split
      · exact ih
      · exact ⟨(pull_rest s).1.trans ih.1, (pull_rest s).2.trans ih.2⟩

theorem pull_eq_error_iff (h : Over text s) : s.pull.1 = .error e ↔ ∃ front bad,
    text.toList = front ++ bad ∧ Breaks e.fault bad s.rest [] ∧
      e.position = Text.placeAfter front := by
  obtain ⟨hsource, hrest⟩ := h.rest
  have hscan : s.pull.1 = .error e ↔
      ∃ left, scan s.rest = .fault e.fault left ∧ e.position = locate text.toList left := by
    rw [← hsource]
    obtain ⟨fault, position⟩ := e
    unfold pull
    cases scan s.rest with
    | done => simp
    | token t rest => simp
    | fault cause left => simp [eq_comm, and_assoc]
  rw [hscan, ← exists_breaks_iff hrest]
  constructor
  · rintro ⟨left, hfault, hposition⟩
    obtain ⟨bad, hbreaks, rfl⟩ := scan_eq_fault_iff_breaks.mp hfault
    exact ⟨bad, hbreaks, hposition⟩
  · rintro ⟨bad, hbreaks, hposition⟩
    exact ⟨bad.length, scan_eq_fault_iff_breaks.mpr ⟨bad, hbreaks, rfl⟩, hposition⟩

/-- Looking ahead fails where a new token has to be formed and cannot be. -/
theorem peek_eq_error_iff : s.peek.1 = .error e ↔ s.buffer = none ∧ s.pull.1 = .error e := by
  unfold peek
  cases s.buffer with
  | some t => simp
  | none => rcases s.pull with ⟨_ | _, _⟩ <;> simp

theorem advance_eq_error_iff : s.advance.1 = .error e ↔ s.buffer = none ∧ s.pull.1 = .error e := by
  unfold advance
  cases s.buffer <;> simp

end TokenStream

end MiniLisp
