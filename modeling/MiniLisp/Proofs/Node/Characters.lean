/-
# MiniLisp.Proofs.Node.Characters — the characters of printed programs.

Printers add blanks, line feeds, parentheses and digits to what stands in a program, and nothing
else.  So a property of characters that holds of these and of a source text holds of every text that
is printed for its program; for one, a carriage return is never printed where none was read.
-/
import MiniLisp.Proofs.Node.Printing

namespace MiniLisp

open Node (tokensAll formatAll layoutAll)

/-! ## Texts -/

/-- The text consists of characters with the property `p`. -/
def Text.Consists (p : Char → Prop) (text : String) : Prop := ∀ c ∈ text.toList, p c

/-- The property holds of all characters that printers add. -/
structure Text.Plain (p : Char → Prop) : Prop where
  space : p ' '
  lineFeed : p '\n'
  openParen : p '('
  closeParen : p ')'
  digit : ∀ c, Text.isDigit c = true → p c

namespace Text

variable {p : Char → Prop} {a b gap : String} {items : List String}

theorem Consists.append (ha : Consists p a) (hb : Consists p b) : Consists p (a ++ b) := by
  intro c hc
  rw [String.toList_append, List.mem_append] at hc
  exact hc.elim (ha c) (hb c)

theorem consists_singleton {c : Char} (h : p c) : Consists p (String.ofList [c]) := by
  simpa [Consists] using h

theorem Consists.intercalate (hgap : Consists p gap) (h : ∀ s ∈ items, Consists p s) :
    Consists p (gap.intercalate items) := by
  induction items with
  | nil => simp [Consists]
  | cons s rest ih =>
      have hs : Consists p s := h s List.mem_cons_self
      cases rest with
      | nil => rwa [String.intercalate_singleton]
      | cons s' rest =>
          rw [String.intercalate_cons_cons]
          exact (hs.append hgap).append (ih fun t ht => h t (List.mem_cons_of_mem _ ht))

namespace Plain

variable (hp : Plain p)
include hp

theorem consists_space : Consists p " " := consists_singleton hp.space

theorem consists_lineFeed : Consists p "\n" := consists_singleton hp.lineFeed

theorem consists_openParen : Consists p "(" := consists_singleton hp.openParen

theorem consists_closeParen : Consists p ")" := consists_singleton hp.closeParen

theorem parenthesized (h : ∀ s ∈ items, Consists p s) : Consists p (parenthesized items) :=
  (hp.consists_openParen.append (hp.consists_space.intercalate h)).append hp.consists_closeParen

end Plain

end Text

open Text (Consists Plain)

/-! ## Tokens -/

variable {p : Char → Prop}

theorem Token.Lexeme.isDigit {n : Int} {lexeme : List Char} (h : (Token.integer n).Lexeme lexeme) :
    ∀ c ∈ lexeme, Text.isDigit c = true := by
  generalize ht : Token.integer n = t at h
  cases h with
  | integer _ all _ _ => exact all
  | _ => cases ht

/-- A token is printed with characters of its lexeme, or with digits. -/
theorem Token.Lexeme.consists {t : Token} {lexeme : List Char} (h : t.Lexeme lexeme) (hp : Plain p)
    (hlexeme : ∀ c ∈ lexeme, p c) : Consists p t.spelling := by
  cases h with
  | openParen => exact hp.consists_openParen
  | closeParen => exact hp.consists_closeParen
  | string _ => simpa [Consists, Token.spelling] using hlexeme
  | integer _ _ _ small =>
      intro c hc
      exact hp.digit c ((lexeme_integer (Int.natCast_nonneg _) small).isDigit c hc)
  | symbol _ => simpa [Consists, Token.spelling, Token.text] using hlexeme

theorem Spells.consists {text : List Char} {ts : List Token} (h : Spells text ts) (hp : Plain p)
    (htext : ∀ c ∈ text, p c) : ∀ t ∈ ts, Consists p t.spelling := by
  induction h with
  | nil _ => simp
  | @cons gap lexeme rest t ts _ lexeme_of _ _ ih =>
      have hlexeme : ∀ c ∈ lexeme, p c := fun c hc => htext c (by simp [hc])
      have hrest : ∀ c ∈ rest, p c := fun c hc => htext c (by simp [hc])
      exact List.forall_mem_cons.mpr ⟨lexeme_of.consists hp hlexeme, ih hrest⟩

/-! ## Nodes -/

namespace Node

variable {n : Node} {ns : List Node} {width : Int}

theorem mem_tokensAll {t : Token} (hn : n ∈ ns) (ht : t ∈ n.tokens) : t ∈ tokensAll ns := by
  rw [tokensAll_eq_flatten]
  exact List.mem_flatten.mpr ⟨n.tokens, List.mem_map_of_mem hn, ht⟩

theorem formatAll_eq_map (ns : List Node) : formatAll ns = ns.map format := by
  induction ns with
  | nil => rfl
  | cons n ns ih => rw [formatAll, ih, List.map_cons]

theorem layoutAll_eq_map (depth : Int) (ns : List Node) :
    layoutAll width depth ns = ns.map (layout width depth) := by
  induction ns with
  | nil => rfl
  | cons n ns ih => rw [layoutAll, ih, List.map_cons]

/-- All tokens of the node are printed with characters that have the property `p`. -/
abbrev Consists (p : Char → Prop) (n : Node) : Prop := ∀ t ∈ n.tokens, Text.Consists p t.spelling

theorem Expression.consists_format (h : n.Expression) (hp : Plain p) (hn : n.Consists p) :
    Text.Consists p n.format := by
  induction h with
  | literal _ => exact hn _ List.mem_cons_self
  | identifier _ => exact hn _ List.mem_cons_self
  | @call ns _ ih =>
      rw [format, formatAll_eq_map]
      refine hp.parenthesized (List.forall_mem_map.mpr fun m hm => ih m hm fun t ht => hn t ?_)
      simp [tokens, mem_tokensAll hm ht]

section Definitions

variable {name : String} {params : List String} {body : List Node}

theorem consists_definition (hn : (definition name params body).Consists p) :
    Text.Consists p definitionKeyword ∧ Text.Consists p name ∧
      (∀ x ∈ params, Text.Consists p x) ∧ ∀ m ∈ body, m.Consists p := by
  refine ⟨?_, ?_, fun x hx => ?_, fun m hm t ht => hn t ?_⟩
  · exact hn (.symbol definitionKeyword) (by simp [tokens])
  · exact hn (.symbol name) (by simp [tokens])
  · exact hn (.symbol x) (by simp [tokens, hx])
  · simp [tokens, mem_tokensAll hm ht]

theorem consists_format_definition (hp : Plain p) (hbody : ∀ m ∈ body, m.Expression)
    (hn : (definition name params body).Consists p) :
    Text.Consists p (definition name params body).format := by
  obtain ⟨hkeyword, hname, hparams, hconsists⟩ := consists_definition hn
  rw [format, formatAll_eq_map]
  refine hp.parenthesized (List.forall_mem_cons.mpr ⟨hkeyword, List.forall_mem_cons.mpr ⟨hname,
    List.forall_mem_cons.mpr ⟨hp.parenthesized hparams, List.forall_mem_map.mpr ?_⟩⟩⟩)
  exact fun m hm => (hbody m hm).consists_format hp (hconsists m hm)

end Definitions

theorem consists_margin (hp : Plain p) (depth : Int) : Text.Consists p (margin depth) := by
  intro c hc
  rw [eq_space_of_mem_margin hc]
  exact hp.space

theorem consists_broken (hp : Plain p) {depth : Int} {head : String} {parts : List String}
    (hhead : Text.Consists p head) (hparts : ∀ s ∈ parts, Text.Consists p s) :
    Text.Consists p (broken depth head parts) := by
  have hlines : ∀ s ∈ head :: parts.map (margin depth ++ ·), Text.Consists p s :=
    List.forall_mem_cons.mpr ⟨hhead, List.forall_mem_map.mpr fun s hs =>
      (consists_margin hp depth).append (hparts s hs)⟩
  exact (hp.consists_lineFeed.intercalate hlines).append hp.consists_closeParen

theorem Expression.consists_layout (h : n.Expression) (hp : Plain p) (hn : n.Consists p)
    (depth : Int) : Text.Consists p (n.layout width depth) := by
  -- for all depths at once, as the parts of a broken call stand one deeper
  induction h generalizing depth with
  | literal h => exact (Expression.literal h).consists_format hp hn
  | identifier h => exact (Expression.identifier h).consists_format hp hn
  | @call ns h ih =>
      have hchildren : ∀ m ∈ ns, m.Consists p :=
        fun m hm t ht => hn t (by simp [tokens, mem_tokensAll hm ht])
      cases ns with
      | nil => exact (Expression.call h).consists_format hp hn
      | cons head operands =>
          rw [layout]
          split
          · exact (Expression.call h).consists_format hp hn
          · rw [layoutAll_eq_map]
            have hmember : ∀ m ∈ head :: operands,
                Text.Consists p (m.layout width (depth + 1)) :=
              fun m hm => ih m hm (hchildren m hm) (depth + 1)
            obtain ⟨hhead, hoperands⟩ := List.forall_mem_cons.mp hmember
            exact consists_broken hp (hp.consists_openParen.append hhead)
              (List.forall_mem_map.mpr hoperands)

theorem Statement.consists_layout (h : n.Statement) (hp : Plain p) (hn : n.Consists p)
    (depth : Int) : Text.Consists p (n.layout width depth) := by
  cases h with
  | expression h _ => exact h.consists_layout hp hn depth
  | @definition name params body _ _ hbody =>
      rw [layout]
      split
      · exact consists_format_definition hp hbody hn
      · obtain ⟨hkeyword, hname, hparams, hconsists⟩ := consists_definition hn
        rw [layoutAll_eq_map]
        refine consists_broken hp ?_ (List.forall_mem_map.mpr fun m hm =>
          (hbody m hm).consists_layout hp (hconsists m hm) (depth + 1))
        have hspace := hp.consists_space
        exact ((((hp.consists_openParen.append hkeyword).append hspace).append hname).append
          hspace).append (hp.parenthesized hparams)

/-- A program is laid out with the characters of its tokens and with those that printers add. -/
theorem WellFormed.consists_layout (h : (program ns).WellFormed) (hp : Plain p)
    (hn : (program ns).Consists p) (depth : Int) :
    Text.Consists p ((program ns).layout width depth) := by
  rw [layout, layoutAll_eq_map]
  refine hp.consists_lineFeed.intercalate (List.forall_mem_map.mpr fun m hm => ?_)
  exact (h m hm).consists_layout hp (fun t ht => hn t (mem_tokensAll hm ht)) depth

end Node

end MiniLisp
