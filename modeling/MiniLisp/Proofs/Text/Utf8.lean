/-
# MiniLisp.Proofs.Text.Utf8 — decoding undoes encoding.

The decoder is strict, so what it accepts is narrower than the pattern of the bits: each first byte
has its own ranges for the bytes behind it.  The bytes of every character are in these ranges, and
so every text comes back from its own bytes.
-/
import Mathlib.Tactic.IntervalCases
import MiniLisp.Text.Utf8

namespace MiniLisp.Text

variable {offset start code n : Nat} {done : List Char} {rest : List UInt8}
  {next next' : Nat × Nat} {later : List (Nat × Nat)}

/-! ## One byte -/

theorem toNat_ofNat_byte (h : n < 256) : (UInt8.ofNat n).toNat = n := by
  simp [Nat.mod_eq_of_lt h]

theorem decodeUtf8From_single (h : n < 0x80) :
    decodeUtf8From offset done none (UInt8.ofNat n :: rest) =
      decodeUtf8From (offset + 1) (Char.ofNat n :: done) none rest := by
  have hbyte : (UInt8.ofNat n).toNat = n := toNat_ofNat_byte (by omega)
  have hlt : UInt8.ofNat n < 0x80 := by
    rw [UInt8.lt_iff_toNat_lt, hbyte]
    exact h
  rw [decodeUtf8From, if_pos hlt, hbyte]

theorem decodeUtf8From_lead (hlo : 0x80 ≤ n) (hhi : n < 256)
    (h : lead? n = some (code, next, later)) :
    decodeUtf8From offset done none (UInt8.ofNat n :: rest) =
      decodeUtf8From (offset + 1) done (some ⟨offset, code, next, later⟩) rest := by
  have hbyte : (UInt8.ofNat n).toNat = n := toNat_ofNat_byte hhi
  have hnot : ¬UInt8.ofNat n < 0x80 := by
    rw [UInt8.lt_iff_toNat_lt, hbyte]
    exact Nat.not_lt.mpr hlo
  simp only [decodeUtf8From, if_neg hnot, hbyte, h]

/-- A byte in the middle of a character adds its six bits. -/
theorem decodeUtf8From_middle (hn : n < 64) (h : next.1 ≤ n + 128 ∧ n + 128 ≤ next.2) :
    decodeUtf8From offset done (some ⟨start, code, next, next' :: later⟩)
        (UInt8.ofNat (n + 128) :: rest) =
      decodeUtf8From (offset + 1) done (some ⟨start, 64 * code + n, next', later⟩) rest := by
  have hbyte : (UInt8.ofNat (n + 128)).toNat = n + 128 := toNat_ofNat_byte (by omega)
  simp only [decodeUtf8From, hbyte, if_pos h, Nat.add_sub_cancel]

/-- The last byte of a character completes it. -/
theorem decodeUtf8From_last (hn : n < 64) (h : next.1 ≤ n + 128 ∧ n + 128 ≤ next.2) :
    decodeUtf8From offset done (some ⟨start, code, next, []⟩) (UInt8.ofNat (n + 128) :: rest) =
      decodeUtf8From (offset + 1) (Char.ofNat (64 * code + n) :: done) none rest := by
  have hbyte : (UInt8.ofNat (n + 128)).toNat = n + 128 := toNat_ofNat_byte (by omega)
  simp only [decodeUtf8From, hbyte, if_pos h, Nat.add_sub_cancel]

/-! ## First bytes -/

theorem lead?_two {k : Nat} (h : 2 ≤ k) (h' : k < 32) :
    lead? (k + 192) = some (k, trailing, []) := by
  rw [lead?, if_pos (by omega), Nat.add_sub_cancel]

/-- With three bytes, the least first byte leaves out overlong forms, and another the surrogates. -/
theorem lead?_three {k : Nat} (h : k < 16) : lead? (k + 224) =
    some (k, (if k = 0 then 0xa0 else 0x80, if k = 13 then 0x9f else 0xbf), [trailing]) := by
  interval_cases k <;> rfl

/-- With four bytes, the least first byte leaves out overlong forms, and the greatest what is behind
the last character. -/
theorem lead?_four {k : Nat} (h : k < 5) : lead? (k + 240) =
    some (k, (if k = 0 then 0x90 else 0x80, if k = 4 then 0x8f else 0xbf),
      [trailing, trailing]) := by
  interval_cases k <;> rfl

/-! ## One character -/

/-- The bytes of a character are decoded as this character. -/
theorem decodeUtf8From_char (c : Char) :
    ∃ offset', decodeUtf8From offset done none (String.utf8EncodeChar c ++ rest) =
      decodeUtf8From offset' (c :: done) none rest := by
  have hvalid : c.toNat < 0xd800 ∨ 0xdfff < c.toNat ∧ c.toNat < 0x110000 := c.valid
  have hchar : ∀ {m}, m = c.toNat → Char.ofNat m = c := by
    rintro _ rfl
    exact Char.ofNat_toNat c
  have hval : c.val.toNat = c.toNat := rfl
  have htrailing : ∀ m < 64, trailing.1 ≤ m + 128 ∧ m + 128 ≤ trailing.2 := by decide
  have hlow : ∀ m, m % 64 < 64 := fun m => Nat.mod_lt m (by decide)
  simp only [String.utf8EncodeChar, hval]
  split
  · next h₁ =>
    refine ⟨offset + 1, ?_⟩
    rw [List.singleton_append, decodeUtf8From_single (by omega), hchar rfl]
  split
  · next h₁ h₂ =>
    have hlead : lead? (c.toNat / 64 % 32 + 192) = _ := lead?_two (by omega) (by omega)
    refine ⟨offset + 1 + 1, ?_⟩
    simp only [List.cons_append, List.nil_append]
    rw [decodeUtf8From_lead (by omega) (by omega) hlead,
      decodeUtf8From_last (hlow _) (htrailing _ (hlow _)), hchar (by omega)]
  split
  · next h₁ h₂ h₃ =>
    have hlead : lead? (c.toNat / 4096 % 16 + 224) = _ := lead?_three (by omega)
    refine ⟨offset + 1 + 1 + 1, ?_⟩
    simp only [List.cons_append, List.nil_append]
    rw [decodeUtf8From_lead (by omega) (by omega) hlead, decodeUtf8From_middle (hlow _) ?_,
      decodeUtf8From_last (hlow _) (htrailing _ (hlow _)), hchar (by omega)]
    -- no overlong form and no surrogate
    constructor <;> dsimp only <;> split <;> omega
  · next h₁ h₂ h₃ =>
    have hlead : lead? (c.toNat / 262144 % 8 + 240) = _ := lead?_four (by omega)
    refine ⟨offset + 1 + 1 + 1 + 1, ?_⟩
    simp only [List.cons_append, List.nil_append]
    rw [decodeUtf8From_lead (by omega) (by omega) hlead, decodeUtf8From_middle (hlow _) ?_,
      decodeUtf8From_middle (hlow _) (htrailing _ (hlow _)),
      decodeUtf8From_last (hlow _) (htrailing _ (hlow _)), hchar (by omega)]
    -- no overlong form and no character behind the last
    constructor <;> dsimp only <;> split <;> omega

/-! ## Texts -/

theorem decodeUtf8From_chars (text : List Char) :
    decodeUtf8From offset done none (text.flatMap String.utf8EncodeChar) =
      .ok (done.reverse ++ text) := by
  induction text generalizing offset done with
  | nil => simp [decodeUtf8From]
  | cons c cs ih =>
      rw [List.flatMap_cons]
      obtain ⟨offset', heq⟩ :=
        @decodeUtf8From_char offset done (cs.flatMap String.utf8EncodeChar) c
      rw [heq, ih, List.reverse_cons, List.append_assoc, List.singleton_append]

/-- Every text comes back from its bytes. -/
theorem decodeUtf8_toUTF8 (text : String) : decodeUtf8 text.toUTF8 = .ok text.toList := by
  have hbytes : text.toUTF8.data.toList = text.toList.flatMap String.utf8EncodeChar := by
    have hencode : (String.ofList text.toList).toByteArray = text.toList.utf8Encode :=
      String.toByteArray_ofList
    rw [String.ofList_toList] at hencode
    rw [String.toUTF8_eq_toByteArray, hencode, List.utf8Encode, List.data_toByteArray]
  rw [decodeUtf8, hbytes, decodeUtf8From_chars]
  rfl

end MiniLisp.Text
