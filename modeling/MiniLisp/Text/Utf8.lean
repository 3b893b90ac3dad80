/-
# MiniLisp.Text.Utf8 — strict decoding of UTF-8.

A text is a sequence of encoded characters.  The first byte of a character fixes how many bytes
follow and the range of the first of these, so that surrogates, overlong forms and codes past the
last character have no encoding.  A fault is reported at the first byte of the character it spoils.
-/

namespace MiniLisp.Text

/-! ## Faults -/

/-- What is wrong with an undecodable text. -/
inductive Utf8Fault where
  /-- A byte that begins no character. -/
  | start
  /-- A byte that cannot continue the character begun before it. -/
  | continuation
  /-- The text ends inside a character. -/
  | truncated
deriving DecidableEq, Repr

/-- The wording of a fault. -/
def Utf8Fault.reason : Utf8Fault → String
  | .start => "invalid start byte"
  | .continuation => "invalid continuation byte"
  | .truncated => "unexpected end of data"

/-! ## Decoding, one byte at a time -/

/-- A character whose last bytes are still to come. -/
structure Utf8Pending where
  /-- The offset of its first byte. -/
  start : Nat
  /-- The bits read so far. -/
  code : Nat
  /-- The ranges of the bytes that must follow, at least one. -/
  next : Nat × Nat
  later : List (Nat × Nat)

/-- The range of a continuation byte where nothing narrower is asked for. -/
def trailing : Nat × Nat := (0x80, 0xbf)

/-- The bits of a first byte and the ranges of the bytes after it; `none` when the byte begins no
character of more than one byte. -/
def lead? (b : Nat) : Option (Nat × (Nat × Nat) × List (Nat × Nat)) :=
  if 0xc2 ≤ b ∧ b ≤ 0xdf then some (b - 0xc0, trailing, [])
  else if b = 0xe0 then some (0, (0xa0, 0xbf), [trailing])
  else if b = 0xed then some (0xd, (0x80, 0x9f), [trailing])
  else if 0xe1 ≤ b ∧ b ≤ 0xef then some (b - 0xe0, trailing, [trailing])
  else if b = 0xf0 then some (0, (0x90, 0xbf), [trailing, trailing])
  else if 0xf1 ≤ b ∧ b ≤ 0xf3 then some (b - 0xf0, trailing, [trailing, trailing])
  else if b = 0xf4 then some (4, (0x80, 0x8f), [trailing, trailing])
  else none

/-- Decodes the bytes from `offset` on, after the characters `done` (last first) and the beginning
of the character `pending`. -/
def decodeUtf8From (offset : Nat) (done : List Char) :
    Option Utf8Pending → List UInt8 → Except (Utf8Fault × Nat) (List Char)
  | none, [] => .ok done.reverse
  | some p, [] => .error (.truncated, p.start)
  | none, b :: rest =>
    if b < 0x80 then decodeUtf8From (offset + 1) (Char.ofNat b.toNat :: done) none rest
    else match lead? b.toNat with
      | none => .error (.start, offset)
      | some (code, next, later) =>
        decodeUtf8From (offset + 1) done (some ⟨offset, code, next, later⟩) rest
  | some p, b :: rest =>
    if p.next.1 ≤ b.toNat ∧ b.toNat ≤ p.next.2 then
      let code := 64 * p.code + (b.toNat - 0x80)
      match p.later with
      | [] => decodeUtf8From (offset + 1) (Char.ofNat code :: done) none rest
      | next :: later => decodeUtf8From (offset + 1) done (some ⟨p.start, code, next, later⟩) rest
    else .error (.continuation, p.start)

/-- The characters that the bytes encode, or the first fault and its offset. -/
def decodeUtf8 (bytes : ByteArray) : Except (Utf8Fault × Nat) (List Char) :=
  decodeUtf8From 0 [] none bytes.data.toList

end MiniLisp.Text
