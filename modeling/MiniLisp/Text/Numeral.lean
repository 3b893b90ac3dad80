/-
# MiniLisp.Text.Numeral — decimal numerals.

Two readings of digits live here.  Literals in programs use the ten ASCII digits only.  Settings are
more generous: a numeral there is one optional sign and then digits of any script, where a single
underscore may stand between two digits.  In both, a numeral of more than `maxDigits` digits is too
long to be converted.
-/

namespace MiniLisp.Text

/-- The longest numeral that is converted to a number. -/
def maxDigits : Nat := 4300

/-! ## ASCII digits -/

/-- One of the ten ASCII digits. -/
def isDigit (c : Char) : Bool := '0' ≤ c && c ≤ '9'

/-- The number that a run of ASCII digits denotes. -/
def digitsValue (digits : List Char) : Nat :=
  digits.foldl (fun n c => 10 * n + (c.toNat - '0'.toNat)) 0

/-! ## Digits of every script -/

/-- The zeros of the scripts with decimal digits; the nine other digits follow each zero. -/
def scriptZeros : List Nat :=
  [0x30, 0x660, 0x6f0, 0x7c0, 0x966, 0x9e6, 0xa66, 0xae6, 0xb66, 0xbe6, 0xc66, 0xce6, 0xd66, 0xde6,
   0xe50, 0xed0, 0xf20, 0x1040, 0x1090, 0x17e0, 0x1810, 0x1946, 0x19d0, 0x1a80, 0x1a90, 0x1b50,
   0x1bb0, 0x1c40, 0x1c50, 0xa620, 0xa8d0, 0xa900, 0xa9d0, 0xa9f0, 0xaa50, 0xabf0, 0xff10, 0x104a0,
   0x10d30, 0x11066, 0x110f0, 0x11136, 0x111d0, 0x112f0, 0x11450, 0x114d0, 0x11650, 0x116c0,
   0x11730, 0x118e0, 0x11950, 0x11c50, 0x11d50, 0x11da0, 0x16a60, 0x16ac0, 0x16b50, 0x1d7ce,
   0x1d7d8, 0x1d7e2, 0x1d7ec, 0x1d7f6, 0x1e140, 0x1e2f0, 0x1e950, 0x1fbf0]

/-- The value of a decimal digit of any script. -/
def digitValue? (c : Char) : Option Nat :=
  (scriptZeros.find? fun z => z ≤ c.toNat && c.toNat < z + 10).map (c.toNat - ·)

/-- The digits of an unsigned numeral, most significant first: digits, with single underscores
allowed between two of them. -/
def unsigned? : List Char → Option (List Nat)
  | [] => none
  | [c] => (digitValue? c).map ([·])
  | c :: '_' :: rest => do return (← digitValue? c) :: (← unsigned? rest)
  | c :: rest => do return (← digitValue? c) :: (← unsigned? rest)

/-- The natural number that a digit list denotes, unless it is too long. -/
def ofDigits? (digits : List Nat) : Option Nat :=
  if digits.length ≤ maxDigits then some (digits.foldl (10 * · + ·) 0) else none

/-- The number a signed numeral denotes; `none` when the text is no numeral. -/
def signed? : List Char → Option Int
  | '-' :: rest => do return -((← ofDigits? (← unsigned? rest) : Nat) : Int)
  | '+' :: rest => do return ((← ofDigits? (← unsigned? rest) : Nat) : Int)
  | text => do return ((← ofDigits? (← unsigned? text) : Nat) : Int)

end MiniLisp.Text
