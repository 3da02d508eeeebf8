/-!
# Numerals

An integer is written with the decimal digits of any script, with a sign before them or not. One low line may stand between
two digits, and blanks may stand around the whole.
-/

namespace ScopeFlow

/-- The digits zero of all scripts; the other nine follow each of them. -/
def zeroDigits : List Nat :=
  [0x30, 0x660, 0x6f0, 0x7c0, 0x966, 0x9e6, 0xa66, 0xae6, 0xb66, 0xbe6, 0xc66, 0xce6, 0xd66, 0xde6, 0xe50, 0xed0,
    0xf20, 0x1040, 0x1090, 0x17e0, 0x1810, 0x1946, 0x19d0, 0x1a80, 0x1a90, 0x1b50, 0x1bb0, 0x1c40, 0x1c50, 0xa620,
    0xa8d0, 0xa900, 0xa9d0, 0xa9f0, 0xaa50, 0xabf0, 0xff10, 0x104a0, 0x10d30, 0x11066, 0x110f0, 0x11136, 0x111d0,
    0x112f0, 0x11450, 0x114d0, 0x11650, 0x116c0, 0x11730, 0x118e0, 0x11950, 0x11c50, 0x11d50, 0x11da0, 0x16a60,
    0x16ac0, 0x16b50, 0x1d7ce, 0x1d7d8, 0x1d7e2, 0x1d7ec, 0x1d7f6, 0x1e140, 0x1e2f0, 0x1e950, 0x1fbf0]

def digitValue? (c : Char) : Option Nat :=
  (zeroDigits.find? (fun z => z ≤ c.toNat && c.toNat < z + 10)).map (fun z => c.toNat - z)

/-- Whether a character is a blank around a numeral. -/
def isBlankChar (c : Char) : Bool :=
  [0x9, 0xa, 0xb, 0xc, 0xd, 0x20, 0x85, 0xa0, 0x1680, 0x2028, 0x2029, 0x202f, 0x205f, 0x3000].contains c.toNat ||
    (0x2000 ≤ c.toNat && c.toNat ≤ 0x200a)

/-- Text without blanks at both ends. -/
def trimBlanks (cs : List Char) : List Char := ((cs.dropWhile isBlankChar).reverse.dropWhile isBlankChar).reverse

/-- Reads digits behind a number; a low line has to stand between two digits. -/
def readDigits (n : Nat) : List Char → Option Nat
  | [] => some n
  | '_' :: c :: cs => (digitValue? c).bind fun d => readDigits (10 * n + d) cs
  | c :: cs => (digitValue? c).bind fun d => readDigits (10 * n + d) cs

/-- Reads a numeral without a sign. It has at most 4300 digits. -/
def readNatural : List Char → Option Nat
  | [] => none
  | c :: cs =>
    if 4300 < ((c :: cs).filter (fun c => c != '_')).length then none
    else (digitValue? c).bind fun d => readDigits d cs

def readInteger (text : String) : Option Int :=
  match trimBlanks text.toList with
  | '-' :: cs => (readNatural cs).map fun n => -(n : Int)
  | '+' :: cs => (readNatural cs).map Int.ofNat
  | cs => (readNatural cs).map Int.ofNat

end ScopeFlow
