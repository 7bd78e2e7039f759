-- Decimal numbers as they are written and read. A reader takes digits and an
-- optional sign, nothing else, and says why it refuses a text.

namespace NamespaceAtlas

/-- Why a text is no number. -/
inductive NumberFault where
  | empty
  | badDigit
  | tooLarge
  | tooSmall
  deriving DecidableEq, Repr

namespace NumberFault

/-- The words for a fault. -/
def message : NumberFault → String
  | empty => "cannot parse integer from empty string"
  | badDigit => "invalid digit found in string"
  | tooLarge => "number too large to fit in target type"
  | tooSmall => "number too small to fit in target type"

end NumberFault

namespace Decimal

/-! ## Writing -/

/-- The character of one digit. -/
def digitChar (d : Nat) : Char := Char.ofNat (48 + d)

/-- The digits of a number, without leading zeros. -/
def digits (n : Nat) : List Char :=
  if n < 10 then [digitChar n] else digits (n / 10) ++ [digitChar (n % 10)]

/-- A number in decimal. -/
def text (n : Nat) : String := String.ofList (digits n)

/-- A signed number in decimal. -/
def signedText : Int → String
  | .ofNat n => text n
  | .negSucc n => "-" ++ text (n + 1)

/-- The digits of a number to the base sixteen, in small letters. -/
def hexDigits (n : Nat) : List Char :=
  if n < 16 then [Nat.digitChar n] else hexDigits (n / 16) ++ [Nat.digitChar (n % 16)]

/-- A number to the base sixteen, after `0x`. -/
def hexText (n : Nat) : String := "0x" ++ String.ofList (hexDigits n)

/-! ## Reading -/

/-- The value of a digit. -/
def digit? (c : Char) : Option Nat :=
  if '0' ≤ c ∧ c ≤ '9' then some (c.toNat - 48) else none

/-- Reads digits onto a value, from the left. The first thing wrong is reported: a
character that is no digit, or a value past the limit. -/
def readDigits (limit : Nat) (past : NumberFault) : Nat → List Char → Except NumberFault Nat
  | value, [] => .ok value
  | value, c :: rest =>
    match digit? c with
    | none => .error .badDigit
    | some d =>
      if value * 10 + d ≤ limit then readDigits limit past (value * 10 + d) rest
      else .error past

/-- Reads digits of which there is at least one. -/
def readSome (limit : Nat) (past : NumberFault) : List Char → Except NumberFault Nat
  | [] => .error .badDigit
  | cs => readDigits limit past 0 cs

/-- Reads a number from 0 to `limit`. A plus may stand in front. -/
def readNat (limit : Nat) : List Char → Except NumberFault Nat
  | [] => .error .empty
  | '+' :: rest => readSome limit .tooLarge rest
  | cs => readSome limit .tooLarge cs

/-- Reads a number from `-least` to `limit`. A plus or a minus may stand in front. -/
def readInt (least limit : Nat) : List Char → Except NumberFault Int
  | [] => .error .empty
  | '+' :: rest => (readSome limit .tooLarge rest).map Int.ofNat
  | '-' :: rest => (readSome least .tooSmall rest).map fun n => -Int.ofNat n
  | cs => (readSome limit .tooLarge cs).map Int.ofNat

/-- Reads a word of 64 bits. -/
def readUInt64 (cs : List Char) : Except NumberFault UInt64 :=
  (readNat (UInt64.size - 1) cs).map UInt64.ofNat

/-- Reads a word of 32 bits. -/
def readUInt32 (cs : List Char) : Except NumberFault UInt32 :=
  (readNat (UInt32.size - 1) cs).map UInt32.ofNat

/-- Reads a signed word of 32 bits. -/
def readInt32 (cs : List Char) : Except NumberFault Int32 :=
  (readInt 2147483648 2147483647 cs).map Int32.ofInt

end Decimal

end NamespaceAtlas
