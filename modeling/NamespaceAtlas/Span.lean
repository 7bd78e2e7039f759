-- Spans of time, in seconds and nanoseconds, and how they are written.
import NamespaceAtlas.Number.Decimal

namespace NamespaceAtlas

/-- A span of time. The nanoseconds make less than a second. -/
structure Span where
  seconds : UInt64
  nanos : UInt32
  nanos_lt : nanos.toNat < 1000000000 := by decide
  deriving DecidableEq, Repr

namespace Span

/-- So many seconds. -/
def ofSeconds (n : UInt64) : Span := ⟨n, 0, by decide⟩

/-- The span of seconds and nanoseconds, where whole seconds of the nanoseconds are
carried. There is none if the seconds do not fit a word. -/
def carried? (seconds nanos : Nat) : Option Span :=
  if seconds + nanos / 1000000000 < UInt64.size then
    some {
      seconds := UInt64.ofNat (seconds + nanos / 1000000000)
      nanos := UInt32.ofNat (nanos % 1000000000)
      nanos_lt := by
        have : nanos % 1000000000 < 1000000000 := Nat.mod_lt _ (by decide)
        simp only [UInt32.toNat_ofNat']
        omega }
  else none

/-- The span of no time. -/
def zero : Span := ofSeconds 0

/-- Whether no time passes. -/
def isZero (s : Span) : Bool := s.seconds == 0 && s.nanos == 0

/-! ## Text -/

/-- Puts zeros in front of digits, up to a width. -/
def padded (width : Nat) (ds : List Char) : List Char :=
  List.replicate (width - ds.length) '0' ++ ds

/-- The decimal places of a fraction, without the zeros at the end. -/
def places (width part : Nat) : List Char :=
  ((padded width (Decimal.digits part)).reverse.dropWhile (· == '0')).reverse

/-- A number with a fraction of so many decimal places. -/
def fraction (whole width part : Nat) : String :=
  if part = 0 then Decimal.text whole
  else Decimal.text whole ++ "." ++ String.ofList (places width part)

/-- A span in the largest unit of which it holds one. -/
def text (s : Span) : String :=
  let n := s.nanos.toNat
  if s.seconds ≠ 0 then fraction s.seconds.toNat 9 n ++ "s"
  else if n ≥ 1000000 then fraction (n / 1000000) 6 (n % 1000000) ++ "ms"
  else if n ≥ 1000 then fraction (n / 1000) 3 (n % 1000) ++ "µs"
  else Decimal.text n ++ "ns"

end Span

end NamespaceAtlas
