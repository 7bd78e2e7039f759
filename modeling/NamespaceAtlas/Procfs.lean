-- The files of procfs that describe a process: its stat line, its status and
-- its arguments.
import NamespaceAtlas.Process

namespace NamespaceAtlas.Procfs

/-! ## The stat line -/

/-- What is wrong with a stat line. -/
inductive StatFault where
  | noOpening
  | noClosing
  | unbalanced
  | notPid (text : List Char) (why : NumberFault)
  | tooFewFields
  | badStart
  deriving DecidableEq, Repr

/-- The error for a stat line. -/
def StatFault.error (line : String) : StatFault → Error
  | noOpening => malformed "missing '('"
  | noClosing => malformed "missing ')'"
  | unbalanced => malformed "unbalanced name"
  | notPid text why => .noPid (String.ofList text) why
  | tooFewFields => malformed "too few fields"
  | badStart => malformed "invalid starttime"
where
  malformed (problem : String) : Error :=
    .unreadable "process stat" (problem ++ ": " ++ quoted line)

/-- The process of the text before the name, the name, and the text after it. -/
def ofStatParts (before name after : List Char) : Except StatFault Process := do
  let pid ← readPid (trim before)
  let fields := words after
  if fields.length < 20 then throw .tooFewFields
  let parentPid ← readPid (fields.getD 1 [])
  let started ← (Decimal.readUInt64 (fields.getD 19 [])).mapError fun _ => .badStart
  return { pid, parentPid, name := String.ofList name, started }
where
  readPid (text : List Char) : Except StatFault Pid :=
    (Pid.read text).mapError (.notPid text)

/-- The process of a stat line. Its name stands between the first opening bracket and the
last closing one, so it may hold brackets and blanks of its own. -/
def ofStatChars (line : List Char) : Except StatFault Process := do
  let some (before, rest) := cutAt (· == '(') line | throw .noOpening
  if ')' ∉ line then throw .noClosing
  let some (name, after) := cutAtLast (· == ')') rest | throw .unbalanced
  ofStatParts before name after

/-- The process of a stat line. -/
def ofStat (line : String) : Except Error Process :=
  (ofStatChars line.toList).mapError (StatFault.error line)

/-! ## The other files -/

/-- The numbers after `NSpid:` in a status file; what is no number there is passed over. -/
def innerPidsOf (status : String) : List Pid :=
  match (lines status.toList).findSome? (afterPrefix? "NSpid:".toList) with
  | none => []
  | some rest => (words rest).filterMap fun word => (Pid.read word).toOption

/-- The arguments in a file where each ends with a NUL byte. Empty ones are left out. -/
def argumentsOf (raw : Bytes) : List String :=
  ((pieces (· == 0) raw).filter (!·.isEmpty)).map Bytes.lossy

end NamespaceAtlas.Procfs
