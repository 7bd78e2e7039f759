-- Mount tables, one line for each mount. Blanks inside a path are written as
-- a backslash and three octal digits; a path keeps its bytes.
import NamespaceAtlas.Error

namespace NamespaceAtlas

/-- One mount. -/
structure Mount where
  id : UInt32
  parentId : UInt32
  major : UInt32
  minor : UInt32
  /-- The root of the mount in its file system. -/
  root : String
  /-- Where it is mounted, seen from the root of the process. -/
  point : Path
  options : String
  /-- Tagged fields, such as `shared:1`. -/
  tags : List String
  fsType : String
  source : String
  superOptions : String
  deriving DecidableEq, Repr

namespace Mount

/-- Whether a namespace file is mounted here. -/
def isNamespace (m : Mount) : Bool := m.fsType == "nsfs"

/-! ## Escapes -/

/-- The value of an octal digit. -/
def octal? (b : UInt8) : Option Nat :=
  if 0x30 ≤ b ∧ b ≤ 0x37 then some (b.toNat - 0x30) else none

/-- The byte of three octal digits, if they make one. -/
def escaped? (a b c : UInt8) : Option UInt8 := do
  let value := (← octal? a) * 64 + (← octal? b) * 8 + (← octal? c)
  if value < 256 then some (UInt8.ofNat value) else none

/-- Undoes the escapes. A backslash that begins none stands for itself. -/
def unescape : Bytes → Bytes
  | 0x5C :: a :: b :: c :: rest =>
    match escaped? a b c with
    | some byte => byte :: unescape rest
    | none => 0x5C :: unescape (a :: b :: c :: rest)
  | byte :: rest => byte :: unescape rest
  | [] => []

/-! ## Lines -/

/-- What is wrong with a line of a mount table. -/
inductive LineFault where
  | noSeparator
  | tooFewFields
  | badDevice
  | badNumber
  deriving DecidableEq, Repr

/-- The words for a fault. -/
def LineFault.message : LineFault → String
  | noSeparator => "missing separator"
  | tooFewFields => "too few fields"
  | badDevice => "invalid device"
  | badNumber => "invalid number"

/-- The field that ends the tagged fields. -/
def separator : Bytes := [0x2D]

/-- A number in a field. -/
def number (field : Bytes) : Except LineFault UInt32 :=
  match (Bytes.text? field).bind fun text => (Decimal.readUInt32 text.toList).toOption with
  | some n => .ok n
  | none => .error .badNumber

/-- The mount of the fields before the separator and those after it. -/
def ofFields : List Bytes → List Bytes → Except LineFault Mount
  | id :: parentId :: device :: root :: point :: options :: tags,
    fsType :: source :: superOptions :: _ => do
    let some (major, minor) := cutAt (· == 0x3A) device | throw .badDevice
    return {
      id := ← number id
      parentId := ← number parentId
      major := ← number major
      minor := ← number minor
      root := (unescape root).lossy
      point := ⟨unescape point⟩
      options := options.lossy
      tags := tags.map Bytes.lossy
      fsType := fsType.lossy
      source := (unescape source).lossy
      superOptions := superOptions.lossy }
  | _, _ => .error .tooFewFields

/-- The fields before the first separator, and those after it. -/
def aroundSeparator (fields : List Bytes) : Option (List Bytes × List Bytes) :=
  cutAt (· == separator) fields

/-- The mount of a line, or what is wrong with it. -/
def ofFieldsOf (line : Bytes) : Except LineFault Mount :=
  match aroundSeparator (pieces (· == 0x20) line) with
  | none => .error .noSeparator
  | some (before, after) => ofFields before after

/-- The mount of a line. -/
def ofLine (line : Bytes) : Except Error Mount :=
  (ofFieldsOf line).mapError fun fault =>
    .unreadable "mountinfo" (fault.message ++ ": " ++ quoted line.lossy)

/-- The mounts of a table. Lines that give none are passed over. -/
def ofTable (table : Bytes) : List Mount :=
  (pieces (· == 0x0A) table).filterMap fun line =>
    if line.isEmpty then none else (ofFieldsOf line).toOption

end Mount

end NamespaceAtlas
