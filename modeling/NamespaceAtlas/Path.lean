-- Paths. A path keeps its bytes as they were given; its parts say where it
-- leads, and two paths with the same parts lead to the same place.
import NamespaceAtlas.Text.Bytes
import NamespaceAtlas.Text.Pieces
import NamespaceAtlas.Text.Blank
import NamespaceAtlas.Identity
import NamespaceAtlas.Species

namespace NamespaceAtlas

/-- A name of one directory entry. -/
abbrev Name := Bytes

/-- A path, byte for byte. -/
structure Path where
  bytes : Bytes
  deriving DecidableEq, Repr

namespace Path

/-- The byte between the parts of a path. -/
def slash : UInt8 := 0x2F

/-- The name `.`, which leads nowhere. -/
def hereName : Name := [0x2E]

/-- The name `..`, which leads to the parent. -/
def parentName : Name := [0x2E, 0x2E]

/-- The path that a text spells. -/
def ofText (text : String) : Path := ⟨Bytes.ofText text⟩

instance : Coe String Path := ⟨ofText⟩

/-- The path without any bytes. -/
def empty : Path := ⟨[]⟩

/-- The root directory. -/
def root : Path := ⟨[slash]⟩

/-- A path as messages show it. -/
def text (p : Path) : String := p.bytes.lossy

/-- A path that starts at the root. -/
def isAbsolute (p : Path) : Bool := p.bytes.head? == some slash

/-! ## Parts -/

/-- A part of a path. -/
inductive Part where
  | root
  | here
  | parent
  | name (name : Name)
  deriving DecidableEq, Repr

/-- The names between the slashes, empty ones among them. -/
def segments (p : Path) : List Name := pieces (· == slash) p.bytes

/-- The part that a segment stands for, if it stands for one. A `.` stands for a part only
where it opens a relative path. -/
def part? (s : Name) : Option Part :=
  if s = [] ∨ s = hereName then none
  else if s = parentName then some .parent
  else some (.name s)

/-- The parts of a path. Empty segments and inner `.` have none. -/
def parts (p : Path) : List Part :=
  let first :=
    if p.isAbsolute then [Part.root]
    else if p.segments.head? = some hereName then [Part.here]
    else []
  first ++ p.segments.filterMap part?

/-- Whether two paths have the same parts. -/
def alike (p q : Path) : Bool := p.parts == q.parts

/-- Whether a path begins with all parts of another. -/
def startsWith (p beginning : Path) : Bool := beginning.parts.isPrefixOf p.parts

/-- The names to follow from the root, `..` among them. -/
def steps (p : Path) : List Name :=
  p.parts.filterMap fun
    | .name n => some n
    | .parent => some parentName
    | .root | .here => none

/-! ## Joining and parting -/

/-- A path below another. An absolute path takes the place of the first. -/
def join (p q : Path) : Path :=
  if q.isAbsolute then q
  else
    match p.bytes.getLast? with
    | none => q
    | some b => if b = slash then ⟨p.bytes ++ q.bytes⟩ else ⟨p.bytes ++ slash :: q.bytes⟩

/-- A named entry below a path. -/
def child (p : Path) (name : Name) : Path := p.join ⟨name⟩

/-- The relative path made of names. -/
def ofNames (names : List Name) : Path := ⟨joined [slash] names⟩

/-- A segment that stands for no part inside a path. -/
def isVoid (s : Name) : Bool := (part? s).isNone

/-- The segments after a number of parts, counted without the void ones. -/
def dropParts : Nat → List Name → List Name
  | 0, l => l
  | _ + 1, [] => []
  | n + 1, s :: rest => if isVoid s then dropParts (n + 1) rest else dropParts n rest

/-- The segments without the void ones at either end. -/
def trimVoid (l : List Name) : List Name :=
  ((l.dropWhile isVoid).reverse.dropWhile isVoid).reverse

/-- What is left of an absolute path after `n` parts past the root. Segments between two
parts that are left stay as they were given. -/
def afterParts (p : Path) (n : Nat) : Path := ofNames (trimVoid (dropParts n p.segments))

/-! ## Paths of procfs -/

/-- Where procfs is mounted by default. -/
def proc : Path := "/proc"

/-- The process that a path names. -/
inductive Who where
  | caller
  | process (pid : Pid)
  deriving DecidableEq, Repr

/-- The process named by a path `/proc/<pid>/…` or `/proc/self/…`, and the path after it. -/
def process? (p : Path) : Option (Who × Path) :=
  match p.parts with
  | .root :: .name dir :: .name who :: _ =>
    if dir = Bytes.ofText "proc" then
      if who = Bytes.ofText "self" then some (.caller, p.afterParts 2)
      else do
        let digits ← Bytes.text? who
        let pid ← (Pid.read digits.toList).toOption
        return (.process pid, p.afterParts 2)
    else none
  | _ => none

/-- A file of a process below a procfs. -/
def ofProcess (procfs : Path) (pid : Pid) : Path := procfs.join pid.text

/-- The file that stands for a namespace of a process. -/
def ofNamespace (procfs : Path) (pid : Pid) (species : Species) : Path :=
  ((ofProcess procfs pid).join "ns").join species.name

end Path

end NamespaceAtlas
