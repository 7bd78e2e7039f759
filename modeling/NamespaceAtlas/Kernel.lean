-- The kernel, as far as it is asked here: files, namespaces, and processes
-- attached to mount namespaces. A kernel is any set of answers over a state,
-- so the answers to one question may change from one time to the next.
import NamespaceAtlas.Error

namespace NamespaceAtlas

/-- Why no sandbox was attached. -/
inductive SpawnFault where
  | failed (why : SandboxFault)
  /-- There was no pipe to it, or nothing could be read from that. -/
  | file (why : FileFault)
  /-- It did not report back in time. -/
  | late
  deriving DecidableEq, Repr

/-- A kernel with states `σ` and open files `φ`. -/
structure Kernel (σ φ : Type) where
  /-- The process that asks. -/
  caller : Pid
  /-- The directory in which it works. -/
  directory : StateM σ (Except FileFault Path)
  /-- Whether a file is a symbolic link itself. -/
  isLink : Path → StateM σ (Except FileFault Bool)
  /-- Where a symbolic link leads. -/
  linkTarget : Path → StateM σ (Except FileFault Path)
  /-- The names in a directory. -/
  listing : Path → StateM σ (Except FileFault (List Name))
  /-- The bytes of a file. -/
  contents : Path → StateM σ (Except FileFault Bytes)
  /-- Opens a file. -/
  openFile : Path → StateM σ (Except FileFault φ)
  /-- The identity of an open file. -/
  identify : φ → StateM σ (Except FileFault Identity)
  /-- The identity of the file that a path leads to. -/
  identifyAt : Path → StateM σ (Except FileFault Identity)
  /-- The flag of the species of a namespace. -/
  speciesFlag : φ → StateM σ (Except Errno Nat)
  /-- The user namespace that owns a namespace. -/
  owner : φ → StateM σ (Except Errno φ)
  /-- The parent of a PID or user namespace. -/
  parent : φ → StateM σ (Except Errno φ)
  /-- The user who created a user namespace. -/
  creator : φ → StateM σ (Except Errno UInt32)
  /-- Starts a process that enters a user namespace, if one is given, and then a mount
  namespace, and stays there. It has so long to report back; on a failure no process is
  left. -/
  spawn : φ → Option φ → Span → StateM σ (Except SpawnFault Pid)
  /-- Ends a process that was spawned. -/
  release : Pid → StateM σ Unit
  /-- Whether so much time has passed since the discovery began. -/
  isLate : Span → StateM σ Bool

/-! ## Asking -/

/-- A question to the kernel that may end in an error. -/
abbrev Ask (σ α : Type) := ExceptT Error (StateM σ) α

namespace Ask

variable {σ α : Type}

/-- A question on files. -/
def file (m : StateM σ (Except FileFault α)) : Ask σ α :=
  ExceptT.mk do return (← m).mapError Error.file

/-- A question that a system call answers. -/
def system (m : StateM σ (Except Errno α)) : Ask σ α :=
  ExceptT.mk do return (← m).mapError Error.system

/-- A question that cannot fail. -/
def sure (m : StateM σ α) : Ask σ α := ExceptT.lift m

end Ask

namespace Kernel

variable {σ φ : Type} (k : Kernel σ φ)

/-- Opens a file. -/
def opened (p : Path) : Ask σ φ := .file (k.openFile p)

/-- The identity of an open file. -/
def identityOf (f : φ) : Ask σ Identity := .file (k.identify f)

/-- The identity of the file that a path leads to. -/
def identityAt (p : Path) : Ask σ Identity := .file (k.identifyAt p)

/-- The species of a namespace. -/
def speciesOf (f : φ) : Ask σ Species := do
  let flag ← Ask.system (k.speciesFlag f)
  match Species.ofFlag? flag with
  | some s => return s
  | none => throw (.namespaces (.unknownFlag flag))

/-- The identity of the user namespace that owns a namespace. -/
def ownerOf (f : φ) : Ask σ Identity := do
  let owner ← Ask.system (k.owner f)
  k.identityOf owner

/-- A file that is opened and identified. -/
def openedNamespace (p : Path) : Ask σ (Identity × φ) := do
  let f ← k.opened p
  let id ← k.identityOf f
  return (id, f)

/-- The text of a file. -/
def textOf (p : Path) : Ask σ String := do
  let bytes ← Ask.file (k.contents p)
  match Bytes.text? bytes with
  | some text => return text
  | none => throw (.file .notText)

/-- Starts a sandbox. -/
def sandboxed (mount : φ) (user : Option φ) (limit : Span) : Ask σ Pid := do
  match ← Ask.sure (k.spawn mount user limit) with
  | .ok pid => return pid
  | .error (.failed why) => throw (.sandbox why)
  | .error (.file why) => throw (.file why)
  | .error .late => throw (.sandboxLate limit)

/-! ## Kernels with little to show -/

/-- A kernel without files, which starts nothing. -/
def bare : Kernel σ φ where
  caller := ⟨1⟩
  directory := return .ok .root
  isLink _ := return .error (.refused .noEntry)
  linkTarget _ := return .error (.refused .noEntry)
  listing _ := return .error (.refused .noEntry)
  contents _ := return .error (.refused .noEntry)
  openFile _ := return .error (.refused .noEntry)
  identify _ := return .error (.refused .noEntry)
  identifyAt _ := return .error (.refused .noEntry)
  speciesFlag _ := return .error .notTerminal
  owner _ := return .error .permission
  parent _ := return .error .permission
  creator _ := return .error .permission
  spawn _ _ _ := return .error (.failed .leftEarly)
  release _ := return ()
  isLate _ := return false

/-- A kernel where something stands at every path, and nothing is a link. Directories and files are
empty, all paths lead to one namespace, and nothing can be opened. -/
def plain : Kernel σ φ :=
  { bare with
    caller := ⟨7⟩
    isLink := fun _ => return .ok false
    listing := fun _ => return .ok []
    contents := fun _ => return .ok []
    identifyAt := fun _ => return .ok ⟨4, 1⟩ }

end Kernel

end NamespaceAtlas
