-- What can go wrong: a cause for each kind of failure, and one function that
-- puts it into words.
import NamespaceAtlas.Errno
import NamespaceAtlas.Span
import NamespaceAtlas.Identity
import NamespaceAtlas.Species
import NamespaceAtlas.Reference
import NamespaceAtlas.Text.Quoted

namespace NamespaceAtlas

/-! ## Files -/

/-- Why an operation on files failed. -/
inductive FileFault where
  /-- The kernel refused it. -/
  | refused (errno : Errno)
  /-- The path holds a NUL byte, so no system call can take it. -/
  | nulInPath
  /-- The file was to be read as text and is not UTF-8. -/
  | notText
  /-- More symbolic links would have to be followed than one resolution may. -/
  | tooManyLinks (path : Path)
  /-- A failure put in words by whoever reports it. -/
  | stated (text : String)
  deriving DecidableEq, Repr

namespace FileFault

/-- The words for a fault. -/
def message : FileFault → String
  | refused e => e.sentence ++ " (os error " ++ Decimal.signedText e.number ++ ")"
  | nulInPath => "file name contained an unexpected NUL byte"
  | notText => "stream did not contain valid UTF-8"
  | tooManyLinks p => "too many levels of symbolic links resolving " ++ p.text
  | stated text => text

/-- Whether there is no such file. -/
def isMissing (f : FileFault) : Bool := f = refused .noEntry

end FileFault

/-! ## Namespaces and references -/

/-- Why an operation on namespaces failed. -/
inductive NamespaceFault where
  | ownParent (species : Species) (child : Identity)
  | unknownParent (species : Species) (parent : Identity)
  | noHierarchy (species : Species) (child : Identity)
  | unknownFlag (flag : Nat)
  | stated (text : String)
  deriving DecidableEq, Repr

namespace NamespaceFault

/-- The words for a fault. -/
def message : NamespaceFault → String
  | ownParent s child => s.name ++ " namespace " ++ child.text ++ " cannot be its own parent"
  | unknownParent s parent => "unknown parent " ++ s.name ++ " namespace " ++ parent.text
  | noHierarchy s child =>
    s.name ++ " namespace " ++ child.text ++ " is unknown or not hierarchical"
  | unknownFlag flag => "unknown namespace type flag " ++ Decimal.hexText flag
  | stated text => text

end NamespaceFault

/-- Why a reference addresses no namespace, or not one of the species that is asked for. -/
inductive ReferenceFault where
  | noPath
  | relative (path : Path)
  | innerProcfs (path : Path)
  | otherSpecies (path : Path) (species : Species)
  | noNamespace (path : Path)
  | noMountNamespace (id : Identity) (species : Species)
  | stated (text : String)
  deriving DecidableEq, Repr

namespace ReferenceFault

/-- The words for a fault. -/
def message : ReferenceFault → String
  | noPath => "no path"
  | relative p => p.text ++ " is not absolute"
  | innerProcfs p => p.text ++ " refers to procfs inside another mount namespace"
  | otherSpecies p s => p.text ++ " is a " ++ s.name ++ " namespace"
  | noNamespace p => p.text ++ " is no namespace"
  | noMountNamespace id s => id.text ++ " is a " ++ s.name ++ " namespace"
  | stated text => text

end ReferenceFault

/-! ## Sandboxes -/

/-- Why a sandbox process failed to start or to attach. -/
inductive SandboxFault where
  | notForked (errno : Errno)
  | notAttached (errno : Errno)
  | leftEarly
  | stated (text : String)
  deriving DecidableEq, Repr

namespace SandboxFault

/-- The words for a fault. -/
def message : SandboxFault → String
  | notForked e => "fork failed: " ++ e.symbolText
  | notAttached e => "cannot attach: " ++ (FileFault.refused e).message
  | leftEarly => "exited without attaching"
  | stated text => text

end SandboxFault

/-! ## The contract of the kernel -/

/-- How the kernel broke the contract of its namespace queries. -/
inductive ContractFault where
  /-- A parent was handed out that cannot be identified. -/
  | namelessParent (species : Species) (child : Identity) (why : FileFault)
  /-- A namespace would become an ancestor of itself. -/
  | cycle (species : Species) (child parent : Identity)
  | stated (text : String)
  deriving DecidableEq, Repr

/-! ## All errors -/

/-- An error. -/
inductive Error where
  | file (why : FileFault)
  | system (errno : Errno)
  | namespaces (why : NamespaceFault)
  | denied (operation : String)
  | badSetting (text : String)
  | badReference (reference : String) (why : ReferenceFault)
  | unreadable (what text : String)
  | sandbox (why : SandboxFault)
  | sandboxLate (limit : Span)
  | contract (why : ContractFault)
  | reparent (species : Species) (child existing requested : Identity)
  | late (phase : String)
  deriving DecidableEq, Repr

namespace ContractFault

/-- The words for a fault. -/
def message : ContractFault → String
  | namelessParent s child why =>
    "parent of " ++ s.name ++ " namespace " ++ child.text ++ " has no identity: I/O error: " ++
      why.message
  | cycle s child parent =>
    s.name ++ " namespace " ++ child.text ++ " is an ancestor of " ++ parent.text
  | stated text => text

end ContractFault

namespace Error

/-- The words for an error. -/
def message : Error → String
  | file why => "I/O error: " ++ why.message
  | system e => "System error: " ++ e.symbolText
  | namespaces why => "Namespace error: " ++ why.message
  | denied operation => "Permission denied: " ++ operation
  | badSetting text => "Invalid configuration: " ++ text
  | badReference reference why =>
    "Invalid namespace reference " ++ reference ++ ": " ++ why.message
  | unreadable what text => "Cannot parse " ++ what ++ ": " ++ text
  | sandbox why => "Sandbox error: " ++ why.message
  | sandboxLate limit => "Sandbox did not attach within " ++ limit.text
  | contract why => "Kernel contract violated: " ++ why.message
  | reparent s child existing requested =>
    "Cannot re-parent " ++ s.name ++ " namespace " ++ child.text ++ ": already child of " ++
      existing.text ++ ", not " ++ requested.text
  | late phase => "Deadline exceeded during " ++ phase

/-- Whether the error ends a discovery. Every other error is noted, and the discovery goes
on. -/
def isFatal : Error → Bool
  | contract _ | reparent .. => true
  | _ => false

/-- Whether the error comes from missing privileges. -/
def isDenial : Error → Bool
  | denied _ => true
  | file (.refused e) | system e => e.isDenial
  | _ => false

/-- A text that is no process number. -/
def noPid (text : String) (why : NumberFault) : Error :=
  unreadable "process ID" (quoted text ++ ": " ++ why.message)

/-- A text that names no species. -/
def noSpecies (text : String) : Error :=
  badSetting ("unknown namespace type " ++ quoted text)

end Error

/-- The species that a setting names. -/
def Species.read (name : String) : Except Error Species :=
  match Species.ofName? name with
  | some s => .ok s
  | none => .error (.noSpecies name)

/-- The process number that a text gives. -/
def Pid.parse (text : String) : Except Error Pid :=
  (Pid.read text.toList).mapError (.noPid text)

end NamespaceAtlas
