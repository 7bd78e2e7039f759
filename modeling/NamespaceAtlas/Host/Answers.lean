-- What the kernel of a host answers. The state holds the files, which change
-- as processes are spawned and ended.
import NamespaceAtlas.Host
import NamespaceAtlas.Kernel

namespace NamespaceAtlas.Host

/-- The state of a host. -/
structure Machine where
  files : FileTree
  /-- How many processes were forked. -/
  forks : Nat := 0
  /-- The processes that were spawned and not ended. -/
  live : List Pid := []

/-- An open file: a namespace, or the place of another file. -/
inductive Handle where
  | space (label : String)
  | other (place : List Name)

variable (h : Host)

/-! ## Identities -/

/-- The identity of the file at a place. It is on a device of its own. -/
def identityOfPlace (place : List Name) : Identity :=
  ⟨UInt64.ofNat (UInt64.size - 1), UInt64.ofNat (UInt64.size - 1 - (h.files.places []).idxOf place)⟩

/-- The identity of an open file. -/
def identityOf : Handle → Except FileFault Identity
  | .other place => .ok (h.identityOfPlace place)
  | .space label =>
    match h.space? label with
    | none => .error (.refused .noEntry)
    | some space =>
      match space.unidentified with
      | some errno => .error (.refused errno)
      | none => .ok space.id

/-! ## Files -/

/-- Whether a file is a symbolic link itself. To look at the file of a namespace is to identify
the namespace, so it fails where that fails. -/
def isLink (p : Path) : StateM Machine (Except FileFault Bool) := do
  return ((← get).files.look false p).bind fun
    | (_, .link _) => .ok true
    | (_, .space label) => (h.identityOf (.space label)).map fun _ => false
    | _ => .ok false

/-- Where a symbolic link leads. -/
def linkTarget (p : Path) : StateM Machine (Except FileFault Path) := do
  return ((← get).files.look false p).bind fun
    | (_, .link target) => .ok target
    | _ => .error (.refused .invalid)

/-- The names in a directory. -/
def listing (p : Path) : StateM Machine (Except FileFault (List Name)) := do
  return ((← get).files.look true p).bind fun
    | (_, .directory entries) => .ok (entries.map (·.1))
    | _ => .error (.refused .notDirectory)

/-- The bytes of a file. The file of a namespace holds none. -/
def contents (p : Path) : StateM Machine (Except FileFault Bytes) := do
  return ((← get).files.look true p).bind fun
    | (_, .plain bytes) => .ok bytes
    | (_, .directory _) => .error (.refused .isDirectory)
    | _ => .ok []

/-- Opens a file. -/
def openFile (p : Path) : StateM Machine (Except FileFault Handle) := do
  return ((← get).files.look true p).map fun
    | (_, .space label) => .space label
    | (place, _) => .other place

/-! ## Namespaces -/

/-- What a namespace answers. Files of another kind are asked in vain. -/
def ofSpace {α : Type} (f : Handle) (answer : Space → Except Errno α) : Except Errno α :=
  match f with
  | .other _ => .error .notTerminal
  | .space label =>
    match h.space? label with
    | none => .error .notTerminal
    | some space => answer space

/-- The flag of the species. -/
def flagOf (space : Space) : Except Errno Nat :=
  match space.flag with
  | none => .ok space.species.flag
  | some n => if n < 0 then .error ⟨-n⟩ else .ok n.toNat

/-- Another namespace that one refers to. -/
def related (label : Option String) : Except Errno Handle :=
  match label with
  | some label => .ok (.space label)
  | none => .error .permission

/-- The parent of a namespace. -/
def parentOf (space : Space) : Except Errno Handle :=
  if space.species.hasParents then related space.parent else .error .invalid

/-- The creator of a namespace. -/
def creatorOf (space : Space) : Except Errno UInt32 :=
  if space.species = .user then
    match space.creator with
    | some uid => .ok uid
    | none => .error .permission
  else .error .invalid

/-! ## Spawned processes -/

/-- What becomes of a process that enters a namespace of a species. `member` is the user
namespace it has entered before. -/
def admitted (s : Species) (member : Option String) (space : Space) : Except SpawnFault Unit :=
  if space.species ≠ s then .error (.failed (.notAttached .invalid))
  else
    match space.admission with
    | .refused errno => .error (.failed (.notAttached errno))
    | .hangs => .error .late
    | .ends => .error (.failed .leftEarly)
    | .granted =>
      if space.guarded && (member.isNone || member != space.owner) then
        .error (.failed (.notAttached .permission))
      else .ok ()

/-- The namespace that a process enters. -/
def entered (f : Handle) : Except SpawnFault (String × Space) :=
  match f with
  | .other _ => .error (.failed (.notAttached .invalid))
  | .space label =>
    match h.space? label with
    | some space => .ok (label, space)
    | none => .error (.failed (.notAttached .invalid))

/-- What becomes of a process that enters a user namespace, if there is one, and then a mount
namespace. -/
def attached (mount : Handle) (user : Option Handle) : Except SpawnFault Space := do
  let member ←
    match user with
    | none => pure none
    | some user => do
      let (label, space) ← h.entered user
      admitted .user none space
      pure (some label)
  let (_, space) ← h.entered mount
  admitted .mount member space
  return space

/-- The number of a spawned process. -/
def spawnedPid (forks : Nat) : Pid := .ofInt (900001 + forks)

/-- The directory of a process. -/
def placeOf (p : Pid) : List Name := procPlace ++ [name p.text]

/-- Spawns a process. One that is given no time reports back too late. -/
def spawn (mount : Handle) (user : Option Handle) (limit : Span) :
    StateM Machine (Except SpawnFault Pid) := do
  match h.forkFault with
  | some errno => return .error (.failed (.notForked errno))
  | none =>
    let m ← get
    let pid := spawnedPid m.forks
    set { m with forks := m.forks + 1 }
    if limit.isZero then return .error .late
    match h.attached mount user with
    | .error why => return .error why
    | .ok space =>
      let files := installRoot (placeOf pid) space.tree m.files
      let files := installFile (placeOf pid ++ [name "mountinfo"]) space.table files
      modify fun m => { m with files, live := m.live ++ [pid] }
      return .ok pid

/-- Ends a process. -/
def release (p : Pid) : StateM Machine Unit :=
  modify fun m => { m with files := m.files.remove (placeOf p), live := m.live.filter (· ≠ p) }

/-! ## The kernel -/

/-- The kernel of a host. We work in its root. Time stands still, so only a limit of no time is ever
reached. -/
def kernel : Kernel Machine Handle where
  caller := h.caller
  directory := return .ok .root
  isLink := h.isLink
  linkTarget := linkTarget
  listing := listing
  contents := contents
  openFile := openFile
  identify f := return h.identityOf f
  identifyAt p := do return (← openFile p).bind h.identityOf
  speciesFlag f := return h.ofSpace f flagOf
  owner f := return h.ofSpace f fun space => related space.owner
  parent f := return h.ofSpace f parentOf
  creator f := return h.ofSpace f creatorOf
  spawn := h.spawn
  release := release
  isLate limit := return limit.isZero

/-- The state in which a host is at first. -/
def machine : Machine := { files := h.files }

end NamespaceAtlas.Host
