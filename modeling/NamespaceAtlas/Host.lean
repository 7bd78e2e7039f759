-- Hosts: machines written down as data. A host has namespaces, processes and
-- file trees, and from them the files that its processes see.
import NamespaceAtlas.Host.FileTree

namespace NamespaceAtlas

namespace Host

/-- What happens to a process that enters a namespace. -/
inductive Admission where
  | granted
  | refused (errno : Errno)
  /-- The process never comes back from the call. -/
  | hangs
  /-- The process ends in the call. -/
  | ends
  deriving DecidableEq

/-- A namespace. Namespaces refer to each other by labels. -/
structure Space where
  species : Species
  id : Identity
  parent : Option String := none
  owner : Option String := none
  creator : Option UInt32 := none
  /-- The answer to the question for the species, if it is another; a negative one is an
  error. -/
  flag : Option Int := none
  /-- The error that identification ends in. -/
  unidentified : Option Errno := none
  admission : Admission := .granted
  /-- Whether only members of its owner may enter. -/
  guarded : Bool := false
  /-- The file tree that a mount namespace shows. -/
  tree : Option String := none
  /-- The mount table of a mount namespace. -/
  table : Option Bytes := none

/-- An open file of a process: a link with a text, and the namespace that it leads to. -/
structure OpenFile where
  name : Name
  target : Option Path := none
  space : Option String := none

/-- A process, as its directory in procfs shows it. -/
structure Resident where
  directory : Name
  stat : Option Bytes := none
  arguments : Option Bytes := none
  status : Option Bytes := none
  table : Option Bytes := none
  /-- The namespaces it has joined; one without a label cannot be opened. -/
  spaces : Option (List (Species × Option String)) := none
  files : Option (List OpenFile) := none
  tree : Option String := none

/-- Something in a file tree. -/
structure Fixture where
  path : Path
  file : FileTree

end Host

/-- A host. -/
structure Host where
  caller : Pid := ⟨1⟩
  spaces : List (String × Host.Space) := []
  residents : List Host.Resident := []
  /-- File trees by name. The one named `/` is our own. -/
  trees : List (String × List Host.Fixture) := []
  /-- The error that starting a process ends in. -/
  forkFault : Option Errno := none

namespace Host

variable (h : Host)

/-- The namespace of a label. -/
def space? (label : String) : Option Space := (h.spaces.find? (·.1 == label)).map (·.2)

/-! ## The files -/

/-- A name of letters. -/
def name (text : String) : Name := Bytes.ofText text

/-- The directory of procfs. -/
def procPlace : List Name := [name "proc"]

/-- The directory that holds the other file trees. -/
def otherPlace : List Name := [name ".sim"]

/-- Where a file tree begins. -/
def treePath (tree : String) : Path :=
  if tree = "/" then Path.root else (Path.root.join ".sim").join tree

/-- Puts a fixture into a tree. A directory that is there already is kept. -/
def install (place : List Name) (t : FileTree) (f : Fixture) : FileTree :=
  let place := place ++ f.path.steps
  match f.file with
  | .directory [] => t.putDirectory place
  | file => t.put file place

/-- Puts a file in, if there is one. -/
def installFile (place : List Name) (file : Option Bytes) (t : FileTree) : FileTree :=
  match file with
  | some bytes => t.put (.plain bytes) place
  | none => t

/-- Puts the link in by which a process has joined a namespace. It leads to a file beside it
that bears the text of the namespace; without a namespace there is no such file. -/
def installJoined (dir : List Name) (t : FileTree) (s : Species) (label : Option String) :
    FileTree :=
  match label.bind fun label => (h.space? label).map fun space => (label, space) with
  | some (label, space) =>
    let text := s.text space.id.inode
    (t.put (.space label) (dir ++ [name text])).put (.link text) (dir ++ [name s.name])
  | none => t.put (.link (s.text 0)) (dir ++ [name s.name])

/-- Puts an open file in. What its link leads to stands beside it, if it stands anywhere. -/
def installOpenFile (dir : List Name) (t : FileTree) (f : OpenFile) : FileTree :=
  match f.target with
  | none => t.put (.plain []) (dir ++ [f.name])
  | some target =>
    let t := t.put (.link target) (dir ++ [f.name])
    match f.space with
    | none => t
    | some label =>
      t.put (.space label) (if target.isAbsolute then target.steps else dir ++ target.steps)

/-- Puts the link in that shows the file tree of a process. -/
def installRoot (dir : List Name) (tree : Option String) (t : FileTree) : FileTree :=
  match tree with
  | some tree => t.put (.link (treePath tree)) (dir ++ [name "root"])
  | none => t

/-- Puts the directory of a process in. -/
def installResident (t : FileTree) (r : Resident) : FileTree :=
  let dir := procPlace ++ [r.directory]
  let t := t.putDirectory dir
  let t := installFile (dir ++ [name "stat"]) r.stat t
  let t := installFile (dir ++ [name "cmdline"]) r.arguments t
  let t := installFile (dir ++ [name "status"]) r.status t
  let t := installFile (dir ++ [name "mountinfo"]) r.table t
  let t := installRoot dir r.tree t
  let t :=
    match r.spaces with
    | none => t
    | some spaces =>
      let ns := dir ++ [name "ns"]
      spaces.foldl (fun t (s, label) => h.installJoined ns t s label) (t.putDirectory ns)
  match r.files with
  | none => t
  | some files =>
    let fd := dir ++ [name "fd"]
    files.foldl (installOpenFile fd) (t.putDirectory fd)

/-- Puts a file tree in. -/
def installTree (t : FileTree) (tree : String) (fixtures : List Fixture) : FileTree :=
  let place := (treePath tree).steps
  fixtures.foldl (install place) (t.putDirectory place)

/-- The files of the host. -/
def files : FileTree :=
  let t := (FileTree.bare.putDirectory procPlace).putDirectory otherPlace
  let t := h.trees.foldl (fun t (tree, fixtures) => installTree t tree fixtures) t
  let t := t.put (.link h.caller.text) (procPlace ++ [name "self"])
  h.residents.foldl h.installResident t

/-- The host with one process, which has every namespace to itself. -/
def lone : Host where
  spaces := Species.all.map fun s =>
    (s.name, {
      species := s
      id := ⟨4, 4026531840 + UInt64.ofNat s.slot⟩
      owner := if s = .user then none else some Species.user.name
      creator := if s = .user then some 0 else none })
  residents := [{
    directory := name "1"
    stat := some (Bytes.ofText
      "1 (init) S 0 1 1 0 -1 4194560 0 0 0 0 0 0 0 0 20 0 1 0 1 0 0 0\n")
    status := some (Bytes.ofText "Name:\tinit\nNSpid:\t1\n")
    table := some []
    spaces := some (Species.all.map fun s => (s, some s.name))
    files := some []
    tree := some "/" }]
  trees := [("/", [⟨"/etc/passwd", .plain (Bytes.ofText "root:x:0:0:root:/root:/bin/sh\n")⟩])]

end Host

end NamespaceAtlas
