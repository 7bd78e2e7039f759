-- File trees, and how a path leads through one. A place in a tree is the list
-- of the names that lead there from the top without a link.
import NamespaceAtlas.Error

namespace NamespaceAtlas

/-- What stands at one place of a file tree, with all below it. -/
inductive FileTree where
  | directory (entries : List (Name × FileTree))
  | plain (bytes : Bytes)
  | link (target : Path)
  /-- The file of a namespace, which is known by a label. -/
  | space (label : String)

namespace FileTree

/-- The directory without entries. -/
def bare : FileTree := directory []

/-- The entry of a name. -/
def child? (name : Name) : FileTree → Option FileTree
  | directory entries => (entries.find? (·.1 == name)).map (·.2)
  | _ => none

/-- What stands at a place. -/
def at? (t : FileTree) : List Name → Option FileTree
  | [] => some t
  | name :: rest => (t.child? name).bind (at? · rest)

/-! ## Changes -/

/-- Puts an entry in, at the end if its name is new. What is no directory becomes one. -/
def setEntry (t : FileTree) (name : Name) (e : FileTree) : FileTree :=
  match t with
  | directory entries =>
    if entries.any (·.1 == name) then
      directory (entries.map fun old => if old.1 == name then (name, e) else old)
    else directory (entries ++ [(name, e)])
  | _ => directory [(name, e)]

/-- Puts something at a place. Directories on the way are made where they are missing. -/
def put (t e : FileTree) : List Name → FileTree
  | [] => e
  | name :: rest => t.setEntry name (((t.child? name).getD bare).put e rest)

/-- Makes sure that there is a directory at a place, and keeps one that is there. -/
def putDirectory (t : FileTree) (place : List Name) : FileTree :=
  match t.at? place with
  | some (directory _) => t
  | _ => t.put bare place

/-- Takes out what stands at a place. -/
def remove (t : FileTree) : List Name → FileTree
  | [] => t
  | [name] =>
    match t with
    | directory entries => directory (entries.filter (·.1 != name))
    | t => t
  | name :: rest =>
    match t.child? name with
    | some e => t.setEntry name (e.remove rest)
    | none => t

mutual

/-- All places of a tree that begins at a place. -/
def places (here : List Name) : FileTree → List (List Name)
  | directory entries => here :: placesOf here entries
  | _ => [here]

/-- All places of the entries of a directory. -/
def placesOf (here : List Name) : List (Name × FileTree) → List (List Name)
  | [] => []
  | (name, e) :: rest => places (here ++ [name]) e ++ placesOf here rest

end

/-! ## Walks -/

/-- The names to follow from the top. A slash at the end asks for a directory, as a `.`
would. -/
def steps (p : Path) : List Name :=
  let names := p.segments.filter (!·.isEmpty)
  if p.bytes.getLast? = some Path.slash then names ++ [Path.hereName] else names

/-- The longest name that an entry can have. -/
def nameLimit : Nat := 255

/-- The bytes that a path must stay under. -/
def pathLimit : Nat := 4096

/-- The most links that one walk follows. -/
def walkLimit : Nat := 40

/-- Goes on with a walk: `done` is the place reached and `pending` are the names to come.
Every name is looked up in a directory; `..` goes to the directory above and stays at the
top. A link is followed, unless it comes last and is asked for itself. -/
def walk (top : FileTree) (follow : Bool) :
    (links : Nat) → (done pending : List Name) → Except Errno (List Name)
  | _, done, [] => .ok done
  | links, done, name :: rest =>
    match top.at? done with
    | some (directory entries) =>
      if name = Path.hereName then walk top follow links done rest
      else if name = Path.parentName then walk top follow links done.dropLast rest
      else if name.length > nameLimit then .error .nameTooLong
      else
        match (directory entries).child? name with
        | none => .error .noEntry
        | some (link target) =>
          if rest.isEmpty && !follow then .ok (done ++ [name])
          else
            match links with
            | 0 => .error .loop
            | links + 1 =>
              walk top follow links (if target.isAbsolute then [] else done) (steps target ++ rest)
        | some _ => walk top follow links (done ++ [name]) rest
    | some _ => .error .notDirectory
    | none => .error .noEntry
termination_by links _ pending => (links, pending.length)

/-- The place that a path leads to. A relative path is taken from the top. -/
def locate (top : FileTree) (follow : Bool) (p : Path) : Except FileFault (List Name) :=
  if 0 ∈ p.bytes then .error .nulInPath
  else if p.bytes.isEmpty then .error (.refused .noEntry)
  else if p.bytes.length ≥ pathLimit then .error (.refused .nameTooLong)
  else (walk top follow walkLimit [] (steps p)).mapError .refused

/-- The place that a path leads to, and what stands there. -/
def look (top : FileTree) (follow : Bool) (p : Path) : Except FileFault (List Name × FileTree) := do
  let place ← top.locate follow p
  match top.at? place with
  | some e => return (place, e)
  | none => throw (.refused .noEntry)

end FileTree

end NamespaceAtlas
