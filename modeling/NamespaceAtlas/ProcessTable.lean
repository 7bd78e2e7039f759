-- The process table: the processes of one discovery, each linked to its
-- parent and its children where they are in the table too.
import NamespaceAtlas.Process

namespace NamespaceAtlas

/-- Processes filed under their numbers. -/
structure ProcessTable where
  registry : Registry Pid Process

namespace ProcessTable

/-- The table without processes. -/
def empty : ProcessTable := ⟨.empty⟩

/-- The process of a number. -/
def get? (t : ProcessTable) (pid : Pid) : Option Process := t.registry.get? pid

/-- Whether a number is in the table. -/
def contains (t : ProcessTable) (pid : Pid) : Bool := t.registry.contains pid

/-- The processes, by ascending numbers. -/
def toList (t : ProcessTable) : List Process := t.registry.values

/-- The numbers, ascending. -/
def pids (t : ProcessTable) : List Pid := t.registry.keys

/-- How many processes there are. -/
def size (t : ProcessTable) : Nat := t.registry.size

/-- Whether there is no process. -/
def isEmpty (t : ProcessTable) : Bool := t.registry.isEmpty

/-- Changes the process of a number. -/
def modify (t : ProcessTable) (pid : Pid) (f : Process → Process) : ProcessTable :=
  ⟨t.registry.modify pid f⟩

/-- The parent of a process, if it is still in the table. -/
def parentOf? (t : ProcessTable) (p : Process) : Option Process := p.parent.bind t.get?

/-- The processes that have joined a namespace. -/
def joinedTo (t : ProcessTable) (s : Species) (id : Identity) : List Process :=
  t.toList.filter fun p => p.joined.get s == some id

/-! ## Building -/

/-- The parent that a process is linked to: the one the kernel names, if it is in the
table and another process. -/
def linkedParent? (registry : Registry Pid Process) (p : Process) : Option Pid :=
  if p.parentPid ≠ p.pid ∧ registry.contains p.parentPid then some p.parentPid else none

/-- Links one process with its parent, in both directions. -/
def link (registry : Registry Pid Process) (child parent : Pid) : Registry Pid Process :=
  (registry.modify child fun p => { p with parent := some parent }).modify parent
    fun p => { p with children := p.children ++ [child] }

/-- The table of a list of processes. Of two with the same number the later one stays. -/
def ofList (l : List Process) : ProcessTable :=
  let registry := Registry.ofList (l.map fun p => (p.pid, p))
  let links := registry.values.filterMap fun p =>
    (linkedParent? registry p).map fun parent => (p.pid, parent)
  ⟨links.foldl (fun r e => link r e.1 e.2) registry⟩

/-! ## Taking out -/

/-- Takes a process out. Its parent and its children no longer refer to it. -/
def erase (t : ProcessTable) (pid : Pid) : ProcessTable :=
  match t.get? pid with
  | none => t
  | some p =>
    let rest := t.registry.erase pid
    let rest :=
      match p.parent with
      | none => rest
      | some parent => rest.modify parent fun q =>
          { q with children := q.children.filter (· ≠ pid) }
    ⟨p.children.foldl (fun r c => r.modify c fun q => { q with parent := none }) rest⟩

end ProcessTable

end NamespaceAtlas
