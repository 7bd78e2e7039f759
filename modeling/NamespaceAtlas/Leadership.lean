-- Leaders: the topmost of the processes that have joined a namespace. Going up
-- from any of the others, one leader is reached without leaving the namespace.
import NamespaceAtlas.Graph

namespace NamespaceAtlas

/-- Goes up from a process while its parent has joined the namespace too, for so many steps
at most. -/
def ProcessTable.topFrom (t : ProcessTable) (s : Species) (id : Identity) :
    Nat → Process → Process
  | 0, p => p
  | steps + 1, p =>
    match t.parentOf? p with
    | none => p
    | some parent =>
      if parent.joined.get s = some id then topFrom t s id steps parent else p

namespace Graph

/-- The namespaces of a species without their leaders. -/
def withoutLeaders (g : Graph) (s : Species) : Graph :=
  g.setSpecies s ((g.ofSpecies s).mapWithKey fun _ n => n.clearLeaders)

/-- Adds the leader that one process has in the namespace it has joined. -/
def addLeaderOf (t : ProcessTable) (s : Species) (g : Graph) (p : Process) : Graph :=
  match p.joined.get s with
  | none => g
  | some id => g.modify s id (·.addLeader (t.topFrom s id t.size p).pid)

/-- Gives the namespaces of a species the leaders that a process table makes. -/
def electLeaders (g : Graph) (t : ProcessTable) (s : Species) : Graph :=
  t.toList.foldl (addLeaderOf t s) (g.withoutLeaders s)

/-- Lets the namespaces of a species be addressed through their ealdormen. One without an
ealdorman keeps its reference. -/
def addressByEaldormen (g : Graph) (t : ProcessTable) (procfs : Path) (s : Species) : Graph :=
  g.setSpecies s ((g.ofSpecies s).mapWithKey fun _ n =>
    match n.ealdorman? t with
    | some p => n.setReference (.single (Path.ofNamespace procfs p.pid s))
    | none => n)

end Graph

end NamespaceAtlas
