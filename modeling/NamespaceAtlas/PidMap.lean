-- The numbers of processes in PID namespaces. A process has one number in each
-- PID namespace from the outermost down to its own.
import NamespaceAtlas.Graph

namespace NamespaceAtlas

/-- A process number as one PID namespace has it. -/
structure LocalPid where
  space : Identity
  pid : Pid
  deriving DecidableEq, Repr

namespace LocalPid

/-- Ordered by namespace, then by number. -/
instance : Ranked LocalPid where
  rank p := Ranked.rank p.space * 4294967296 + (p.pid.toInt + 2147483648)
  rank_injective a b h := by
    obtain ⟨sa, pa⟩ := a
    obtain ⟨sb, pb⟩ := b
    have ha := pa.number.toInt_lt
    have ha' := pa.number.le_toInt
    have hb := pb.number.toInt_lt
    have hb' := pb.number.le_toInt
    simp only [Pid.toInt] at h
    have hs : Ranked.rank sa = Ranked.rank sb := by omega
    have hp : pa.number.toInt = pb.number.toInt := by omega
    rw [Ranked.rank_injective _ _ hs, Ranked.rank_injective pa pb hp]

end LocalPid

/-- The numbers of each process, filed under every one of them. -/
structure PidMap where
  chains : Registry LocalPid (List LocalPid)
  /-- How many processes are left out because their numbers do not fit their namespaces. -/
  skipped : Nat

namespace PidMap

/-- The map of no process. -/
def empty : PidMap := ⟨.empty, 0⟩

/-- A PID namespace and its ancestors, outermost first. -/
def spacesOf (g : Graph) (id : Identity) : List Identity :=
  (g.ancestors .pid id).reverse ++ [id]

/-- What a process adds to the map: nothing, a mismatch, or its numbers. -/
inductive Entry where
  | none
  | mismatch
  | chain (l : List LocalPid)

/-- What a process adds. Its numbers are paired with its namespaces, if there are as many of
the one as of the other. -/
def entryOf (g : Graph) (p : Process) : Entry :=
  match p.joined.get .pid with
  | Option.none => .none
  | some id =>
    if p.innerPids.isEmpty then .none
    else
      let spaces := spacesOf g id
      if spaces.length = p.innerPids.length then
        .chain ((spaces.zip p.innerPids).map fun (space, pid) => ⟨space, pid⟩)
      else .mismatch

/-- Files a chain under each of its numbers. -/
def addChain (r : Registry LocalPid (List LocalPid)) (l : List LocalPid) :
    Registry LocalPid (List LocalPid) :=
  l.foldl (fun r p => r.insert p l) r

/-- Adds one process. -/
def add (g : Graph) (m : PidMap) (p : Process) : PidMap :=
  match entryOf g p with
  | .none => m
  | .mismatch => { m with skipped := m.skipped + 1 }
  | .chain l => { m with chains := addChain m.chains l }

/-- The map of a process table. -/
def ofTable (g : Graph) (t : ProcessTable) : PidMap := t.toList.foldl (add g) empty

/-- All numbers of the process that has this one, outermost first. -/
def numbers? (m : PidMap) (pid : Pid) (space : Identity) : Option (List LocalPid) :=
  m.chains.get? ⟨space, pid⟩

/-- The number that a process has in another namespace. -/
def numberIn? (m : PidMap) (pid : Pid) (source target : Identity) : Option Pid := do
  let chain ← m.numbers? pid source
  let found ← chain.find? (·.space == target)
  return found.pid

/-- How many pairs of namespace and number there are. -/
def size (m : PidMap) : Nat := m.chains.size

/-- Whether there are none. -/
def isEmpty (m : PidMap) : Bool := m.chains.isEmpty

end PidMap

end NamespaceAtlas
