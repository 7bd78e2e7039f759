-- Reports: what the commands print. Every function here gives whole lines.
import NamespaceAtlas.Survey
import NamespaceAtlas.UserNames

namespace NamespaceAtlas.Report

/-! ## Lines -/

/-- So many copies of a character. -/
def repeated (n : Nat) (c : Char) : String := String.ofList (List.replicate n c)

/-- A text with blanks after it, up to a width in characters. -/
def padded (width : Nat) (s : String) : String := s ++ repeated (width - s.length) ' '

/-- A rule across the page. -/
def rule (width : Nat) : String := repeated width '-'

/-- The blanks before what stands so deep in a tree. -/
def indent (depth : Nat) : String := repeated (2 * depth) ' '

/-- Lines, each with its end. -/
def ofLines (l : List String) : String := String.join (l.map (· ++ "\n"))

/-- A line that is there on a condition. -/
def lineIf (condition : Bool) (line : String) : List String := if condition then [line] else []

/-! ## Summary -/

/-- The leader of a namespace that started first, with its title. -/
def leaderText (v : Survey) (n : Namespace) : String :=
  match n.ealdorman? v.processes with
  | some p => p.pid.text ++ " (" ++ p.title ++ ")"
  | none => ""

/-- The line of one namespace. A star marks one of our own. -/
def namespaceLine (v : Survey) (n : Namespace) : String :=
  (if v.own.get n.species = some n.id then "*" else " ") ++ padded 7 n.species.name ++ " " ++
    padded 24 n.id.text ++ " " ++ padded 28 (leaderText v n) ++ " " ++ n.reference.text

/-- What a discovery had to leave out. -/
def shortfalls (d : Diagnostics) : List String :=
  lineIf (d.skippedProcesses > 0)
      ("⚠️  " ++ Decimal.text d.skippedProcesses ++ " process(es) not readable") ++
    lineIf (!d.unreachable.isEmpty)
      ("⚠️  " ++ Decimal.text d.unreachable.length ++ " mount namespace(s) unreachable") ++
    match d.interrupted with
    | some phase => ["⚠️  Deadline exceeded during " ++ phase ++ ", result is partial"]
    | none => []

/-- All namespaces of a survey, one in a line. -/
def summary (v : Survey) : String :=
  ofLines (["", "🔍 Namespaces", rule 72] ++ v.graph.toList.map (namespaceLine v) ++
    [rule 72, "Total: " ++ Decimal.text v.graph.size ++ " namespace(s), " ++
      Decimal.text v.processes.size ++ " process(es)"] ++ shortfalls v.diagnostics)

/-! ## User namespaces -/

/-- The user who created a namespace, by name and number. -/
def creatorText (names : UserNames) (n : Namespace) : String :=
  match n.creator? with
  | some uid => names.title uid ++ " (" ++ Decimal.text uid.toNat ++ ")"
  | none => "?"

/-- The line of one user namespace. -/
def userLine (v : Survey) (names : UserNames) (depth : Nat) (n : Namespace) : String :=
  let leader :=
    match n.ealdorman? v.processes with
    | some p => p.pid.text ++ " " ++ p.title
    | none => "-"
  indent depth ++ Species.user.text n.id.inode ++ " owner " ++ creatorText names n ++ ", " ++ leader

/-- A user namespace and all below it, for so many levels at most. Children stand under their
parent. -/
def userTree (v : Survey) (names : UserNames) : Nat → (depth : Nat) → Identity → List String
  | 0, _, _ => []
  | levels + 1, depth, id =>
    match v.graph.get? .user id with
    | none => []
    | some n =>
      userLine v names depth n :: n.children.flatMap (userTree v names levels (depth + 1))

/-- A user namespace and all below it. No tree has more levels than there are user
namespaces. -/
def userTreeOf (v : Survey) (names : UserNames) (depth : Nat) (id : Identity) : List String :=
  userTree v names (v.graph.ofSpecies .user).size depth id

/-- The trees of all user namespaces. -/
def users (v : Survey) (names : UserNames) : String :=
  ofLines (["", "👤 User namespaces", rule 60] ++
    (v.graph.roots .user).flatMap (fun n => userTreeOf v names 0 n.id) ++ [rule 60] ++
    lineIf (names.source = .ownMountNamespace)
      "⚠️  Owner names taken from our own mount namespace")

/-! ## Process numbers -/

/-- The lines of the numbers of a process, the first so deep. -/
def pidLines (own : Identity) : Nat → List LocalPid → List String
  | _, [] => []
  | depth, p :: rest =>
    ((if p.space = own then "*" else " ") ++ indent depth ++ Species.pid.text p.space.inode ++
      " " ++ p.pid.text) :: pidLines own (depth + 1) rest

/-- The numbers of a process, one in a line, outermost first. -/
def pids (pid : Pid) (own : Identity) (numbers : List LocalPid) : String :=
  ofLines (["", "🔢 PIDs of process " ++ pid.text, rule 60] ++ pidLines own 0 numbers)

/-! ## Namespaces of one process -/

/-- The lines over the namespaces of a process. -/
def joinedHead (pid : Pid) : List String :=
  ["", "🔒 Namespace Information for PID " ++ pid.text, rule 60]

/-- The line of a namespace that a process has joined. -/
def joinedLine (s : Species) (id : Identity) (shared : Bool) : String :=
  padded 7 s.name ++ " " ++ padded 24 (s.text id.inode) ++ " " ++
    if shared then "(shared with us)" else ""

/-- The line of a namespace that could not be read. -/
def unreadLine (s : Species) (why : Error) : String :=
  padded 7 s.name ++ " " ++
    if why.isDenial then "permission denied" else "unavailable (" ++ why.message ++ ")"

/-- The lines under the namespaces of a process. -/
def joinedFoot (allShared : Bool) : List String :=
  rule 60 :: lineIf allShared "⚠️  Process shares all our namespaces"

end NamespaceAtlas.Report
