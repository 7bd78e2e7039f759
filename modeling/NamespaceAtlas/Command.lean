-- The commands: what each of them asks the kernel, and what it prints.
import NamespaceAtlas.Discovery
import NamespaceAtlas.UserDatabase
import NamespaceAtlas.Report
import NamespaceAtlas.Document.Forms
import NamespaceAtlas.Document.Printer

namespace NamespaceAtlas

/-- A command. -/
inductive Command where
  /-- Surveys the host; the survey is printed whole, as a document, or in short. -/
  | discover (whole : Bool) (options : Options)
  /-- Prints the tree of user namespaces. -/
  | users (attachSeconds : UInt64)
  /-- Prints the numbers of a process in all PID namespaces that show it. -/
  | pid (pid : Pid)
  /-- Prints the namespaces that a process has joined; by default our own. -/
  | namespaces (pid : Option Pid)
  deriving DecidableEq

namespace Command

/-- Why a command failed. -/
inductive Fault where
  | aborted (why : Error)
  | noText
  | ownSpaceUnknown
  | noNumbers (pid : Pid)
  | noProcess (pid : Pid)
  | ownUnreadable (s : Species) (why : FileFault)
  deriving DecidableEq, Repr

/-- The words for a failure: what was done, then its causes. A fault of a file is a cause of
its own under the error that reports it. -/
def Fault.message : Fault → String
  | aborted why => "Discovery aborted: " ++ why.message
  | noText => "Failed to serialize result: path contains invalid UTF-8 characters"
  | ownSpaceUnknown => "Own PID namespace unknown"
  | noNumbers p => "No PID namespace information for process " ++ p.text
  | noProcess p => "Process " ++ p.text ++ " not found"
  | ownUnreadable s why =>
    "Failed to read own " ++ s.name ++ " namespace: " ++ (Error.file why).message ++ ": " ++
      why.message

/-- What comes out of a command: what it printed, and why it failed if it did. -/
structure Outcome where
  output : String
  failure : Option Fault := none
  deriving DecidableEq

namespace Outcome

/-- A command that failed before it printed anything. -/
def failed (why : Fault) : Outcome := ⟨"", some why⟩

/-- A command that printed a text and came through. -/
def printed (text : String) : Outcome := ⟨text, none⟩

end Outcome

/-! ## Each command -/

/-- The options for the tree of user namespaces. -/
def userOptions (limit : Span) : Options :=
  { Options.standard with
    ownership := false
    species := .single .user
    attachLimit := limit }

/-- The options for the numbers of a process. -/
def pidOptions : Options :=
  { Options.nothing with
    processes := true
    hierarchy := true
    pidMap := true
    species := .single .pid }

/-- What a survey is printed as. -/
def showSurvey (whole : Bool) (v : Survey) : Outcome :=
  if whole then
    match v.document? with
    | some d => .printed (d.pretty 0 ++ "\n")
    | none => .failed .noText
  else .printed (Report.summary v)

/-- What the numbers of a process are printed as. -/
def showNumbers (pid : Pid) (v : Survey) : Outcome :=
  match v.own.pid with
  | none => .failed .ownSpaceUnknown
  | some own =>
    match v.pidMap.bind (·.numbers? pid own) with
    | none => .failed (.noNumbers pid)
    | some numbers => .printed (Report.pids pid own numbers)

variable {σ φ : Type} (k : Kernel σ φ)

/-- Surveys the host and goes on with the survey. -/
def withSurvey (o : Options) (go : Survey → StateM σ Outcome) : StateM σ Outcome := do
  match ← (k.discover o).run with
  | .ok v => go v
  | .error why => return .failed (.aborted why)

/-- Reads the namespaces that a process has joined, and gives their lines and how many we
share. It stops where our own namespace cannot be read. -/
def readShared (dir : Path) : List Species → StateM σ (List String × Nat × Option Fault)
  | [] => return ([], 0, none)
  | s :: rest => do
    match ← (k.identityAt (dir.join s.name)).run with
    | .error why =>
      let (lines, shared, failure) ← readShared dir rest
      return (Report.unreadLine s why :: lines, shared, failure)
    | .ok id =>
      match ← k.identifyAt (Path.join "/proc/self/ns" s.name) with
      | .error why => return ([], 0, some (.ownUnreadable s why))
      | .ok own =>
        let (lines, shared, failure) ← readShared dir rest
        return (Report.joinedLine s id (id = own) :: lines,
          if id = own then shared + 1 else shared, failure)

/-- Prints the namespaces that a process has joined. -/
def showJoined (pid : Pid) : StateM σ Outcome := do
  let head := Report.joinedHead pid
  let dir := (Path.proc.ofProcess pid).join "ns"
  match ← k.identifyAt dir with
  | .error _ => return ⟨Report.ofLines head, some (.noProcess pid)⟩
  | .ok _ =>
    let (lines, shared, failure) ← readShared k dir Species.all
    match failure with
    | some why => return ⟨Report.ofLines (head ++ lines), some why⟩
    | none =>
      return .printed (Report.ofLines
        (head ++ lines ++ Report.joinedFoot (shared = Species.all.length)))

/-- Runs a command. -/
def run : Command → StateM σ Outcome
  | discover whole options => withSurvey k options fun v => return showSurvey whole v
  | users seconds =>
    let limit := Span.ofSeconds seconds
    withSurvey k (userOptions limit) fun v =>
      return .printed (Report.users v (← k.creatorNames v limit))
  | pid p => withSurvey k pidOptions fun v => return showNumbers p v
  | namespaces p => showJoined k (p.getD k.caller)

end Command

end NamespaceAtlas
