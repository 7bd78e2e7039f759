-- Namespaces that processes hold open. The link of an open file names the
-- species; opening it again gives the namespace.
import NamespaceAtlas.Discovery.Phase

namespace NamespaceAtlas

namespace Survey

/-- Counts a process whose open files could not be listed. -/
def skipFileList (v : Survey) : Survey :=
  v.mapDiagnostics fun d => { d with skippedFileLists := d.skippedFileLists + 1 }

/-- Counts an open file that could not be opened again. -/
def skipFile (v : Survey) : Survey :=
  v.mapDiagnostics fun d => { d with skippedFiles := d.skippedFiles + 1 }

end Survey

/-- The species that a link to a namespace names. -/
def Path.species? (target : Path) : Option Species := do
  let text ← Bytes.text? target.bytes
  let (s, _) ← Species.parseText? text
  return s

namespace Kernel

variable {σ φ : Type} (k : Kernel σ φ)

/-- Records the namespace that a file holds, unless it is known. -/
def findHeldAt (s : Species) (file : Path) : Phase σ Unit := do
  match ← Phase.attempt (k.openedNamespace file) with
  | .error _ => Phase.change (·.skipFile)
  | .ok (id, f) =>
    if (← Phase.survey).graph.contains s id then return
    else k.sight s id f (.single file)

/-- Looks at one open file. Files that are no namespaces in scope are passed over. -/
def lookAtFile (file : Path) : Phase σ Unit := do
  match ← Phase.sure (k.linkTarget file) with
  | .error _ => return
  | .ok target =>
    match target.species? with
    | none => return
    | some s => if (← Phase.survey).options.includes s then k.findHeldAt s file

/-- Looks at the open files of one process. -/
def findHeldBy (pid : Pid) : Phase σ Unit := do
  k.checkTime "fds"
  let dir := ((← Phase.survey).options.procfs.ofProcess pid).join "fd"
  match ← Phase.sure (k.listing dir) with
  | .error _ => Phase.change (·.skipFileList)
  | .ok names => names.forM fun name => k.lookAtFile (dir.child name)

/-- Finds the namespaces that processes hold open. -/
def findHeld : Phase σ Unit := do
  let v ← Phase.survey
  v.processes.pids.forM k.findHeldBy

end Kernel

end NamespaceAtlas
