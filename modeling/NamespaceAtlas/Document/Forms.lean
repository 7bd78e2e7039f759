-- The documents as which a survey and its parts are written. A path has one
-- only if it is text; a reference that is no text has none, nor has anything
-- that holds it.
import NamespaceAtlas.Document
import NamespaceAtlas.Survey
import NamespaceAtlas.UserNames

namespace NamespaceAtlas

open Document (listOf optional nat)

/-! ## Identities and paths -/

namespace Identity

/-- An identity, with its device and its inode. -/
def document (id : Identity) : Document :=
  .record [("dev", nat id.device.toNat), ("ino", nat id.inode.toNat)]

end Identity

/-- A process number. -/
def Pid.document (p : Pid) : Document := .int p.toInt

/-- A path as a text. -/
def Path.document? (p : Path) : Option Document := (Bytes.text? p.bytes).map Document.text

/-- A reference as the list of its paths. -/
def Reference.document? (r : Reference) : Option Document :=
  (r.paths.mapM Path.document?).map Document.list

/-- A span of time, with its seconds and its nanoseconds. -/
def Span.document (s : Span) : Document :=
  .record [("secs", nat s.seconds.toNat), ("nanos", nat s.nanos.toNat)]

/-- A value for each species, in the order of the slots. -/
def BySpecies.document {α : Type} (write : α → Document) (b : BySpecies α) : Document :=
  listOf write b.toList

/-! ## Processes and mounts -/

/-- A process. -/
def Process.document (p : Process) : Document :=
  .record [
    ("pid", p.pid.document),
    ("ppid", p.parentPid.document),
    ("parent", optional Pid.document p.parent),
    ("children", listOf Pid.document p.children),
    ("name", .text p.name),
    ("cmdline", listOf .text p.arguments),
    ("starttime", nat p.started.toNat),
    ("nspid", listOf Pid.document p.innerPids),
    ("namespaces", p.joined.document (optional Identity.document)),
    ("container", optional .text p.container)]

/-- The processes under their numbers. -/
def ProcessTable.document (t : ProcessTable) : Document :=
  .record (t.toList.map fun p => (p.pid.text, p.document))

/-- A mount. A mount point that is no text is shown with replacement characters. -/
def Mount.document (m : Mount) : Document :=
  .record [
    ("mount_id", nat m.id.toNat),
    ("parent_id", nat m.parentId.toNat),
    ("major", nat m.major.toNat),
    ("minor", nat m.minor.toNat),
    ("root", .text m.root),
    ("mount_point", .text m.point.text),
    ("mount_options", .text m.options),
    ("tags", listOf .text m.tags),
    ("fs_type", .text m.fsType),
    ("source", .text m.source),
    ("super_options", .text m.superOptions)]

/-! ## Namespaces -/

/-- The fields of the relatives. -/
def Hierarchy.fields (h : Hierarchy) : List (String × Document) := [
  ("parent", optional Identity.document h.parent),
  ("children", listOf Identity.document h.children)]

/-- The kind of a namespace, with what comes with the kind. -/
def Kind.document : Kind → Document
  | .plain => .record [("kind", .text "plain")]
  | .hierarchical h => .record (("kind", .text "hierarchical") :: h.fields)
  | .user u => .record [
    ("kind", .text "user"),
    ("hierarchy", .record u.hierarchy.fields),
    ("owner_uid", optional (fun uid => nat uid.toNat) u.creator),
    ("owned", u.owned.document (listOf Identity.document))]

/-- A namespace. -/
def Namespace.document? (n : Namespace) : Option Document := do
  let reference ← n.reference.document?
  return .record [
    ("id", n.id.document),
    ("type", .text n.species.name),
    ("reference", reference),
    ("leaders", listOf Pid.document n.leaders),
    ("owner_id", optional Identity.document n.ownerId),
    ("owner", optional Identity.document n.owner),
    ("kind", n.kind.document)]

/-- The namespaces of each species, identities ascending. -/
def Graph.document? (g : Graph) : Option Document := do
  let fields ← Species.all.mapM fun s => do
    let l ← (g.ofSpecies s).values.mapM Namespace.document?
    return (s.name, Document.list l)
  return .record fields

/-! ## Options and account -/

/-- The options of a discovery. -/
def Options.document? (o : Options) : Option Document := do
  let procfs ← o.procfs.document?
  return .record [
    ("namespace_types", nat o.species.bits.toNat),
    ("scan_processes", .bool o.processes),
    ("scan_fds", .bool o.openFiles),
    ("scan_bind_mounts", .bool o.bindMounts),
    ("discover_hierarchy", .bool o.hierarchy),
    ("discover_ownership", .bool o.ownership),
    ("discover_mounts", .bool o.mountTables),
    ("with_pid_map", .bool o.pidMap),
    ("timeout", optional Span.document o.limit),
    ("sandbox_timeout", o.attachLimit.document),
    ("procfs", procfs)]

/-- The account of a discovery. -/
def Diagnostics.document (d : Diagnostics) : Document :=
  .record [
    ("skipped_processes", nat d.skippedProcesses),
    ("skipped_fd_dirs", nat d.skippedFileLists),
    ("skipped_fds", nat d.skippedFiles),
    ("skipped_bind_mounts", nat d.skippedBindMounts),
    ("unreachable_mount_namespaces", listOf Identity.document d.unreachable),
    ("hidden_namespaces", nat d.hidden),
    ("unresolved_owners", nat d.unowned),
    ("pid_map_mismatches", nat d.pidMismatches),
    ("sandboxes_spawned", nat d.sandboxes),
    ("interrupted", optional .text d.interrupted),
    ("notes", listOf .text d.notes)]

/-! ## Containers and users -/

/-- A container. -/
def Container.document (c : Container) : Document :=
  .record [
    ("id", .text c.id),
    ("name", .text c.name),
    ("engine", .text c.engine),
    ("pid", c.pid.document),
    ("pid_namespace", optional Identity.document c.pidSpace),
    ("paused", .bool c.paused),
    ("labels", .record (c.labels.map fun (key, value) => (key, .text value))),
    ("process", optional Pid.document c.process)]

/-- The word for whose user database it is. -/
def NameSource.text : NameSource → String
  | .initialMountNamespace => "initial_mount_namespace"
  | .ownMountNamespace => "own_mount_namespace"

/-- The names of users, and whose they are. -/
def UserNames.document (u : UserNames) : Document :=
  .record [
    ("names", .record (u.names.entries.map fun (uid, name) =>
      (Decimal.text uid.toNat, .text name))),
    ("source", .text u.source.text)]

/-! ## Whole surveys -/

namespace Survey

/-- The mount tables by mount namespace. -/
def mountsDocument (v : Survey) : Document :=
  listOf (fun (id, mounts) =>
    .record [("mnt", id.document), ("mounts", listOf Mount.document mounts)]) v.mounts.entries

/-- A survey. Mount tables and containers are written where there are any. -/
def document? (v : Survey) : Option Document := do
  let options ← v.options.document?
  let graph ← v.graph.document?
  let mounts := if v.mounts.isEmpty then [] else [("mounts", v.mountsDocument)]
  let containers :=
    if v.containers.isEmpty then [] else [("containers", listOf Container.document v.containers)]
  return .record ([
    ("options", options),
    ("namespaces", graph),
    ("processes", v.processes.document),
    ("own_namespaces", v.own.document (optional Identity.document))] ++ mounts ++ containers ++
    [("diagnostics", v.diagnostics.document)])

end Survey

end NamespaceAtlas
