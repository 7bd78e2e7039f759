-- What documents are read as: options, containers and references. A record
-- may also be given as the list of its values in order; names that are not
-- known are passed over.
import NamespaceAtlas.Document
import NamespaceAtlas.Options
import NamespaceAtlas.Reference
import NamespaceAtlas.Container

namespace NamespaceAtlas

namespace Document

/-- A record whose fields have these names, or the list of its values. Each value is given
back in order, `none` where it is missing. A longer list is refused. -/
def fieldsOf? (names : List String) : Document → Option (List (Option Document))
  | list l => if l.length ≤ names.length then some ((l.map some) ++
      List.replicate (names.length - l.length) none) else none
  | record fields => some (names.map fun name => (fields.reverse.find? (·.1 == name)).map (·.2))
  | _ => none

/-- A record all of whose fields are there, or the list of its values. -/
def allFieldsOf? (names : List String) (d : Document) : Option (List Document) := do
  (← d.fieldsOf? names).mapM id

/-- A value that may be null. -/
def optional? {α : Type} (read : Document → Option α) : Document → Option (Option α)
  | null => some none
  | d => (read d).map some

/-- A list, item by item. -/
def listOf? {α : Type} (read : Document → Option α) (d : Document) : Option (List α) := do
  (← d.list?).mapM read

end Document

/-! ## Parts -/

/-- The identity of a document. -/
def Identity.ofDocument? (d : Document) : Option Identity := do
  let [device, inode] ← d.allFieldsOf? ["dev", "ino"] | none
  return ⟨← device.uint64?, ← inode.uint64?⟩

/-- The process number of a document. -/
def Pid.ofDocument? (d : Document) : Option Pid := d.int32?.map Pid.mk

/-- The path that a text spells. -/
def Path.ofDocument? (d : Document) : Option Path := d.text?.map Path.ofText

/-- The reference of a list of paths. -/
def Reference.ofDocument? (d : Document) : Option Reference :=
  (d.listOf? Path.ofDocument?).map Reference.mk

/-- A span of time. It has no other fields. -/
def Span.ofDocument? (d : Document) : Option Span := do
  if !d.names.all fun name => name == "secs" || name == "nanos" then none
  else
    let [seconds, nanos] ← d.allFieldsOf? ["secs", "nanos"] | none
    carried? (← seconds.uint64?).toNat (← nanos.uint32?).toNat

/-! ## Options -/

/-- The names of the options, in order. -/
def Options.fieldNames : List String := [
  "namespace_types", "scan_processes", "scan_fds", "scan_bind_mounts", "discover_hierarchy",
  "discover_ownership", "discover_mounts", "with_pid_map", "timeout", "sandbox_timeout", "procfs"]

/-- The options of a document. Only the limit may be missing in a record. The word of the
species keeps every bit it has. -/
def Options.ofDocument? (d : Document) : Option Options := do
  let values ← d.fieldsOf? fieldNames
  let [some species, some processes, some openFiles, some bindMounts, some hierarchy,
    some ownership, some mountTables, some pidMap, limit, some attachLimit, some procfs] :=
    values | none
  return {
    species := ⟨← species.uint32?⟩
    processes := ← processes.bool?
    openFiles := ← openFiles.bool?
    bindMounts := ← bindMounts.bool?
    hierarchy := ← hierarchy.bool?
    ownership := ← ownership.bool?
    mountTables := ← mountTables.bool?
    pidMap := ← pidMap.bool?
    limit := ← (limit.getD .null).optional? Span.ofDocument?
    attachLimit := ← Span.ofDocument? attachLimit
    procfs := ← Path.ofDocument? procfs }

/-! ## Containers -/

/-- Files a label among others with ascending keys. A value under the same key gives way. -/
def Container.addLabel (key value : String) : List (String × String) → List (String × String)
  | [] => [(key, value)]
  | (k, v) :: rest =>
    if key < k then (key, value) :: (k, v) :: rest
    else if key = k then (key, value) :: rest
    else (k, v) :: addLabel key value rest

/-- The labels of a document. -/
def Container.labels? : Document → Option (List (String × String))
  | .record fields =>
    fields.foldlM (fun l (key, value) => value.text?.map fun text => addLabel key text l) []
  | _ => none

/-- The container of a document. All that follows the process number may be missing. -/
def Container.ofDocument? (d : Document) : Option Container := do
  let values ← d.fieldsOf?
    ["id", "name", "engine", "pid", "pid_namespace", "paused", "labels", "process"]
  let [some id, some name, some engine, some pid, pidSpace, paused, labels, process] := values
    | none
  return {
    id := ← id.text?
    name := ← name.text?
    engine := ← engine.text?
    pid := ← Pid.ofDocument? pid
    pidSpace := ← (pidSpace.getD .null).optional? Identity.ofDocument?
    paused := ← (paused.getD (.bool false)).bool?
    labels := ← labels? (labels.getD (.record []))
    process := ← (process.getD .null).optional? Pid.ofDocument? }

/-- The containers of a document. -/
def Container.listOfDocument? (d : Document) : Option (List Container) :=
  d.listOf? Container.ofDocument?

end NamespaceAtlas
