-- Descriptions of hosts, as documents.
import NamespaceAtlas.Host
import NamespaceAtlas.Document.Readings

namespace NamespaceAtlas

/-- Bytes: a text stands for its own, and a record may give them to the base sixteen. -/
def Bytes.ofDocument? : Document → Option Bytes
  | .text s => some (Bytes.ofText s)
  | d => do pairs (← (d.field "hex").text?).toList
where
  pairs : List Char → Option Bytes
    | [] => some []
    | a :: b :: rest => do
      return UInt8.ofNat ((← digit? a) * 16 + (← digit? b)) :: (← pairs rest)
    | [_] => none
  digit? (c : Char) : Option Nat :=
    if '0' ≤ c ∧ c ≤ '9' then some (c.toNat - 48)
    else if 'a' ≤ c ∧ c ≤ 'f' then some (c.toNat - 87)
    else if 'A' ≤ c ∧ c ≤ 'F' then some (c.toNat - 55)
    else none

namespace Host

open Document (optional? listOf?)

/-- The fields of a record; null has none. -/
def fields? : Document → Option (List (String × Document))
  | .record fields => some fields
  | .null => some []
  | _ => none

/-- A list; null is the empty one. -/
def items? {α : Type} (read : Document → Option α) (d : Document) : Option (List α) :=
  if d.isNull then some [] else d.listOf? read

/-- An error number. -/
def errno? (d : Document) : Option Errno := d.int?.map Errno.mk

/-- What happens to a process that enters: it is let in, it never comes back, it ends, or it
is refused with an error number. -/
def admission? : Document → Option Admission
  | .null => some .granted
  | .text "hang" => some .hangs
  | .text "exit" => some .ends
  | d => (errno? d).map .refused

/-- The path that bytes spell. -/
def path? (d : Document) : Option Path := (Bytes.ofDocument? d).map Path.mk

/-- The namespace of a description. -/
def Space.ofDocument? (d : Document) : Option Space := do
  return {
    species := ← Species.ofName? (← (d.field "type").text?)
    id := ⟨((← (d.field "dev").optional? Document.uint64?).getD 4), ← (d.field "ino").uint64?⟩
    parent := ← (d.field "parent").optional? Document.text?
    owner := ← (d.field "owner").optional? Document.text?
    creator := ← (d.field "owner_uid").optional? Document.uint32?
    flag := ← (d.field "nstype").optional? Document.int?
    unidentified := ← (d.field "stat_errno").optional? errno?
    admission := ← admission? (d.field "setns")
    guarded := (← (d.field "needs_user").optional? Document.bool?).getD false
    tree := ← (d.field "tree").optional? Document.text?
    table := ← (d.field "mountinfo").optional? Bytes.ofDocument? }

/-- The open file of a description. -/
def OpenFile.ofDocument? (d : Document) : Option OpenFile := do
  return {
    name := ← Bytes.ofDocument? (d.field "fd")
    target := ← (d.field "target").optional? path?
    space := ← (d.field "ns").optional? Document.text? }

/-- The namespaces that a process has joined, by species. -/
def joined? (d : Document) : Option (List (Species × Option String)) := do
  (← fields? d).mapM fun (key, label) => do
    return (← Species.ofName? key, ← label.optional? Document.text?)

/-- The process of a description. -/
def Resident.ofDocument? (d : Document) : Option Resident := do
  return {
    directory := ← Bytes.ofDocument? (d.field "dir")
    stat := ← (d.field "stat").optional? Bytes.ofDocument?
    arguments := ← (d.field "cmdline").optional? Bytes.ofDocument?
    status := ← (d.field "status").optional? Bytes.ofDocument?
    table := ← (d.field "mountinfo").optional? Bytes.ofDocument?
    spaces := ← (d.field "ns").optional? joined?
    files := ← (d.field "fds").optional? (·.listOf? OpenFile.ofDocument?)
    tree := ← (d.field "root").optional? Document.text? }

/-- The file of a fixture: a link, a namespace, bytes, or else a directory. -/
def file? (d : Document) : Option FileTree :=
  if !(d.field "link").isNull then (path? (d.field "link")).map .link
  else if !(d.field "ns").isNull then (d.field "ns").text?.map .space
  else if !(d.field "file").isNull then (Bytes.ofDocument? (d.field "file")).map .plain
  else some .bare

/-- The fixture of a description. -/
def Fixture.ofDocument? (d : Document) : Option Fixture := do
  return ⟨← path? (d.field "path"), ← file? d⟩

/-- The host of a description. -/
def ofDocument? (d : Document) : Option Host := do
  return {
    caller := (← (d.field "self").optional? Pid.ofDocument?).getD ⟨1⟩
    spaces := ← (← fields? (d.field "namespaces")).mapM fun (label, space) => do
      return (label, ← Space.ofDocument? space)
    residents := ← items? Resident.ofDocument? (d.field "processes")
    trees := ← (← fields? (d.field "trees")).mapM fun (tree, fixtures) => do
      return (tree, ← fixtures.listOf? Fixture.ofDocument?)
    forkFault := ← (d.field "fork_errno").optional? errno? }

end Host

end NamespaceAtlas
