-- The eight species of Linux namespaces: their names, their kernel flags, and
-- the text by which the kernel names one namespace.
import NamespaceAtlas.Text.Blank
import NamespaceAtlas.Number.Decimal

namespace NamespaceAtlas

/-- A species of namespaces. -/
inductive Species where
  | mount
  | cgroup
  | uts
  | ipc
  | user
  | pid
  | net
  | time
  deriving DecidableEq, Repr

namespace Species

/-- All species, in the order of their slots. -/
def all : List Species := [mount, cgroup, uts, ipc, user, pid, net, time]

/-- The slot of a species. -/
def slot : Species → Nat
  | mount => 0
  | cgroup => 1
  | uts => 2
  | ipc => 3
  | user => 4
  | pid => 5
  | net => 6
  | time => 7

/-- The species of a slot. -/
def ofSlot? (n : Nat) : Option Species := all[n]?

theorem mem_all (s : Species) : s ∈ all := by
  cases s <;> decide

theorem nodup_all : all.Nodup := by decide

theorem map_slot_all : all.map slot = List.range 8 := rfl

theorem ofSlot?_slot (s : Species) : ofSlot? s.slot = some s := by
  cases s <;> rfl

theorem slot_inj {s t : Species} : s.slot = t.slot ↔ s = t := by
  refine ⟨fun h => Option.some.inj ?_, congrArg slot⟩
  rw [← ofSlot?_slot s, h, ofSlot?_slot]

theorem slot_lt (s : Species) : s.slot < 8 := by
  have hmem : s.slot ∈ all.map slot := List.mem_map_of_mem s.mem_all
  rwa [map_slot_all, List.mem_range] at hmem

/-- Each of the eight slots has a species. -/
theorem exists_slot_eq {n : Nat} (h : n < 8) : ∃ s : Species, s.slot = n := by
  have hmem : n ∈ all.map slot := by rwa [map_slot_all, List.mem_range]
  obtain ⟨s, _, hs⟩ := List.mem_map.1 hmem
  exact ⟨s, hs⟩

/-- The short name, as the directory `ns` of a process has it. -/
def name : Species → String
  | mount => "mnt"
  | cgroup => "cgroup"
  | uts => "uts"
  | ipc => "ipc"
  | user => "user"
  | pid => "pid"
  | net => "net"
  | time => "time"

/-- The species of a short name. -/
def ofName? (name : String) : Option Species := all.find? (·.name == name)

/-- The flag by which the kernel knows the species. -/
def flag : Species → Nat
  | mount => 0x00020000
  | cgroup => 0x02000000
  | uts => 0x04000000
  | ipc => 0x08000000
  | user => 0x10000000
  | pid => 0x20000000
  | net => 0x40000000
  | time => 0x00000080

/-- The species of a kernel flag. -/
def ofFlag? (flag : Nat) : Option Species := all.find? (·.flag == flag)

/-- User and PID namespaces have parents and children. -/
def hasParents : Species → Bool
  | user | pid => true
  | _ => false

/-! ## Kernel text -/

/-- The text by which the kernel names a namespace, such as `net:[4026531993]`. -/
def text (s : Species) (inode : UInt64) : String :=
  s.name ++ ":[" ++ Decimal.text inode.toNat ++ "]"

/-- Parts a text at its first `:[`. -/
def cutAtBracket : List Char → Option (List Char × List Char)
  | [] => none
  | ':' :: '[' :: rest => some ([], rest)
  | c :: rest => (cutAtBracket rest).map fun (before, after) => (c :: before, after)

/-- The text before a closing bracket at its end. -/
def beforeBracket? (cs : List Char) : Option (List Char) :=
  match cs.reverse with
  | ']' :: before => some before.reverse
  | _ => none

/-- The species and the inode that a kernel text names. It names no device, so the inode
alone is no identity. -/
def parseText? (text : String) : Option (Species × UInt64) := do
  let (name, rest) ← cutAtBracket text.toList
  let number ← beforeBracket? rest
  let inode ← (Decimal.readUInt64 number).toOption
  let species ← ofName? (String.ofList name)
  return (species, inode)

end Species

/-! ## One value for each species -/

/-- A value for each species. -/
structure BySpecies (α : Type) where
  mount : α
  cgroup : α
  uts : α
  ipc : α
  user : α
  pid : α
  net : α
  time : α
  deriving DecidableEq

namespace BySpecies

variable {α β : Type}

/-- The same value for each species. -/
def same (a : α) : BySpecies α := ⟨a, a, a, a, a, a, a, a⟩

/-- The value of a species. -/
def get (b : BySpecies α) : Species → α
  | .mount => b.mount
  | .cgroup => b.cgroup
  | .uts => b.uts
  | .ipc => b.ipc
  | .user => b.user
  | .pid => b.pid
  | .net => b.net
  | .time => b.time

/-- Gives a species another value. -/
def set (b : BySpecies α) (s : Species) (a : α) : BySpecies α :=
  match s with
  | .mount => { b with mount := a }
  | .cgroup => { b with cgroup := a }
  | .uts => { b with uts := a }
  | .ipc => { b with ipc := a }
  | .user => { b with user := a }
  | .pid => { b with pid := a }
  | .net => { b with net := a }
  | .time => { b with time := a }

/-- The values in the order of the slots. -/
def toList (b : BySpecies α) : List α := Species.all.map b.get

@[simp] theorem get_same (a : α) (s : Species) : (same a).get s = a := by
  cases s <;> rfl

@[simp] theorem get_set (b : BySpecies α) (s : Species) (a : α) : (b.set s a).get s = a := by
  cases s <;> rfl

/-- Another species keeps its value. -/
theorem get_set_of_ne (b : BySpecies α) {s t : Species} (a : α) (h : t ≠ s) :
    (b.set s a).get t = b.get t := by
  cases s <;> cases t <;> first | rfl | exact absurd rfl h

/-- The value that a function gives each species. -/
def ofFun (f : Species → α) : BySpecies α :=
  ⟨f .mount, f .cgroup, f .uts, f .ipc, f .user, f .pid, f .net, f .time⟩

@[simp] theorem get_ofFun (f : Species → α) (s : Species) : (ofFun f).get s = f s := by
  cases s <;> rfl

@[simp] theorem set_set (b : BySpecies α) (s : Species) (a c : α) :
    (b.set s a).set s c = b.set s c := by
  cases s <;> rfl

@[simp] theorem set_get (b : BySpecies α) (s : Species) : b.set s (b.get s) = b := by
  cases s <;> rfl

/-- Values that agree for each species are the same. -/
theorem ext_get {b c : BySpecies α} (h : ∀ s, b.get s = c.get s) : b = c := by
  obtain ⟨⟩ := b
  obtain ⟨⟩ := c
  have := h .mount
  have := h .cgroup
  have := h .uts
  have := h .ipc
  have := h .user
  have := h .pid
  have := h .net
  have := h .time
  simp_all [get]

end BySpecies

end NamespaceAtlas
