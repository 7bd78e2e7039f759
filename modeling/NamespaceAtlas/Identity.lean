-- Identities of namespaces, and process numbers.
import NamespaceAtlas.Registry
import NamespaceAtlas.Number.Decimal

namespace NamespaceAtlas

/-- The identity of a namespace: the device and the inode of its file. Two namespaces are
the same exactly when both agree. -/
structure Identity where
  device : UInt64
  inode : UInt64
  deriving DecidableEq, Repr

namespace Identity

/-- Whether the identity fits an inode taken from kernel text, which names no device. -/
def hasInode (id : Identity) (inode : UInt64) : Bool := id.inode == inode

/-- An identity as messages show it: the inode, and the device to the base sixteen. -/
def text (id : Identity) : String :=
  Decimal.text id.inode.toNat ++ "@" ++ Decimal.hexText id.device.toNat

/-- How many identities there are. No walk from one namespace to the next is longer. -/
def count : Nat := UInt64.size * UInt64.size

/-- Identities are ordered by device, then by inode. -/
instance : Ranked Identity where
  rank id := (id.device.toNat : Int) * 18446744073709551616 + id.inode.toNat
  rank_injective a b h := by
    obtain ⟨da, ia⟩ := a
    obtain ⟨db, ib⟩ := b
    have h1 := ia.toNat_lt
    have h2 := ib.toNat_lt
    simp only [Identity.mk.injEq, ← UInt64.toNat_inj]
    simp only at h
    omega

end Identity

/-! ## Process numbers -/

/-- The number of a process. -/
structure Pid where
  number : Int32
  deriving DecidableEq, Repr

namespace Pid

/-- The process number of an integer, taken to 32 bits. -/
def ofInt (n : Int) : Pid := ⟨Int32.ofInt n⟩

/-- A process number as an integer. -/
def toInt (p : Pid) : Int := p.number.toInt

/-- A process number in decimal. -/
def text (p : Pid) : String := Decimal.signedText p.toInt

/-- The process number that a text gives. -/
def read (cs : List Char) : Except NumberFault Pid := (Decimal.readInt32 cs).map Pid.mk

/-- Process numbers are ordered as integers. -/
instance : Ranked Pid where
  rank := Pid.toInt
  rank_injective a b h := by
    obtain ⟨a⟩ := a
    obtain ⟨b⟩ := b
    simpa [Pid.toInt, Int32.toInt_inj] using h

end Pid

end NamespaceAtlas
