-- Selections of species, as a word with one bit for each slot.
import NamespaceAtlas.Species

namespace NamespaceAtlas

/-- A selection of species. A word read from a stored one keeps every bit it has; only
the lowest eight bits select. -/
structure Selection where
  bits : UInt32
  deriving DecidableEq, Repr

namespace Selection

/-- Selects nothing. -/
def none : Selection := ⟨0⟩

/-- Selects every species. -/
def all : Selection := ⟨0xFF⟩

/-- Selects one species. -/
def single (s : Species) : Selection := ⟨1 <<< UInt32.ofNat s.slot⟩

/-- The selection of a word: the bits past the last slot are dropped. -/
def ofBits (bits : UInt32) : Selection := ⟨bits &&& all.bits⟩

/-- What either of two selections has. -/
def union (a b : Selection) : Selection := ⟨a.bits ||| b.bits⟩

/-- What both of two selections have. -/
def inter (a b : Selection) : Selection := ⟨a.bits &&& b.bits⟩

/-- Whether every bit of `b` is set in `a`. -/
def contains (a b : Selection) : Bool := a.bits &&& b.bits == b.bits

/-- Whether no bit is set. -/
def isEmpty (a : Selection) : Bool := a.bits == 0

/-- Whether a species is selected. -/
def has (a : Selection) (s : Species) : Bool := a.contains (single s)

/-- The selected species, in the order of their slots. -/
def species (a : Selection) : List Species := Species.all.filter a.has

/-- Selects the species of a list. -/
def ofList (l : List Species) : Selection := l.foldl (fun a s => a.union (single s)) none

end Selection

end NamespaceAtlas
