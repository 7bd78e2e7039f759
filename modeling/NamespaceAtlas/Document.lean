-- Documents: the values that JSON can write down.
import NamespaceAtlas.Number.Decimal

namespace NamespaceAtlas

/-- A document. -/
inductive Document where
  | null
  | bool (b : Bool)
  | int (n : Int)
  /-- A number with a fraction or an exponent, as it is spelled. It is never taken for a whole
  number. -/
  | real (spelling : String)
  | text (s : String)
  | list (l : List Document)
  /-- Values under names, in the order in which they are written. -/
  | record (fields : List (String × Document))
  deriving Repr, Inhabited

namespace Document

/-! ## Views -/

/-- The value under a name in a record. The last one counts; without one it is null. -/
def field (d : Document) (name : String) : Document :=
  match d with
  | record fields => ((fields.reverse.find? (·.1 == name)).map (·.2)).getD null
  | _ => null

/-- The names in a record. -/
def names : Document → List String
  | record fields => fields.map (·.1)
  | _ => []

/-- Whether it is null. -/
def isNull : Document → Bool
  | null => true
  | _ => false

/-- The truth value that a document is. -/
def bool? : Document → Option Bool
  | bool b => some b
  | _ => none

/-- The whole number that a document is. -/
def int? : Document → Option Int
  | int n => some n
  | _ => none

/-- The text that a document is. -/
def text? : Document → Option String
  | text s => some s
  | _ => none

/-- The items of a document that is a list. -/
def list? : Document → Option (List Document)
  | list l => some l
  | _ => none

/-- A whole number from zero to a limit. -/
def natUpTo? (limit : Nat) (d : Document) : Option Nat := do
  let n ← d.int?
  if 0 ≤ n ∧ n ≤ limit then some n.toNat else none

/-- A word of 64 bits. -/
def uint64? (d : Document) : Option UInt64 := (d.natUpTo? (UInt64.size - 1)).map UInt64.ofNat

/-- A word of 32 bits. -/
def uint32? (d : Document) : Option UInt32 := (d.natUpTo? (UInt32.size - 1)).map UInt32.ofNat

/-- A signed word of 32 bits. -/
def int32? (d : Document) : Option Int32 := do
  let n ← d.int?
  if -2147483648 ≤ n ∧ n < 2147483648 then some (Int32.ofInt n) else none

/-! ## Making -/

/-- A count. -/
def nat (n : Nat) : Document := int n

/-- A value that may be absent; null stands for none. -/
def optional {α : Type} (write : α → Document) : Option α → Document
  | some a => write a
  | none => null

/-- A list, item by item. -/
def listOf {α : Type} (write : α → Document) (l : List α) : Document := list (l.map write)

end Document

end NamespaceAtlas
