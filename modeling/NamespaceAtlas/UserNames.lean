-- The names of users, read from a user database.
import NamespaceAtlas.Error

namespace NamespaceAtlas

/-- Numbers of users are ordered as numbers. -/
instance : Ranked UInt32 where
  rank n := n.toNat
  rank_injective a b h := UInt32.toNat_inj.1 (by omega)

/-- Whose user database the names are from. -/
inductive NameSource where
  | initialMountNamespace
  | ownMountNamespace
  deriving DecidableEq, Repr

/-- The names of users by number. -/
structure UserNames where
  names : Registry UInt32 String
  source : NameSource

namespace UserNames

/-- A line that is empty, a comment, or a placeholder for another database. -/
def isPassedOver : List Char → Bool
  | [] => true
  | c :: _ => c == '#' || c == '+' || c == '-'

/-- The number and the name that a line gives, if it gives them. -/
def userOf? (line : List Char) : Option (UInt32 × String) :=
  let line := trim line
  if isPassedOver line then none
  else
    match piecesUpTo (· == ':') 4 line with
    | name :: _ :: uid :: _ =>
      (Decimal.readUInt32 uid).toOption.map fun uid => (uid, String.ofList name)
    | _ => none

/-- The lines of a file up to the first that is no text. -/
def readableLines : List Bytes → List String
  | [] => []
  | line :: rest =>
    match Bytes.text? line with
    | some text => text :: readableLines rest
    | none => []

/-- The names that a user database gives. The first name of a number stays. -/
def namesOf (database : Bytes) : Registry UInt32 String :=
  (readableLines (pieces (· == 0x0A) database)).foldl (fun r line =>
    match userOf? line.toList with
    | some (uid, name) => r.insertNew uid name
    | none => r) .empty

/-- The names of a user database, and whose it is. -/
def ofDatabase (database : Bytes) (source : NameSource) : UserNames := ⟨namesOf database, source⟩

/-- The name of a user. -/
def get? (u : UserNames) (uid : UInt32) : Option String := u.names.get? uid

/-- The name of a user, or the number if there is no name. -/
def title (u : UserNames) (uid : UInt32) : String :=
  (u.get? uid).getD (Decimal.text uid.toNat)

/-- Keeps the names of some users only. -/
def restrictedTo (u : UserNames) (uids : List UInt32) : UserNames :=
  { u with names := u.names.restrict fun uid => uid ∈ uids }

end UserNames

end NamespaceAtlas
