-- The graph of namespaces: a registry for each species, and the relations
-- between namespaces kept on both sides.
import NamespaceAtlas.Namespace

namespace NamespaceAtlas

/-- All namespaces that were found. -/
structure Graph where
  registries : BySpecies (Registry Identity Namespace)

namespace Graph

/-- The graph without namespaces. -/
def empty : Graph := ⟨.same .empty⟩

/-- The namespaces of a species. -/
def ofSpecies (g : Graph) (s : Species) : Registry Identity Namespace := g.registries.get s

/-- The namespace of a species with an identity. -/
def get? (g : Graph) (s : Species) (id : Identity) : Option Namespace := (g.ofSpecies s).get? id

/-- Whether a namespace is known. -/
def contains (g : Graph) (s : Species) (id : Identity) : Bool := (g.ofSpecies s).contains id

/-- The identities of a species, ascending. -/
def ids (g : Graph) (s : Species) : List Identity := (g.ofSpecies s).keys

/-- All namespaces: species in the order of their slots, identities ascending. -/
def toList (g : Graph) : List Namespace := Species.all.flatMap fun s => (g.ofSpecies s).values

/-- How many namespaces there are. -/
def size (g : Graph) : Nat := Species.all.foldl (fun n s => n + (g.ofSpecies s).size) 0

/-- Whether there is no namespace. -/
def isEmpty (g : Graph) : Bool := Species.all.all fun s => (g.ofSpecies s).isEmpty

/-- Puts another registry in for a species. -/
def setSpecies (g : Graph) (s : Species) (r : Registry Identity Namespace) : Graph :=
  ⟨g.registries.set s r⟩

/-- Changes a namespace, if it is known. -/
def modify (g : Graph) (s : Species) (id : Identity) (f : Namespace → Namespace) : Graph :=
  g.setSpecies s ((g.ofSpecies s).modify id f)

/-- Records a namespace at its first sighting. One that is known keeps its reference. -/
def insertNew (g : Graph) (s : Species) (id : Identity) (reference : Reference) : Graph :=
  g.setSpecies s ((g.ofSpecies s).insertNew id (.new s id reference))

/-! ## Parents -/

/-- The parent of a namespace. -/
def parent? (g : Graph) (s : Species) (id : Identity) : Option Identity :=
  (g.get? s id).bind Namespace.parent?

/-- The namespaces of a species without a known parent, if the species has parents. -/
def roots (g : Graph) (s : Species) : List Namespace :=
  if s.hasParents then (g.ofSpecies s).values.filter (·.parent?.isNone) else []

/-- Goes up from a parent for so many steps, and stops before a namespace it has met. -/
def climb (g : Graph) (s : Species) :
    Nat → List Identity → Option Identity → List Identity
  | 0, met, _ => met
  | _ + 1, met, none => met
  | steps + 1, met, some id =>
    if id ∈ met then met else climb g s steps (met ++ [id]) (g.parent? s id)

/-- The ancestors of a namespace, nearest first. -/
def ancestors (g : Graph) (s : Species) (id : Identity) : List Identity :=
  g.climb s ((g.ofSpecies s).size + 1) [] (g.parent? s id)

/-- The relatives recorded of a namespace. -/
def hierarchy? (g : Graph) (s : Species) (id : Identity) : Option Hierarchy :=
  (g.get? s id).bind (·.kind.hierarchy?)

/-- Links a child under a parent. An edge that is there already stays as it is; an edge
that would give a second parent, or close a cycle, is refused. -/
def addChild (g : Graph) (s : Species) (parent child : Identity) : Except Error Graph :=
  if parent = child then .error (.namespaces (.ownParent s child))
  else if !g.contains s parent then .error (.namespaces (.unknownParent s parent))
  else
    match g.hierarchy? s child with
    | none => .error (.namespaces (.noHierarchy s child))
    | some h =>
      match h.parent with
      | some existing =>
        if existing = parent then .ok g else .error (.reparent s child existing parent)
      | none =>
        if child ∈ g.ancestors s parent then .error (.contract (.cycle s child parent))
        else .ok ((g.modify s child (·.setParent parent)).modify s parent (·.addChild child))

/-! ## Owners -/

/-- Links a namespace with the user namespace that owns it, in both directions. There is
no such graph if no owner is recorded, or the owner is not known. -/
def resolveOwner? (g : Graph) (s : Species) (id : Identity) : Option Graph :=
  if s = .user then none
  else do
    let owner ← (g.get? s id).bind (·.ownerId)
    let user ← g.get? .user owner
    if user.kind.holdings?.isNone then none
    else some ((g.modify .user owner (·.addOwned s id)).modify s id (·.setOwner owner))

end Graph

end NamespaceAtlas
