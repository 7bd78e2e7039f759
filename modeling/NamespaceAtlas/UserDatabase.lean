-- The user database of a host: the one of the initial mount namespace, or our
-- own where that cannot be read.
import NamespaceAtlas.UserNames
import NamespaceAtlas.Gateway
import NamespaceAtlas.Survey

namespace NamespaceAtlas

/-- The users who created user namespaces. -/
def Survey.creators (v : Survey) : List UInt32 :=
  (v.graph.ofSpecies .user).values.filterMap Namespace.creator?

namespace Kernel

variable {σ φ : Type} (k : Kernel σ φ)

/-- Where the user database is. -/
def userDatabase : Path := "/etc/passwd"

/-- The user database of the initial mount namespace. -/
def initialUsers (limit : Span) : Ask σ String := do
  let init : Path := Path.proc.ofNamespace ⟨1⟩ .mount
  let initial ← k.identityAt init
  let own ← k.identityAt "/proc/self/ns/mnt"
  if initial = own then k.textOf userDatabase
  else
    let g ← k.gateway (.single init) limit
    k.through g (k.textThrough g userDatabase)

/-- The names of the users of a host. -/
def userNames (limit : Span) : StateM σ UserNames := do
  match ← (k.initialUsers limit).run with
  | .ok text => return .ofDatabase (Bytes.ofText text) .initialMountNamespace
  | .error _ =>
    let text ← (k.textOf userDatabase).run
    return .ofDatabase (Bytes.ofText (text.toOption.getD "")) .ownMountNamespace

/-- The names of the users who created user namespaces. -/
def creatorNames (v : Survey) (limit : Span) : StateM σ UserNames := do
  return (← k.userNames limit).restrictedTo v.creators

end Kernel

end NamespaceAtlas
