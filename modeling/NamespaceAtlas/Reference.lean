-- References: chains of paths by which a namespace is addressed.
import NamespaceAtlas.Path

namespace NamespaceAtlas

/-- The paths that address a namespace. The first is taken in the initial mount namespace,
each later one inside the mount namespace that the paths before it address. A reference
without paths marks a namespace that is known only as an ancestor. -/
structure Reference where
  paths : List Path
  deriving DecidableEq, Repr

namespace Reference

/-- The reference without paths. -/
def empty : Reference := ⟨[]⟩

/-- The reference of one path. -/
def single (p : Path) : Reference := ⟨[p]⟩

/-- Whether there is no path. -/
def isEmpty (r : Reference) : Bool := r.paths.isEmpty

/-- The number of paths. -/
def length (r : Reference) : Nat := r.paths.length

/-- The innermost path. -/
def last? (r : Reference) : Option Path := r.paths.getLast?

/-- What is found at a path inside the namespace that is addressed. -/
def join (r : Reference) (p : Path) : Reference := ⟨r.paths ++ [p]⟩

/-- The first paths only. -/
def take (r : Reference) (n : Nat) : Reference := ⟨r.paths.take n⟩

/-- Whether two references have like paths in the same order. -/
def alike (r q : Reference) : Bool :=
  r.length == q.length && (r.paths.zip q.paths).all fun (p, p') => p.alike p'

/-- A reference as messages show it. -/
def text (r : Reference) : String :=
  if r.isEmpty then "<hidden>" else " ▸ ".intercalate (r.paths.map Path.text)

end Reference

end NamespaceAtlas
