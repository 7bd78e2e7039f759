-- Resolution of paths inside another root. The root may lie anywhere; links
-- and `..` on the way are taken as if it were `/`.
import NamespaceAtlas.Kernel

namespace NamespaceAtlas

/-- What stands at a place. -/
inductive Sight where
  | missing
  /-- Anything but a symbolic link. -/
  | plain
  | link (target : Path)
  deriving DecidableEq, Repr

/-- A link to a namespace. Its target is the text of the namespace and no path. -/
def Path.isNamespaceText (p : Path) : Bool :=
  ((Bytes.text? p.bytes).bind Species.parseText?).isSome

/-- The most symbolic links that one resolution follows. -/
def linkLimit : Nat := 40

/-- Goes on with a resolution: `links` may still be followed, `done` are the names so far,
counted from the root, and `pending` those to come. `..` takes a name off and stays at the
root. A link puts its names in front, and an absolute one starts at the root again. A link
to a namespace stays. Where nothing stands, the names are kept as they are. -/
def resolveNames {σ : Type} (look : List Name → StateM σ (Except FileFault Sight)) (path : Path) :
    (links : Nat) → (done pending : List Name) → StateM σ (Except FileFault (List Name))
  | _, done, [] => pure (.ok done)
  | links, done, name :: rest =>
    if name = Path.parentName then resolveNames look path links done.dropLast rest
    else do
      let here := done ++ [name]
      match ← look here with
      | .error why => return .error why
      | .ok .missing => return .ok (here ++ rest)
      | .ok .plain => resolveNames look path links here rest
      | .ok (.link target) =>
        if target.isNamespaceText then resolveNames look path links here rest
        else
          match links with
          | 0 => return .error (.tooManyLinks path)
          | links + 1 =>
            resolveNames look path links (if target.isAbsolute then [] else done)
              (target.steps ++ rest)
termination_by links _ pending => (links, pending.length)

namespace Kernel

variable {σ φ : Type} (k : Kernel σ φ)

/-- What stands at a path. -/
def look (p : Path) : StateM σ (Except FileFault Sight) := do
  match ← k.isLink p with
  | .error why => return if why.isMissing then .ok .missing else .error why
  | .ok false => return .ok .plain
  | .ok true =>
    match ← k.linkTarget p with
    | .ok target => return .ok (.link target)
    | .error why => return .error why

end Kernel

/-- The path of names below a root. The empty root is our own. -/
def Path.below (root : Path) (names : List Name) : Path :=
  if root.bytes = [] then Path.root.join (ofNames names) else root.join (ofNames names)

/-- The path that a path inside a root has for us, links resolved. -/
def Kernel.resolveIn {σ φ : Type} (k : Kernel σ φ) (root path : Path) : Ask σ Path := do
  let names ← Ask.file (resolveNames (fun names => k.look (root.below names)) path
    linkLimit [] path.steps)
  return root.below names

end NamespaceAtlas
