-- Parts of a discovery. A part puts questions to the kernel and adds to the
-- survey; what it has found stays found when it ends in an error.
import NamespaceAtlas.Survey
import NamespaceAtlas.Kernel

namespace NamespaceAtlas

/-- A discovery under way. -/
structure Run (σ : Type) where
  /-- The state of the kernel. -/
  kernel : σ
  /-- What was found so far. -/
  survey : Survey

/-- A part of a discovery. -/
abbrev Phase (σ α : Type) := ExceptT Error (StateM (Run σ)) α

namespace Phase

variable {σ α : Type}

/-- What was found so far. -/
def survey : Phase σ Survey := ExceptT.lift fun r => (r.survey, r)

/-- Changes what was found. -/
def change (f : Survey → Survey) : Phase σ Unit :=
  ExceptT.lift fun r => ((), { r with survey := f r.survey })

/-- Puts a question to the kernel that cannot fail. -/
def sure (m : StateM σ α) : Phase σ α :=
  ExceptT.lift fun r =>
    let (answer, kernel) := m r.kernel
    (answer, { r with kernel })

/-- Puts a question to the kernel and takes an error as an answer. -/
def attempt (m : Ask σ α) : Phase σ (Except Error α) := sure m.run

end Phase

namespace Kernel

variable {σ φ : Type} (k : Kernel σ φ)

/-- Ends a phase if the time for the discovery is up. -/
def checkTime (phase : String) : Phase σ Unit := do
  match (← Phase.survey).options.limit with
  | none => return
  | some limit => if ← Phase.sure (k.isLate limit) then throw (.late phase)

/-- The owner that the kernel reports of a namespace. It is not asked for the owner of a user
namespace, which is the parent. -/
def reportedOwner (s : Species) (f : φ) : StateM σ (Option Identity) := do
  if s = .user then return none
  else return (← (k.ownerOf f).run).toOption

/-- Records a namespace at its first sighting by a path, with its owner. -/
def sight (s : Species) (id : Identity) (f : φ) (reference : Reference) : Phase σ Unit := do
  let owner ← Phase.sure (k.reportedOwner s f)
  Phase.change (·.sighted s id reference owner)

end Kernel

end NamespaceAtlas
