-- Questions that leave something in the kernel alone. All questions but those
-- that start or end a sandbox are quiet; so is every part of a discovery that
-- puts only such questions.
import NamespaceAtlas.Proofs.Kept

namespace NamespaceAtlas

variable {σ φ : Type}

theorem keeps_resolveNames {P : σ → Prop} {look : List Name → StateM σ (Except FileFault Sight)}
    (hlook : ∀ names, Keeps P (look names)) (path : Path) (links : Nat) (done pending : List Name) :
    Keeps P (resolveNames look path links done pending) := by
  induction links, done, pending using resolveNames.induct with
  | case1 links done =>
    unfold resolveNames
    exact Keeps.pure
  | case2 links done rest ih =>
    unfold resolveNames
    rw [if_pos rfl]
    exact ih
  | case3 links done name rest hname here ihplain ihlink =>
    unfold resolveNames
    rw [if_neg hname]
    apply Keeps.bind (hlook _)
    rintro (why | sight)
    · exact Keeps.pure
    · cases sight with
      | missing => exact Keeps.pure
      | plain => exact ihplain
      | link target =>
        dsimp only
        split
        · exact ihplain
        · cases links with
          | zero => exact Keeps.pure
          | succ links => exact ihlink target

namespace Kernel

/-- `P` outlasts every question of a kernel, except those that start or end a sandbox. -/
structure Quiet (k : Kernel σ φ) (P : σ → Prop) : Prop where
  directory : Keeps P k.directory
  isLink : ∀ p, Keeps P (k.isLink p)
  linkTarget : ∀ p, Keeps P (k.linkTarget p)
  listing : ∀ p, Keeps P (k.listing p)
  contents : ∀ p, Keeps P (k.contents p)
  openFile : ∀ p, Keeps P (k.openFile p)
  identify : ∀ f, Keeps P (k.identify f)
  identifyAt : ∀ p, Keeps P (k.identifyAt p)
  speciesFlag : ∀ f, Keeps P (k.speciesFlag f)
  owner : ∀ f, Keeps P (k.owner f)
  parent : ∀ f, Keeps P (k.parent f)
  creator : ∀ f, Keeps P (k.creator f)
  isLate : ∀ limit, Keeps P (k.isLate limit)

namespace Quiet

variable {k : Kernel σ φ} {P : σ → Prop} (hk : k.Quiet P)
include hk

/-! ## Files and namespaces -/

theorem opened (p : Path) : Keeps P (k.opened p).run := .file (hk.openFile p)

theorem identityOf (f : φ) : Keeps P (k.identityOf f).run := .file (hk.identify f)

theorem identityAt (p : Path) : Keeps P (k.identityAt p).run := .file (hk.identifyAt p)

theorem openedNamespace (p : Path) : Keeps P (k.openedNamespace p).run := by
  apply Keeps.run_bind (hk.opened p)
  intro f
  apply Keeps.run_bind (hk.identityOf f)
  intro id
  exact Keeps.run_pure

theorem ownerOf (f : φ) : Keeps P (k.ownerOf f).run := by
  apply Keeps.run_bind (Keeps.system (hk.owner f))
  intro owner
  exact hk.identityOf owner

theorem speciesOf (f : φ) : Keeps P (k.speciesOf f).run := by
  apply Keeps.run_bind (Keeps.system (hk.speciesFlag f))
  intro flag
  split
  · exact Keeps.run_pure
  · exact Keeps.run_throw

theorem reportedOwner (s : Species) (f : φ) : Keeps P (k.reportedOwner s f) := by
  unfold Kernel.reportedOwner
  split
  · exact Keeps.pure
  · exact Keeps.bind (hk.ownerOf f) fun _ => Keeps.pure

/-! ## Paths in another root -/

theorem look (p : Path) : Keeps P (k.look p) := by
  apply Keeps.bind (hk.isLink p)
  rintro (why | link)
  · dsimp only
    split
    · exact Keeps.pure
    · exact Keeps.pure
  · cases link with
    | false => exact Keeps.pure
    | true =>
      apply Keeps.bind (hk.linkTarget p)
      rintro (why | target)
      · exact Keeps.pure
      · exact Keeps.pure

theorem resolveIn (root path : Path) : Keeps P (k.resolveIn root path).run := by
  apply Keeps.run_bind
  · apply Keeps.file
    apply keeps_resolveNames
    intro names
    exact hk.look _
  · intro names
    exact Keeps.run_pure

theorem initialPath (p : Path) : Keeps P (k.initialPath p).run := by
  unfold Kernel.initialPath
  split
  · exact Keeps.run_pure
  · apply Keeps.run_bind
    · apply Keeps.run_bind (Keeps.run_lift (hk.linkTarget _))
      intro target
      split
      · exact Keeps.run_pure
      · exact Keeps.run_pure
    · intro root
      exact hk.resolveIn root p

theorem absolute (p : Path) : Keeps P (k.absolute p).run := by
  unfold Kernel.absolute
  split
  · exact Keeps.run_pure
  · apply Keeps.run_bind (Keeps.file hk.directory)
    intro directory
    exact Keeps.run_pure

theorem resolveThrough (g : Gateway) (p : Path) : Keeps P (k.resolveThrough g p).run :=
  .run_bind (hk.absolute p) fun _ => hk.resolveIn g.root _

theorem openThrough (g : Gateway) (p : Path) : Keeps P (k.openThrough g p).run :=
  .run_bind (hk.resolveThrough g p) hk.opened

/-! ## Mount namespaces -/

theorem openedMount (reference : Reference) (p : Path) :
    Keeps P (k.openedMount reference p).run := by
  apply Keeps.run_bind (hk.opened p)
  intro f
  apply Keeps.run_bind (Keeps.run_lift (hk.speciesOf f))
  intro species
  split
  · exact Keeps.run_pure
  · exact Keeps.run_throw
  · exact Keeps.run_throw

theorem userToEnter (mount : φ) : Keeps P (k.userToEnter mount) := by
  apply Keeps.bind (hk.owner mount)
  rintro (why | owner)
  · exact Keeps.pure
  · apply Keeps.bind (hk.identify owner)
    rintro (why | ownerId)
    · exact Keeps.pure
    · apply Keeps.bind (hk.identifyAt _)
      rintro (why | ownId)
      · exact Keeps.pure
      · exact Keeps.pure

theorem ownReference (own : Identity) : Keeps P (k.ownReference own) :=
  .bind (hk.identityAt _) fun _ => .pure

/-! ## The start of a discovery -/

theorem contents? (p : Path) : Keeps P (k.contents? p) := .bind (hk.contents p) fun _ => .pure

theorem process? (procfs : Path) (pid : Pid) : Keeps P (k.process? procfs pid) := by
  apply Keeps.bind (hk.contents? _)
  rintro (_ | stat)
  · exact Keeps.pure
  · dsimp only
    split
    · apply Keeps.bind (hk.contents? _)
      intro arguments
      apply Keeps.bind (hk.contents? _)
      intro status
      exact Keeps.pure
    · exact Keeps.pure

theorem processesOf (procfs : Path) (pids : List Pid) : Keeps P (k.processesOf procfs pids) := by
  induction pids with
  | nil => exact Keeps.pure
  | cons pid rest ih =>
    apply Keeps.bind (hk.process? procfs pid)
    intro p
    apply Keeps.bind ih
    intro more
    exact Keeps.pure

theorem processTable (procfs : Path) : Keeps P (k.processTable procfs) := by
  apply Keeps.bind (hk.listing procfs)
  rintro (why | names)
  · exact Keeps.pure
  · apply Keeps.bind (hk.processesOf procfs _)
    intro l
    exact Keeps.pure

theorem ownNamespaces (l : List Species) : Keeps P (k.ownNamespaces l) := by
  induction l with
  | nil => exact Keeps.pure
  | cons s rest ih =>
    apply Keeps.bind (hk.identityAt _)
    intro id
    apply Keeps.bind ih
    intro others
    exact Keeps.pure

theorem freshSurvey (o : Options) : Keeps P (k.freshSurvey o) := by
  apply Keeps.bind (hk.processTable o.procfs)
  intro processes
  apply Keeps.bind (hk.ownNamespaces o.inScope)
  intro own
  exact Keeps.pure

end Quiet

end Kernel

/-! ## Phases -/

/-- `P` outlasts a phase that puts a question, whatever becomes of the survey. -/
theorem Keeps.asks {P : σ → Prop} {α : Type} {m : StateM σ α} (hm : Keeps P m) :
    Keeps (fun r : Run σ => P r.kernel) (Phase.sure m).run := fun r h => hm r.kernel h

theorem Keeps.finds {P : σ → Prop} {f : Survey → Survey} :
    Keeps (fun r : Run σ => P r.kernel) (Phase.change f).run := fun _ h => h

namespace Kernel.Quiet

variable {k : Kernel σ φ} {P : σ → Prop} (hk : k.Quiet P)
include hk

theorem checkTime (phase : String) :
    Keeps (fun r : Run σ => P r.kernel) (k.checkTime phase).run := by
  refine Keeps.run_bind Keeps.survey fun v => ?_
  split
  · exact Keeps.run_pure
  · rename_i limit _
    apply Keeps.run_bind (Keeps.asks (hk.isLate limit))
    intro late
    split
    · exact Keeps.run_throw
    · exact Keeps.run_pure

theorem sight (s : Species) (id : Identity) (f : φ) (reference : Reference) :
    Keeps (fun r : Run σ => P r.kernel) (k.sight s id f reference).run := by
  apply Keeps.run_bind (Keeps.asks (hk.reportedOwner s f))
  intro owner
  exact Keeps.finds

/-! ### Joined namespaces -/

theorem readJoined (s : Species) (pid : Pid) :
    Keeps (fun r : Run σ => P r.kernel) (k.readJoined s pid).run := by
  refine Keeps.run_bind Keeps.survey fun v => ?_
  apply Keeps.run_bind (Keeps.asks (hk.openedNamespace _))
  rintro (why | ⟨id, f⟩)
  · exact Keeps.run_pure
  · have hjoined : Keeps (fun r : Run σ => P r.kernel)
        (do Phase.change (·.joinedBy pid s id); return true : Phase σ Bool).run :=
      Keeps.run_bind Keeps.finds fun _ => Keeps.run_pure
    dsimp only
    split
    · exact Keeps.run_bind Keeps.finds fun _ => hjoined
    · exact Keeps.run_bind (hk.sight s id f .empty) fun _ => hjoined

theorem readAllJoined (s : Species) (pids : List Pid) :
    Keeps (fun r : Run σ => P r.kernel) (k.readAllJoined s pids).run :=
  .readAllJoined hk.checkTime fun pid _ => hk.readJoined s pid

theorem findJoined (s : Species) :
    Keeps (fun r : Run σ => P r.kernel) (k.findJoined s).run := by
  refine Keeps.run_bind Keeps.survey fun v => ?_
  apply Keeps.run_bind (hk.readAllJoined s _)
  intro unreadable
  exact Keeps.finds

/-! ### Held namespaces -/

theorem findHeldAt (s : Species) (file : Path) :
    Keeps (fun r : Run σ => P r.kernel) (k.findHeldAt s file).run := by
  apply Keeps.run_bind (Keeps.asks (hk.openedNamespace file))
  rintro (why | ⟨id, f⟩)
  · exact Keeps.finds
  · refine Keeps.run_bind Keeps.survey fun v => ?_
    split
    · exact Keeps.run_pure
    · exact hk.sight s id f _

theorem findHeld : Keeps (fun r : Run σ => P r.kernel) k.findHeld.run := by
  apply Keeps.findHeld hk.checkTime fun dir => Keeps.asks (hk.listing dir)
  · exact Keeps.finds
  · apply Keeps.lookAtFile fun file => Keeps.asks (hk.linkTarget file)
    intro s file r _ h
    exact hk.findHeldAt s file r h

/-! ### Mounted namespaces -/

theorem openedMountPoint (g : Gateway) (m : Mount) : Keeps P (k.openedMountPoint g m).run :=
  .run_bind (hk.resolveThrough g m.point) hk.openedNamespace

theorem findMountedAt (g : Gateway) (m : Mount) (s : Species) (inode : UInt64) :
    Keeps (fun r : Run σ => P r.kernel) (k.findMountedAt g m s inode).run := by
  apply Keeps.run_bind (Keeps.asks (hk.openedMountPoint g m))
  rintro (why | ⟨id, f⟩)
  · exact Keeps.run_bind Keeps.finds fun _ => Keeps.run_pure
  · dsimp only
    split
    · exact Keeps.run_bind Keeps.finds fun _ => Keeps.run_pure
    · refine Keeps.run_bind Keeps.survey fun v => ?_
      split
      · exact Keeps.run_pure
      · exact Keeps.run_bind (hk.sight s id f _) fun _ => Keeps.run_pure

theorem findMountedIn (g : Gateway) :
    Keeps (fun r : Run σ => P r.kernel) (k.findMountedIn g).run := by
  apply Keeps.findMountedIn (Keeps.asks (hk.contents _)) fun _ => Keeps.finds
  intro m
  apply Keeps.lookAtMount hk.checkTime
  intro s inode r _ h
  exact hk.findMountedAt g m s inode r h

/-! ### The way up -/

theorem findCreator (s : Species) (id : Identity) (f : φ) :
    Keeps (fun r : Run σ => P r.kernel) (k.findCreator s id f).run := by
  unfold Kernel.findCreator
  split
  · apply Keeps.run_bind (Keeps.asks (hk.creator f))
    rintro (why | creator)
    · exact Keeps.run_pure
    · exact Keeps.finds
  · exact Keeps.run_pure

omit hk in
theorem linkParent (s : Species) (parent child : Identity) :
    Keeps (fun r : Run σ => P r.kernel) (Phase.linkParent s parent child).run := by
  refine Keeps.run_bind Keeps.survey fun v => ?_
  split
  · exact Keeps.finds
  · exact Keeps.run_throw

theorem climb (s : Species) (steps : Nat) (child : Identity) (f : φ) :
    Keeps (fun r : Run σ => P r.kernel) (k.climb s steps child f).run :=
  .climb (hk.findCreator s) (fun f => .asks (hk.parent f)) (fun f => .asks (hk.identify f))
    (fun _ => .finds) (linkParent s) steps child f

end Kernel.Quiet

end NamespaceAtlas
