-- What the phases of a discovery keep. A phase changes a survey in a few ways
-- only. A property that none of these touches is kept by the phase, at
-- whichever of its exits it ends.
import NamespaceAtlas.Proofs.Discovery.Plan
import NamespaceAtlas.Proofs.Discovery.Settling
import NamespaceAtlas.Proofs.Graph.Owners
import NamespaceAtlas.Proofs.Kept

namespace NamespaceAtlas

variable {σ φ : Type} {k : Kernel σ φ} {s : Species} {Q : Survey → Prop}

/-! ## Open files and mount points -/

/-- What a list of files or a mount table brings into a survey leaves `Q` true. A namespace is
recorded only if it is in scope and was not known, and there is a path to address it by. -/
structure SteadyInLists (Q : Survey → Prop) : Prop where
  sighted : ∀ v s id reference owner, v.options.includes s = true →
    v.graph.contains s id = false → reference.isEmpty = false →
    Q v → Q (v.sighted s id reference owner)
  skipFileList : ∀ v, Q v → Q v.skipFileList
  skipFile : ∀ v, Q v → Q v.skipFile
  skipBindMount : ∀ v, Q v → Q v.skipBindMount
  note : ∀ v text, Q v → Q (v.note text)

/-- What open files and mount points in all mount namespaces bring into a survey leaves `Q`
true. -/
structure SteadyInFiles (Q : Survey → Prop) : Prop extends SteadyInLists Q where
  unreached : ∀ v id, Q v → Q (v.unreached id)
  countSandboxes : ∀ v g, Q v → Q (v.countSandboxes g)

namespace SteadyInLists

theorem ends_sight (h : SteadyInLists Q) {r : Run σ} (hQ : Q r.survey) {id : Identity}
    {reference : Reference} (hs : r.survey.options.includes s = true)
    (hnew : r.survey.graph.contains s id = false) (haddressed : reference.isEmpty = false) (f : φ) :
    Ends (k.sight s id f reference) r fun _ r' => Q r'.survey := by
  unfold Kernel.sight
  rw [ends_bind, ends_sure, andThen_ok, ends_change]
  exact h.sighted r.survey s id reference _ hs hnew haddressed hQ

theorem ends_findHeldAt (h : SteadyInLists Q) {r : Run σ} (hQ : Q r.survey)
    (hs : r.survey.options.includes s = true) (file : Path) :
    Ends (k.findHeldAt s file) r fun _ r' => Q r'.survey := by
  unfold Kernel.findHeldAt
  apply Keeps.ends_bind
    (Keeps.asking (Q := fun v => Q v ∧ v.options.includes s = true)) ⟨hQ, hs⟩ fun _ _ h => h.1
  rintro (why | ⟨id, f⟩) r ⟨hQ, hs⟩
  · exact h.skipFile r.survey hQ
  · dsimp only
    rw [ends_bind, ends_survey, andThen_ok]
    split
    · exact hQ
    · exact h.ends_sight hQ hs (Bool.eq_false_iff.2 ‹_›) rfl f

theorem findHeld (h : SteadyInLists Q) :
    Keeps (fun r : Run σ => Q r.survey) k.findHeld.run := by
  apply Keeps.findHeld Keeps.checkingTime fun _ => Keeps.asking
  · exact Keeps.changing h.skipFileList
  · exact Keeps.lookAtFile (fun _ => Keeps.asking) fun s file r hs hQ => h.ends_findHeldAt hQ hs file

theorem ends_findMountedAt (h : SteadyInLists Q) {r : Run σ} (hQ : Q r.survey)
    (hs : r.survey.options.includes s = true) (g : Gateway) (m : Mount) (inode : UInt64) :
    Ends (k.findMountedAt g m s inode) r fun _ r' => Q r'.survey := by
  have haddressed : (g.reference.join m.point).isEmpty = false :=
    List.isEmpty_eq_false_iff.2 (List.append_ne_nil_of_right_ne_nil _ (List.cons_ne_nil _ _))
  unfold Kernel.findMountedAt
  apply Keeps.ends_bind
    (Keeps.asking (Q := fun v => Q v ∧ v.options.includes s = true)) ⟨hQ, hs⟩ fun _ _ h => h.1
  rintro (why | ⟨id, f⟩) r ⟨hQ, hs⟩
  · exact h.skipBindMount r.survey hQ
  · dsimp only
    split
    · exact h.skipBindMount r.survey hQ
    · rw [ends_bind, ends_survey, andThen_ok]
      split
      · exact hQ
      · rw [ends_bind]
        refine (h.ends_sight hQ hs (Bool.eq_false_iff.2 ‹_›) haddressed f).mono ?_
        rintro (why | _) r' hQ'
        · exact hQ'
        · exact hQ'

theorem findMountedIn (h : SteadyInLists Q) (g : Gateway) :
    Keeps (fun r : Run σ => Q r.survey) (k.findMountedIn g).run := by
  apply Keeps.findMountedIn Keeps.asking fun text => Keeps.changing fun v => h.note v text
  intro m
  exact Keeps.lookAtMount Keeps.checkingTime fun s inode r hs hQ =>
    h.ends_findMountedAt hQ hs g m inode

end SteadyInLists

namespace SteadyInFiles

theorem visit (h : SteadyInFiles Q) (id : Identity) :
    Keeps (fun r : Run σ => Q r.survey) (k.visit id).run := by
  refine Keeps.run_bind Keeps.survey fun v => ?_
  split
  · exact Keeps.run_pure
  · refine Keeps.run_bind Keeps.asking fun answer => ?_
    split
    · exact Keeps.run_bind (Keeps.changing fun v => h.unreached v id) fun _ => Keeps.run_pure
    · rename_i g
      apply Keeps.run_bind (Keeps.changing fun v => h.countSandboxes v g)
      intro _
      apply Keeps.run_bind (Keeps.run_lift (h.findMountedIn g))
      intro answer
      exact Keeps.run_bind Keeps.asking fun _ _ h => h

theorem findMounted (h : SteadyInFiles Q) :
    Keeps (fun r : Run σ => Q r.survey) k.findMounted.run := by
  refine Keeps.run_bind Keeps.asking fun answer => ?_
  split
  · exact Keeps.changing fun v => h.note v _
  · refine Keeps.run_bind Keeps.asking fun reference => ?_
    refine Keeps.run_bind Keeps.survey fun v => ?_
    apply Keeps.run_bind (h.findMountedIn _)
    intro found
    exact Keeps.visitAll Keeps.checkingTime h.visit _ _ _

end SteadyInFiles

/-! ## Mount tables -/

namespace SteadyInFiles

theorem readTables (h : SteadyInFiles Q) (ids : List Identity) : ∀ tables,
    Keeps (fun r : Run σ => Q r.survey) (k.readTables ids tables).run := by
  induction ids with
  | nil => exact fun tables => Keeps.run_pure
  | cons id rest ih =>
    intro tables
    apply Keeps.run_bind (Keeps.checkingTime _)
    intro _
    refine Keeps.run_bind Keeps.survey fun v => ?_
    split
    · exact ih tables
    · refine Keeps.run_bind Keeps.asking fun answer => ?_
      split
      · refine Keeps.run_bind (Keeps.changing fun v hv => ?_) fun _ => ih tables
        split
        · exact hv
        · exact h.unreached v id hv
      · rename_i g
        apply Keeps.run_bind (Keeps.changing fun v => h.countSandboxes v g)
        intro _
        refine Keeps.run_bind Keeps.asking fun table => ?_
        refine Keeps.run_bind Keeps.asking fun _ => ?_
        split
        · exact ih _
        · exact Keeps.run_bind (Keeps.changing fun v => h.note v _) fun _ => ih tables

/-- The tables themselves come into the survey at the end. -/
theorem keepMountTables (h : SteadyInFiles Q)
    (hmounts : ∀ v tables, Q v → Q { v with mounts := tables }) :
    Keeps (fun r : Run σ => Q r.survey) k.keepMountTables.run := by
  refine Keeps.run_bind Keeps.survey fun v => ?_
  apply Keeps.run_bind (h.readTables _ _)
  intro tables
  exact Keeps.changing fun v => hmounts v tables

end SteadyInFiles

/-! ## The way up -/

/-- What the way up from the namespaces of a species brings into a survey leaves `Q` true. -/
structure SteadyUpwards (s : Species) (Q : Survey → Prop) : Prop where
  createdBy : ∀ v id creator, Q v → Q (v.createdBy id creator)
  metParent : ∀ v parent, Q v → Q (v.metParent s parent)
  addChild : ∀ v parent child graph, v.graph.addChild s parent child = .ok graph →
    Q v → Q { v with graph }

/-- The creator of a user namespace is all that is recorded when it is asked for. -/
theorem Keeps.findCreator (h : ∀ v id creator, Q v → Q (v.createdBy id creator)) (s : Species)
    (id : Identity) (f : φ) : Keeps (fun r : Run σ => Q r.survey) (k.findCreator s id f).run := by
  unfold Kernel.findCreator
  split
  · refine Keeps.run_bind Keeps.asking fun answer => ?_
    split
    · exact Keeps.changing fun v => h v id _
    · exact Keeps.run_pure
  · exact Keeps.run_pure

namespace SteadyUpwards

theorem linkParent (h : SteadyUpwards s Q) (parent child : Identity) :
    Keeps (fun r : Run σ => Q r.survey) (Phase.linkParent s parent child).run := by
  apply Keeps.survey_bind
  intro r hr
  split
  · exact h.addChild r.survey parent child _ ‹_› hr
  · exact hr

theorem climb (h : SteadyUpwards s Q) (steps : Nat) (child : Identity) (f : φ) :
    Keeps (fun r : Run σ => Q r.survey) (k.climb s steps child f).run :=
  .climb (Keeps.findCreator h.createdBy s) (fun _ => .asking) (fun _ => .asking)
    (fun parent => .changing fun v => h.metParent v parent) h.linkParent steps child f

theorem findAncestors (h : SteadyUpwards s Q) :
    Keeps (fun r : Run σ => Q r.survey) (k.findAncestors s).run := by
  refine Keeps.run_bind Keeps.survey fun v => ?_
  apply Keeps.run_forM
  intro id _
  apply Keeps.run_bind (Keeps.checkingTime _)
  intro _
  refine Keeps.run_bind Keeps.survey fun v => ?_
  split
  · exact Keeps.run_pure
  · split
    · exact Keeps.run_pure
    · refine Keeps.run_bind Keeps.asking fun answer => ?_
      split
      · exact Keeps.run_pure
      · exact h.climb _ _ _

end SteadyUpwards

/-! ## Scans of the processes -/

/-- What a scan of the processes brings into a survey leaves `Q` true. -/
structure SteadyInScans (Q : Survey → Prop) : Prop where
  read : ∀ v pid s id owner, Q v → Q ((v.sighted s id .empty owner).joinedBy pid s id)
  withLeaders : ∀ v s, Q v → Q (v.withLeaders s)
  withoutProcess : ∀ v pid, Q v → Q (v.withoutProcess pid)

/-- All that may come of reading a process. It is asked for an owner only where none was
reported. -/
theorem ends_readJoined_cases (s : Species) (pid : Pid) (r : Run σ) :
    Ends (k.readJoined s pid) r fun x r' =>
      (x = .ok false ∧ r'.survey = r.survey) ∨
      ∃ id owner, x = .ok true ∧ (owner = none ∨ r.survey.graph.ownerId? s id = none) ∧
        r'.survey = (r.survey.sighted s id .empty owner).joinedBy pid s id := by
  unfold Kernel.readJoined
  rw [ends_bind, ends_survey, andThen_ok]
  rw [ends_bind, ends_attempt, ends_iff_run]
  rintro (why | ⟨id, f⟩) st _
  · exact Or.inl ⟨rfl, rfl⟩
  · rw [andThen_ok]
    dsimp only
    split
    · exact Or.inr ⟨id, none, rfl, Or.inl rfl, rfl⟩
    · exact Or.inr ⟨id, _, rfl, Or.inr ‹_›, rfl⟩

namespace SteadyInScans

theorem readJoined (h : SteadyInScans Q) (pid : Pid) :
    Keeps (fun r : Run σ => Q r.survey) (k.readJoined s pid).run := by
  refine Keeps.of_ends fun r hr => (ends_readJoined_cases s pid r).mono ?_
  rintro x r' (⟨_, hsame⟩ | ⟨id, owner, _, _, hread⟩)
  · rwa [hsame]
  · rw [hread]
    exact h.read r.survey pid s id owner hr

theorem findJoined (h : SteadyInScans Q) (s : Species) :
    Keeps (fun r : Run σ => Q r.survey) (k.findJoined s).run := by
  refine Keeps.run_bind Keeps.survey fun v => ?_
  apply Keeps.run_bind (Keeps.readAllJoined Keeps.checkingTime fun pid _ => h.readJoined pid)
  intro unreadable
  exact Keeps.changing fun v =>
    Survey.settled_induction h.withLeaders h.withoutProcess v s unreadable

end SteadyInScans

/-! ## All phases -/

/-- Whatever a phase brings into a survey, `Q` stays true of it. -/
structure Steady (Q : Survey → Prop) : Prop extends SteadyInFiles Q, SteadyInScans Q where
  upwards : ∀ s, SteadyUpwards s Q
  withOwners : ∀ v s, Q v → Q (v.withOwners s)
  mounts : ∀ v tables, Q v → Q { v with mounts := tables }

namespace Steady

/-- What no phase touches, no step of a plan touches. -/
theorem of_mem_plan (h : Steady Q) {o : Options} {step : Step σ} (hstep : step ∈ k.plan o) :
    Keeps (fun r : Run σ => Q r.survey) step.run.run :=
  NamespaceAtlas.of_mem_plan (Q := fun step => Keeps (fun r : Run σ => Q r.survey) step.run.run)
    h.findJoined h.findHeld h.findMounted (fun s => (h.upwards s).findAncestors)
    (fun s => Keeps.changing fun v => h.withOwners v s) (h.keepMountTables h.mounts) hstep

end Steady

end NamespaceAtlas
