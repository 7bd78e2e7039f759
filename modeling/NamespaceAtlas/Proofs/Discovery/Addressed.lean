-- Mount namespaces that processes have joined. They are addressed by way of their
-- ealdormen from the scans of the processes on, and the files of these open.
import NamespaceAtlas.Proofs.Discovery.Integrity
import NamespaceAtlas.Proofs.StillWorld

namespace NamespaceAtlas

variable {σ φ α : Type}

/-- The files of the processes that have joined mount namespaces open. -/
def Survey.FilesOpen (W : StillWorld α) (v : Survey) : Prop :=
  ∀ pid p, v.processes.get? pid = some p → (p.joined.get .mount).isSome →
    (W.inProcfs (Path.proc.ofNamespace pid .mount)).isSome

/-- A mount namespace that has an ealdorman is addressed by way of it, and its file opens. -/
structure Survey.Addressed (W : StillWorld α) (v : Survey) : Prop where
  procfs : v.options.procfs = Path.proc
  joined : v.FilesOpen W
  reference : ∀ id n p, v.graph.get? .mount id = some n → n.ealdorman? v.processes = some p →
    n.reference = .single (Path.proc.ofNamespace p.pid .mount)

namespace Survey.FilesOpen

variable {W : StillWorld α}

theorem withoutProcess {v : Survey} (h : v.FilesOpen W) (pid : Pid) :
    (v.withoutProcess pid).FilesOpen W := by
  unfold Survey.withoutProcess
  split
  · rename_i hpid
    obtain ⟨q, hq⟩ := Registry.contains_iff.1 hpid
    intro x p hp hjoined
    have hget := ProcessTable.get?_erase (x := x) hq
    rw [hp] at hget
    split at hget
    · cases hget
    · obtain ⟨m, hm, rfl⟩ := Option.map_eq_some_iff.1 hget.symm
      exact h x m hm hjoined
  · exact h

theorem foldl_withoutProcess {v : Survey} (h : v.FilesOpen W) (pids : List Pid) :
    (pids.foldl Survey.withoutProcess v).FilesOpen W ∧
      (pids.foldl Survey.withoutProcess v).options = v.options ∧
      (pids.foldl Survey.withoutProcess v).graph = v.graph := by
  induction pids generalizing v with
  | nil => exact ⟨h, rfl, rfl⟩
  | cons pid rest ih =>
    obtain ⟨hfiles, hoptions, hgraph⟩ := ih (h.withoutProcess pid)
    refine ⟨hfiles, hoptions.trans ?_, hgraph.trans ?_⟩
    · unfold Survey.withoutProcess
      split <;> rfl
    · unfold Survey.withoutProcess
      split <;> rfl

end Survey.FilesOpen

namespace Survey.Addressed

variable {W : StillWorld α} {v : Survey} {s : Species} {id : Identity} {pid : Pid}

theorem account {w : Survey} (h : v.Addressed W) (hoptions : w.options = v.options)
    (hprocesses : w.processes = v.processes) (hgraph : w.graph = v.graph) : w.Addressed W where
  procfs := hoptions ▸ h.procfs
  joined pid p hp := h.joined pid p (hprocesses ▸ hp)
  reference := by
    rw [hprocesses, hgraph]
    exact h.reference

/-- A sighting brings in no namespace with leaders. -/
theorem sighted (h : v.Addressed W) (s : Species) (id : Identity) (r : Reference)
    (owner : Option Identity) : (v.sighted s id r owner).Addressed W where
  procfs := h.procfs
  joined := h.joined
  reference i n p hn hp := by
    rw [Survey.get?_sighted] at hn
    split at hn
    · cases hn
      cases hm : v.graph.get? .mount i with
      | none =>
        rw [hm] at hp
        cases hp
      | some m =>
        rw [hm] at hp
        exact h.reference i m p hm hp
    · exact h.reference i n p hn hp

theorem joinedBy (h : v.Addressed W)
    (hfile : s = .mount → (W.inProcfs (Path.proc.ofNamespace pid .mount)).isSome)
    (id : Identity) : (v.joinedBy pid s id).Addressed W where
  procfs := h.procfs
  joined x p hp hjoined := by
    change (v.processes.registry.modify pid _).get? x = some p at hp
    rw [Registry.get?_modify] at hp
    split at hp
    · rename_i hx
      obtain ⟨q, hq, rfl⟩ := Option.map_eq_some_iff.1 hp
      by_cases hs : s = .mount
      · rw [← Registry.rank_inj.1 hx]
        exact hfile hs
      · refine h.joined x q hq ?_
        rwa [BySpecies.get_set_of_ne _ _ (Ne.symm hs)] at hjoined
    · exact h.joined x p hp hjoined
  reference i n p hn hp := by
    have hsame : (n.ealdorman? (v.joinedBy pid s id).processes).map (·.pid) =
        (n.ealdorman? v.processes).map (·.pid) := by
      apply Namespace.pid_ealdorman
      intro x
      change ((v.processes.registry.modify pid _).get? x).map _ = _
      rw [Registry.get?_modify]
      split
      · rw [Option.map_map]
        rfl
      · rfl
    rw [hp] at hsame
    obtain ⟨q, hq, hpid⟩ := Option.map_eq_some_iff.1 hsame.symm
    exact (h.reference i n q hn hq).trans (congrArg _ (congrArg (Path.proc.ofNamespace · _) hpid))

/-- Elections leave mount namespaces addressed, where those that take no part have no mount
namespaces that are not. -/
theorem elected (hprocfs : v.options.procfs = Path.proc) (hfiles : v.FilesOpen W)
    {ts : List Species} (hts : ts.Nodup)
    (hrest : .mount ∉ ts → ∀ id n p, v.graph.get? .mount id = some n →
      n.ealdorman? v.processes = some p →
        n.reference = .single (Path.proc.ofNamespace p.pid .mount)) :
    (ts.foldl Survey.withLeaders v).Addressed W := by
  obtain ⟨g, hg, hget⟩ := Survey.foldl_withLeaders ts v hts
  rw [hg]
  refine ⟨hprocfs, hfiles, fun i n p hn hp => ?_⟩
  change g.get? .mount i = some n at hn
  rw [hget] at hn
  split at hn
  · obtain ⟨m, _, rfl⟩ := Option.map_eq_some_iff.1 hn
    rw [← hprocfs]
    exact Namespace.reference_of_ealdorman hp
  · rename_i hmount
    exact hrest hmount i n p hn hp

theorem settled (h : v.Addressed W) (s : Species) (unreadable : List Pid) :
    (v.settled s unreadable).Addressed W := by
  unfold Survey.settled
  split
  · exact elected h.procfs h.joined (List.nodup_singleton s) fun _ => h.reference
  · obtain ⟨hfiles, hoptions, hgraph⟩ := h.joined.foldl_withoutProcess unreadable
    refine elected (hoptions ▸ h.procfs) hfiles (Survey.nodup_otherSpecies _ s) ?_
    intro hmount i n p hn
    have hempty : (v.graph.ofSpecies .mount).isEmpty = true := by
      rw [← hgraph]
      simp only [List.mem_cons, Survey.mem_otherSpecies, not_or] at hmount
      simpa [hmount.1] using hmount.2
    rw [hgraph, Graph.get?_of_isEmpty hempty i] at hn
    cases hn

end Survey.Addressed

/-- The mount namespaces of a survey are addressed by way of their ealdormen, whose files open. -/
def Survey.LedBelow (v : Survey) (W : StillWorld α) : Prop :=
  ∀ id n p, v.graph.get? .mount id = some n → n.ealdorman? v.processes = some p →
    n.reference = .single (Path.proc.ofNamespace p.pid .mount) ∧
      (W.inProcfs (Path.proc.ofNamespace p.pid .mount)).isSome

/-- Leaders have joined what they lead, so the files of ealdormen open. -/
theorem Survey.Addressed.ledBelow {W : StillWorld α} {v : Survey} {o : Options}
    (h : v.Addressed W) (hv : Coherent o v) : v.LedBelow W := by
  intro id n p hn hp
  obtain ⟨pid, hpid, hget⟩ := Namespace.ealdorman_leads hp
  obtain ⟨q, hq, hjoined⟩ := hv.led .mount id n pid hn hpid
  obtain rfl := Option.some.inj (hget.symm.trans hq)
  refine ⟨h.reference id n p hn hp, ?_⟩
  rw [hv.linked.filed hget]
  exact h.joined pid p hget (hjoined ▸ rfl)

/-! ## The scans of the processes -/

namespace Kernel.Presents

variable {k : Kernel σ φ} {W : StillWorld α} {of : φ → α} {attached : σ → List (Pid × α)}
  {o : Options} {st : σ}
  (hk : k.Presents W of attached)
include hk

/-- A file of a process that can be read opens. -/
theorem ends_openedNamespace {p : Path} (hp : p.startsWith Path.proc = true)
    (hst : attached st = []) :
    Ends (k.openedNamespace p) st fun outcome st' =>
      attached st' = [] ∧ (outcome.toOption.isSome → (W.inProcfs p).isSome) := by
  have hfile : Ends (k.openedNamespace p) st fun outcome _ =>
      outcome.toOption.isSome → (W.inProcfs p).isSome := by
    unfold openedNamespace
    rw [ends_bind]
    refine (hk.ends_openedInProcfs hp hst).mono ?_
    rintro (why | f) st₁ ⟨hf, _⟩
    · exact nofun
    · exact fun _ => hf ▸ rfl
  exact ⟨(hk.quiet []).openedNamespace p st hst, hfile⟩

theorem keeps_readJoined (s : Species) (pid : Pid) :
    Keeps (fun r : Run σ => attached r.kernel = [] ∧ r.survey.Addressed W)
      (k.readJoined s pid).run := by
  apply Keeps.of_ends
  rintro r ⟨hst, h⟩
  have hin := Path.isInProcfs_ofNamespace pid s
  unfold readJoined
  rw [ends_bind, ends_survey, andThen_ok, h.procfs, ends_bind, ends_attempt]
  refine (hk.ends_openedNamespace hin.startsWith hst).mono ?_
  rintro (why | ⟨id, f⟩) st₁ ⟨hst₁, hfile⟩
  · exact ⟨hst₁, h⟩
  have hopens : s = .mount → (W.inProcfs (Path.proc.ofNamespace pid .mount)).isSome := by
    rintro rfl
    exact hfile rfl
  rw [andThen_ok]
  dsimp only
  split
  · exact ⟨hst₁, (h.sighted s id .empty none).joinedBy hopens id⟩
  · exact ⟨(hk.quiet []).reportedOwner s f st₁ hst₁, (h.sighted s id .empty _).joinedBy hopens id⟩

theorem keeps_checkTime (phase : String) :
    Keeps (fun r : Run σ => attached r.kernel = [] ∧ r.survey.Addressed W)
      (k.checkTime phase).run :=
  ((hk.quiet []).checkTime phase).and (Keeps.checkingTime phase)

theorem keeps_findJoined (s : Species) :
    Keeps (fun r : Run σ => attached r.kernel = [] ∧ r.survey.Addressed W)
      (k.findJoined s).run := by
  refine Keeps.run_bind Keeps.survey fun v => ?_
  apply Keeps.run_bind (Keeps.readAllJoined hk.keeps_checkTime fun pid _ => hk.keeps_readJoined s pid)
  intro unreadable
  exact Keeps.change fun r h => ⟨h.1, h.2.settled s unreadable⟩

/-! ## The open files -/

theorem keeps_findHeldAt (s : Species) (file : Path) :
    Keeps (fun r : Run σ => attached r.kernel = [] ∧ r.survey.Addressed W)
      (k.findHeldAt s file).run := by
  apply Keeps.run_bind ((Keeps.asks ((hk.quiet []).openedNamespace file)).and Keeps.asking)
  rintro (why | ⟨id, f⟩)
  · exact Keeps.change fun r h => ⟨h.1, h.2.account rfl rfl rfl⟩
  · refine Keeps.run_bind Keeps.survey fun v => ?_
    split
    · exact Keeps.run_pure
    · apply Keeps.run_bind
        ((Keeps.asks ((hk.quiet []).reportedOwner s f)).and Keeps.asking)
      intro owner
      exact Keeps.change fun r h => ⟨h.1, h.2.sighted s id _ owner⟩

theorem keeps_findHeld :
    Keeps (fun r : Run σ => attached r.kernel = [] ∧ r.survey.Addressed W) k.findHeld.run := by
  apply Keeps.findHeld hk.keeps_checkTime
  · exact fun dir => (Keeps.asks ((hk.quiet []).listing dir)).and Keeps.asking
  · exact Keeps.change fun r h => ⟨h.1, h.2.account rfl rfl rfl⟩
  · apply Keeps.lookAtFile fun file =>
      (Keeps.asks ((hk.quiet []).linkTarget file)).and Keeps.asking
    intro s file r _ h
    exact hk.keeps_findHeldAt s file r h

end Kernel.Presents

/-! ## Up to the search for mounts -/

namespace Kernel

/-- The steps of a plan before the search for mounts. -/
def planBeforeMounts (k : Kernel σ φ) (o : Options) : List (Step σ) :=
  Step.forEach o.processes "processes" o.ordered k.findJoined ++
    Step.when o.openFiles "fds" k.findHeld

/-- A discovery when its search for mounts begins. -/
def beforeMounts (k : Kernel σ φ) (o : Options) (st : σ) : Run σ :=
  ((Step.performAll (k.planBeforeMounts o)).run
    ⟨(k.freshSurvey o st).2, (k.freshSurvey o st).1⟩).2

/-- These steps come first, and then the search. -/
theorem plan_beforeMounts (k : Kernel σ φ) (o : Options) :
    k.planBeforeMounts o ++ Step.when o.bindMounts "bind mounts" k.findMounted <+: k.plan o := by
  unfold planBeforeMounts plan
  simp only [List.append_assoc, List.prefix_append_right_inj]
  exact List.prefix_append _ _

/-- When the search begins, the mount namespaces that are known are led by processes whose files
open, and no sandbox is attached. -/
theorem Presents.ledBelow_beforeMounts {k : Kernel σ φ} {W : StillWorld α} {of : φ → α}
    {attached : σ → List (Pid × α)} (hk : k.Presents W of attached) {o : Options} {st : σ}
    (ho : o.procfs = Path.proc) (hst : attached st = []) :
    attached (k.beforeMounts o st).kernel = [] ∧ (k.beforeMounts o st).survey.LedBelow W := by
  have hq := hk.quiet []
  have hheld : ∀ step ∈ Step.when o.openFiles "fds" k.findHeld,
      Keeps (fun r : Run σ => Coherent o r.survey) step.run.run :=
    fun step h => of_mem_when
      (Q := fun step => Keeps (fun r : Run σ => Coherent o r.survey) step.run.run)
      (Coherent.steadyInFiles o).findHeld h
  have hcoherent : Coherent o (k.beforeMounts o st).survey := Coherent.ends_scans hheld st
  have hstart : (k.freshSurvey o st).1.Addressed W := by
    obtain ⟨_, hunjoined⟩ := Coherent.of_freshSurvey k o st
    refine ⟨ho, fun pid p hp hjoined => ?_, fun id n p hn => ?_⟩
    · rw [hunjoined .mount pid p hp] at hjoined
      cases hjoined
    · change Graph.empty.get? .mount id = some n at hn
      simp at hn
  have hsteps : ∀ step ∈ k.planBeforeMounts o,
      Keeps (fun r : Run σ => attached r.kernel = [] ∧ r.survey.Addressed W) step.run.run := by
    intro step h
    let Q (step : Step σ) :=
      Keeps (fun r : Run σ => attached r.kernel = [] ∧ r.survey.Addressed W) step.run.run
    rcases List.mem_append.1 h with h | h
    · exact of_mem_forEach (Q := Q) (fun _ s _ => hk.keeps_findJoined s) h
    · exact of_mem_when (Q := Q) hk.keeps_findHeld h
  have hall : Keeps (fun r : Run σ => attached r.kernel = [] ∧ r.survey.Addressed W)
      (Step.performAll (k.planBeforeMounts o)).run := by
    apply Step.keeps_performAll hsteps
    intro r phase outcome goOn v h habsorb
    obtain ⟨f, rfl⟩ := Coherent.of_absorb habsorb
    exact ⟨h.1, h.2.account rfl rfl rfl⟩
  obtain ⟨hattached, haddressed⟩ := hall ⟨_, _⟩ ⟨hq.freshSurvey o st hst, hstart⟩
  exact ⟨hattached, haddressed.ledBelow hcoherent⟩

end Kernel

end NamespaceAtlas
