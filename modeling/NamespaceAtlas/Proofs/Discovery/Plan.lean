-- A discovery from its start to its end: the processes that procfs shows, and
-- then the steps of the plan one after the other.
import NamespaceAtlas.Discovery
import NamespaceAtlas.Proofs.Outcome
import NamespaceAtlas.Proofs.Discovery.Survivors

namespace NamespaceAtlas

variable {σ φ : Type} {k : Kernel σ φ}

/-! ## Steps -/

/-- A step that comes through lets the next ones run. -/
theorem ends_performAll_cons {step : Step σ} {rest : List (Step σ)} {r : Run σ}
    {post : Except Error Unit → Run σ → Prop}
    (h : Ends step.run r fun x r' => x = .ok () ∧ Ends (Step.performAll rest) r' post) :
    Ends (Step.performAll (step :: rest)) r post := by
  obtain ⟨hok, hrest⟩ := h
  unfold Step.performAll Step.perform
  rw [ends_bind, ends_bind, ends_lift, andThen_ok, ends_bind, ends_survey, andThen_ok, hok]
  exact hrest

theorem of_mem_when {enabled : Bool} {phase : String} {run : Phase σ Unit} {step : Step σ}
    {Q : Step σ → Prop} (hrun : Q ⟨phase, run⟩) (h : step ∈ Step.when enabled phase run) :
    Q step := by
  unfold Step.when at h
  split at h
  · rw [List.mem_singleton.1 h]
    exact hrun
  · cases h

theorem of_mem_forEach {enabled : Bool} {phase : String} {l : List Species}
    {run : Species → Phase σ Unit} {step : Step σ} {Q : Step σ → Prop}
    (hrun : enabled = true → ∀ s ∈ l, Q ⟨phase, run s⟩)
    (h : step ∈ Step.forEach enabled phase l run) : Q step := by
  unfold Step.forEach at h
  split at h
  · obtain ⟨s, hs, rfl⟩ := List.mem_map.1 h
    exact hrun ‹_› s hs
  · cases h

theorem mem_ordered {o : Options} {s : Species} : s ∈ o.ordered ↔ o.includes s = true := by
  have hall : s ∈ Species.discoveryOrder := by cases s <;> decide
  unfold Options.ordered
  rw [List.mem_filter]
  exact and_iff_right hall

theorem nodup_ordered (o : Options) : o.ordered.Nodup := by
  have hall : Species.discoveryOrder.Nodup := by decide
  exact hall.filter _

/-- The steps of a plan after the scans of the processes. -/
def Kernel.planAfterScans (k : Kernel σ φ) (o : Options) : List (Step σ) :=
  Step.when o.openFiles "fds" k.findHeld ++
    Step.when o.bindMounts "bind mounts" k.findMounted ++
    Step.forEach o.hierarchy "hierarchy" (o.ordered.filter (·.hasParents)) k.findAncestors ++
    Step.forEach o.ownership "ownership" o.ordered Phase.linkOwners ++
    Step.when o.mountTables "mounts" k.keepMountTables

theorem plan_eq (o : Options) : k.plan o =
    Step.forEach o.processes "processes" o.ordered k.findJoined ++ k.planAfterScans o := by
  unfold Kernel.plan Kernel.planAfterScans
  simp only [List.append_assoc]

/-- What holds of each of the later phases holds of each step after the scans. -/
theorem of_mem_planAfterScans {o : Options} {Q : Step σ → Prop} (hheld : Q ⟨"fds", k.findHeld⟩)
    (hmounted : Q ⟨"bind mounts", k.findMounted⟩)
    (hup : o.hierarchy = true → ∀ s, o.includes s = true → s.hasParents = true →
      Q ⟨"hierarchy", k.findAncestors s⟩)
    (howned : ∀ s, Q ⟨"ownership", Phase.linkOwners s⟩) (htables : Q ⟨"mounts", k.keepMountTables⟩)
    {step : Step σ} (h : step ∈ k.planAfterScans o) : Q step := by
  unfold Kernel.planAfterScans at h
  simp only [List.mem_append] at h
  rcases h with (((h | h) | h) | h) | h
  · exact of_mem_when hheld h
  · exact of_mem_when hmounted h
  · refine of_mem_forEach (fun henabled s hs => ?_) h
    obtain ⟨hordered, hparents⟩ := List.mem_filter.1 hs
    exact hup henabled s (mem_ordered.1 hordered) hparents
  · exact of_mem_forEach (fun _ s _ => howned s) h
  · exact of_mem_when htables h

/-- What holds of each phase holds of each step of a plan. -/
theorem of_mem_plan {o : Options} {Q : Step σ → Prop}
    (hjoined : ∀ s, Q ⟨"processes", k.findJoined s⟩) (hheld : Q ⟨"fds", k.findHeld⟩)
    (hmounted : Q ⟨"bind mounts", k.findMounted⟩) (hup : ∀ s, Q ⟨"hierarchy", k.findAncestors s⟩)
    (howned : ∀ s, Q ⟨"ownership", Phase.linkOwners s⟩) (htables : Q ⟨"mounts", k.keepMountTables⟩)
    {step : Step σ} (h : step ∈ k.plan o) : Q step := by
  rw [plan_eq, List.mem_append] at h
  rcases h with h | h
  · exact of_mem_forEach (fun _ s _ => hjoined s) h
  · exact of_mem_planAfterScans hheld hmounted (fun _ s _ _ => hup s) howned htables h

/-! ## The start -/

/-- A stat line tells nothing of relatives and namespaces. -/
theorem fresh_ofStat {line : String} {p : Process} (h : Procfs.ofStat line = .ok p) : p.Fresh := by
  have hparts : ∀ before name after p, Procfs.ofStatParts before name after = .ok p → p.Fresh := by
    intro before name after p h
    unfold Procfs.ofStatParts at h
    simp only [bind, Except.bind] at h
    split at h
    · cases h
    split at h
    · cases h
    split at h
    · cases h
    split at h
    · cases h
    cases h
    exact ⟨⟨rfl, rfl⟩, rfl⟩
  have hchars : ∀ q, Procfs.ofStatChars line.toList = .ok q → q.Fresh := by
    intro q h
    unfold Procfs.ofStatChars at h
    simp only [bind, Except.bind] at h
    split at h
    · split at h
      · cases h
      split at h
      · exact hparts _ _ _ q h
      · cases h
    · cases h
  unfold Procfs.ofStat at h
  cases hline : Procfs.ofStatChars line.toList with
  | error why =>
    rw [hline] at h
    cases h
  | ok q =>
    rw [hline] at h
    cases h
    exact hchars p hline

theorem bind_apply {α β : Type} (m : StateM σ α) (f : α → StateM σ β) (st : σ) :
    (m >>= f) st = f (m st).1 (m st).2 := rfl

theorem fresh_of_process? {procfs : Path} {pid : Pid} {st : σ} {p : Process}
    (h : (k.process? procfs pid st).1 = some p) : p.Fresh := by
  unfold Kernel.process? at h
  rw [bind_apply] at h
  cases hcontents : (k.contents? ((procfs.ofProcess pid).join "stat") st).1 with
  | none =>
    rw [hcontents] at h
    cases h
  | some stat =>
    rw [hcontents] at h
    cases hstat : Procfs.ofStat stat.lossy with
    | error why =>
      simp only [hstat] at h
      cases h
    | ok q =>
      simp only [hstat] at h
      obtain ⟨⟨hparent, hchildren⟩, hjoined⟩ := fresh_ofStat hstat
      cases h
      exact ⟨⟨hparent, hchildren⟩, hjoined⟩

theorem fresh_of_processesOf {procfs : Path} (pids : List Pid) :
    ∀ st : σ, ∀ p ∈ (k.processesOf procfs pids st).1, p.Fresh := by
  induction pids with
  | nil =>
    intro st p hp
    cases hp
  | cons pid rest ih =>
    intro st p hp
    unfold Kernel.processesOf at hp
    rw [bind_apply, bind_apply] at hp
    rcases List.mem_append.1 hp with hp | hp
    · exact fresh_of_process? (Option.mem_toList.1 hp)
    · exact ih _ p hp

/-- The table of a procfs is the table of processes of which nothing is recorded yet. -/
theorem exists_processTable (procfs : Path) (st : σ) :
    ∃ l, (k.processTable procfs st).1 = .ofList l ∧ ∀ p ∈ l, p.Fresh := by
  unfold Kernel.processTable
  rw [bind_apply]
  cases (k.listing procfs st).1 with
  | error _ => exact ⟨[], rfl, by simp⟩
  | ok names => exact ⟨_, rfl, fresh_of_processesOf _ _⟩

/-- A discovery comes out as the steps of its plan do, from its fresh survey on. -/
theorem ends_discover {o : Options} {st : σ} {post : Except Error Survey → σ → Prop} :
    Ends (k.discover o) st post ↔
      Ends (Step.performAll (k.plan o)) ⟨(k.freshSurvey o st).2, (k.freshSurvey o st).1⟩
        fun x r => post (x.map fun () => if o.pidMap then r.survey.withPidMap else r.survey)
          r.kernel := Iff.rfl

/-- What a discovery gives back is the survey that its steps leave, with the numbers mapped if that
was asked for. -/
theorem survey_of_discover {o : Options} {st : σ} {v : Survey}
    (hv : ((k.discover o).run st).1 = .ok v) :
    let r := (Step.performAll (k.plan o)).run ⟨(k.freshSurvey o st).2, (k.freshSurvey o st).1⟩
    r.1 = .ok () ∧ v = if o.pidMap then r.2.survey.withPidMap else r.2.survey := by
  intro r
  have hv : r.1.map (fun _ => if o.pidMap then r.2.survey.withPidMap else r.2.survey) = .ok v := hv
  cases hout : r.1 with
  | error why =>
    rw [hout] at hv
    cases hv
  | ok a =>
    rw [hout] at hv
    exact ⟨rfl, (Except.ok.inj hv).symm⟩

/-- To map the numbers says nothing new of anything else. -/
theorem Survey.of_mapped {b : Bool} {v w : Survey} (h : v = if b then w.withPidMap else w) :
    v.graph = w.graph ∧ v.processes = w.processes ∧ v.mounts = w.mounts ∧
      ∃ n, v.diagnostics = { w.diagnostics with pidMismatches := n } := by
  subst h
  split
  · exact ⟨rfl, rfl, rfl, _, rfl⟩
  · exact ⟨rfl, rfl, rfl, _, rfl⟩

/-- A discovery whose steps come through ends with the survey that they leave. -/
theorem exists_survey (k : Kernel σ φ) (o : Options) (st : σ) (post : Survey → Prop)
    (h : ∀ st' own, Ends (Step.performAll (k.plan o))
      ⟨st', { options := o, processes := (k.processTable o.procfs st).1, own }⟩ fun x r =>
        x = .ok () ∧ post r.survey) :
    ∃ v, ((k.discover o).run st).1 = .ok (if o.pidMap then v.withPidMap else v) ∧ post v := by
  let start := k.freshSurvey o st
  obtain ⟨hok, hpost⟩ := h start.2 start.1.own
  refine ⟨_, ?_, hpost⟩
  exact congrArg (Except.map _) hok

end NamespaceAtlas
