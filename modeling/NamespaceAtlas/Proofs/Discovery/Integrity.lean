-- References in the result of a discovery. Every phase keeps a survey in which
-- all references stand, at whichever of its exits it ends.
import NamespaceAtlas.Proofs.Discovery.Coherent
import NamespaceAtlas.Proofs.Discovery.Scan
import NamespaceAtlas.Proofs.Discovery.Steady

namespace NamespaceAtlas

variable {σ φ α : Type} {k : Kernel σ φ} {o : Options} {s : Species}

namespace Coherent

/-! ## Files, mount points and ancestors -/

theorem ownerId?_eq_none {v : Survey} {id : Identity} (h : v.graph.contains s id = false) :
    v.graph.ownerId? s id = none := by
  unfold Graph.ownerId?
  cases hn : v.graph.get? s id with
  | none => rfl
  | some n =>
    rw [Graph.contains_iff.2 ⟨n, hn⟩] at h
    cases h

theorem steadyInFiles (o : Options) : SteadyInFiles (Coherent o) where
  sighted _ _ _ reference _ hs hnew _ h :=
    h.sighted (h.options ▸ hs) (Or.inr (ownerId?_eq_none hnew)) reference
  skipFileList _ h := h.mapDiagnostics _
  skipFile _ h := h.mapDiagnostics _
  skipBindMount _ h := h.mapDiagnostics _
  unreached _ _ h := h.mapDiagnostics _
  countSandboxes _ _ h := h.mapDiagnostics _
  note _ _ h := h.mapDiagnostics _

theorem steadyUpwards (hs : o.includes s = true) : SteadyUpwards s (Coherent o) where
  createdBy _ id creator h := h.createdBy id creator
  metParent _ parent h := h.metParent hs parent
  addChild _ _ _ _ hok h := h.addChild hok

/-! ## Mount tables -/

/-- All references stand, and the tables read so far are of known mount namespaces. -/
def Reading (o : Options) (tables : Registry Identity (List Mount)) (v : Survey) : Prop :=
  Coherent o v ∧ ∀ id l, tables.get? id = some l → v.graph.contains .mount id = true

theorem Reading.mapDiagnostics {tables : Registry Identity (List Mount)} {v : Survey}
    (h : Reading o tables v) (f : Diagnostics → Diagnostics) :
    Reading o tables (v.mapDiagnostics f) := ⟨h.1.mapDiagnostics f, h.2⟩

theorem Reading.insert {tables : Registry Identity (List Mount)} {v : Survey} {id : Identity}
    (h : Reading o tables v) (hid : v.graph.contains .mount id = true) (l : List Mount) :
    Reading o (tables.insert id l) v := by
  refine ⟨h.1, fun i l' hl' => ?_⟩
  rw [Registry.get?_insert] at hl'
  split at hl'
  · rename_i heq
    rw [← Registry.rank_inj.1 heq]
    exact hid
  · exact h.2 i l' hl'

/-- Reading the mount tables of a list leaves the graph alone. -/
theorem ends_readTables (ids : List Identity) :
    ∀ (tables : Registry Identity (List Mount)) (r : Run σ), Reading o tables r.survey →
      Ends (k.readTables ids tables) r fun outcome r' =>
        match outcome with
        | .ok tables' => Reading o tables' r'.survey
        | .error _ => Coherent o r'.survey := by
  induction ids with
  | nil => exact fun tables r h => h
  | cons id rest ih =>
    intro tables r h
    apply Keeps.ends_bind (P := fun r => Reading o tables r.survey) (Keeps.checkingTime _) h
    · exact fun _ _ h => h.1
    intro _ r h
    rw [ends_bind, ends_survey, andThen_ok]
    cases hn : r.survey.graph.get? .mount id with
    | none => exact ih tables r h
    | some n =>
      have hid : r.survey.graph.contains .mount id = true := Graph.contains_iff.2 ⟨n, hn⟩
      dsimp only
      refine Keeps.ends_bind
        (Keeps.asking (Q := fun v => Reading o tables v ∧ v.graph.contains .mount id = true))
        ⟨h, hid⟩ (fun _ _ h => h.1.1) ?_
      rintro (why | g) r ⟨h, hid⟩
      · dsimp only
        rw [ends_bind, ends_change, andThen_ok]
        apply ih
        dsimp only
        split
        · exact h
        · exact h.mapDiagnostics _
      · have hcount : Reading o tables (r.survey.countSandboxes g) := h.mapDiagnostics _
        simp only [ends_bind, ends_change, ends_sure, andThen_ok]
        cases (k.contents g.tablePath r.kernel).1 with
        | ok table =>
          apply ih
          exact hcount.insert hid _
        | error why =>
          dsimp only
          rw [ends_bind, ends_change, andThen_ok]
          apply ih
          exact hcount.mapDiagnostics (·.note _)

/-- The tables are kept once all are read. -/
theorem keepMountTables :
    Keeps (fun r : Run σ => Coherent o r.survey) k.keepMountTables.run := by
  apply Keeps.survey_bind
  intro r h
  rw [ends_bind]
  refine (ends_readTables _ .empty r ⟨h, nofun⟩).mono ?_
  rintro (why | tables) r' hread
  · exact hread
  · obtain ⟨h', htables⟩ := hread
    exact ⟨⟨h'.options, h'.included, h'.linked, h'.joined, h'.forest, h'.titled, htables⟩, h'.led⟩

end Coherent

/-! ## The scans of the processes -/

/-- All references stand in the middle of a scan. The species of the scan has no leaders yet, and
the species of the scans to come have no processes. -/
structure Scanning (o : Options) (s : Species) (rest : List Species) (v : Survey) : Prop where
  coherent : Coherent o v
  leaderless : ∀ id n, v.graph.get? s id = some n → n.leaders = []
  unjoined : ∀ t ∈ rest, v.Unjoined t

namespace Scanning

variable {rest : List Species} {v : Survey} {id : Identity}

theorem read (h : Scanning o s rest v) (hs : o.includes s = true) (hrest : s ∉ rest)
    {owner : Option Identity} (howner : owner = none ∨ v.graph.ownerId? s id = none)
    (reference : Reference) (pid : Pid) :
    Scanning o s rest ((v.sighted s id reference owner).joinedBy pid s id) := by
  have hcoherent := h.coherent.sighted hs howner reference
  have hknown : (v.sighted s id reference owner).graph.contains s id = true := by
    rw [Survey.contains_sighted, Graph.contains_insertNew]
    exact Or.inl ⟨rfl, rfl⟩
  have hleaderless : ∀ i n, (v.sighted s id reference owner).graph.get? s i = some n →
      n.leaders = [] := by
    intro i n hn
    apply List.eq_nil_iff_forall_not_mem.2
    intro x hx
    obtain ⟨m, hm, hx⟩ := (v.outlasts_sighted s id reference owner).leaders s i n x hn hx
    rw [h.leaderless i m hm] at hx
    cases hx
  refine ⟨hcoherent.joinedBy hknown hleaderless pid, hleaderless, fun t ht => ?_⟩
  have hunjoined : (v.sighted s id reference owner).Unjoined t := h.unjoined t ht
  have hts : t ≠ s := by
    rintro rfl
    exact hrest ht
  exact hunjoined.joinedBy hts pid id

theorem readJoined (hs : o.includes s = true) (hrest : s ∉ rest) (pid : Pid) :
    Keeps (fun r : Run σ => Scanning o s rest r.survey) (k.readJoined s pid).run := by
  refine Keeps.of_ends fun r h => (ends_readJoined_cases s pid r).mono ?_
  rintro x r' (⟨_, hsame⟩ | ⟨id, owner, _, howner, hread⟩)
  · rwa [hsame]
  · rw [hread]
    exact h.read hs hrest howner .empty pid

theorem start (h : Coherent o v) (hunjoined : ∀ t ∈ s :: rest, v.Unjoined t) :
    Scanning o s rest v where
  coherent := h
  leaderless _ _ hn := h.leaders_eq_nil (hunjoined s List.mem_cons_self) hn
  unjoined t ht := hunjoined t (List.mem_cons_of_mem s ht)

theorem readAllJoined (hs : o.includes s = true) (hrest : s ∉ rest) (pids : List Pid) :
    Keeps (fun r : Run σ => Scanning o s rest r.survey) (k.readAllJoined s pids).run :=
  Keeps.readAllJoined Keeps.checkingTime fun pid _ => readJoined hs hrest pid

/-- A scan may end before its time. There are no leaders then, which is right too. -/
theorem findJoined (hs : o.includes s = true) (hrest : s ∉ rest) {r : Run σ}
    (h : Coherent o r.survey) (hunjoined : ∀ t ∈ s :: rest, r.survey.Unjoined t) :
    Ends (k.findJoined s) r fun _ r' =>
      Coherent o r'.survey ∧ ∀ t ∈ rest, r'.survey.Unjoined t := by
  unfold Kernel.findJoined
  rw [ends_bind, ends_survey, andThen_ok]
  apply Keeps.ends_bind (readAllJoined hs hrest _) (start h hunjoined)
  · exact fun _ _ h => ⟨h.coherent, h.unjoined⟩
  · intro unreadable r' h
    exact ⟨h.coherent.settled s unreadable, fun t ht => (h.unjoined t ht).settled s unreadable⟩

end Scanning

/-! ## The whole -/

namespace Coherent

theorem of_absorb {v w : Survey} {phase : String} {outcome : Except Error Unit} {goOn : Bool}
    (h : v.absorb phase outcome = .ok (goOn, w)) : ∃ f, w = v.mapDiagnostics f := by
  unfold Survey.absorb at h
  split at h
  · cases h
    exact ⟨id, rfl⟩
  · cases h
    exact ⟨_, rfl⟩
  · split at h
    · cases h
    · cases h
      exact ⟨_, rfl⟩

theorem later {step : Step σ} (h : step ∈ k.planAfterScans o) :
    Keeps (fun r : Run σ => Coherent o r.survey) step.run.run := by
  refine of_mem_planAfterScans
    (Q := fun step => Keeps (fun r : Run σ => Coherent o r.survey) step.run.run)
    (steadyInFiles o).findHeld (steadyInFiles o).findMounted
    (fun _ s hs _ => (steadyUpwards hs).findAncestors) (fun s => ?_) keepMountTables h
  exact Keeps.changing fun v h => h.withOwners s

/-- A discovery begins with processes of which nothing is recorded. -/
theorem of_freshSurvey (k : Kernel σ φ) (o : Options) (st : σ) :
    Coherent o (k.freshSurvey o st).1 ∧ ∀ s, (k.freshSurvey o st).1.Unjoined s := by
  obtain ⟨l, ht, hl⟩ := exists_processTable (k := k) o.procfs st
  have hfresh : (k.freshSurvey o st).1 =
      { options := o, processes := .ofList l, own := (k.freshSurvey o st).1.own } := by
    rw [← ht]
    rfl
  rw [hfresh]
  exact Coherent.fresh hl o _

/-- The scans for some species, each once, and then other steps. -/
theorem scans {others : List (Step σ)}
    (hothers : ∀ step ∈ others, Keeps (fun r : Run σ => Coherent o r.survey) step.run.run)
    (l : List Species) (hl : ∀ s ∈ l, o.includes s = true) (hnodup : l.Nodup) :
    ∀ r : Run σ, Coherent o r.survey → (∀ s ∈ l, r.survey.Unjoined s) →
      Ends (Step.performAll ((l.map fun s => ⟨"processes", k.findJoined s⟩) ++ others)) r
        fun _ r' => Coherent o r'.survey := by
  have hlater : Keeps (fun r : Run σ => Coherent o r.survey) (Step.performAll others).run := by
    apply Step.keeps_performAll hothers
    intro r phase outcome goOn v h habsorb
    obtain ⟨f, rfl⟩ := of_absorb habsorb
    exact h.mapDiagnostics f
  induction l with
  | nil => exact fun r h _ => hlater r h
  | cons s rest ih =>
    intro r h hunjoined
    obtain ⟨hs, hrest⟩ := List.nodup_cons.1 hnodup
    have hscan := Scanning.findJoined (k := k) (hl s List.mem_cons_self) hs h hunjoined
    rw [List.map_cons, List.cons_append, Step.performAll, ends_bind]
    refine Ends.mono (Step.ends_perform
      (P := fun r => Coherent o r.survey ∧ ∀ t ∈ rest, r.survey.Unjoined t) hscan ?_) ?_
    · intro r outcome goOn v h habsorb
      obtain ⟨f, rfl⟩ := of_absorb habsorb
      exact ⟨h.1.mapDiagnostics f, h.2⟩
    · rintro (why | goOn) r' ⟨h', hunjoined'⟩
      · exact h'
      · rw [andThen_ok]
        cases goOn with
        | true => exact ih (fun t ht => hl t (List.mem_cons_of_mem s ht)) hrest r' h' hunjoined'
        | false => exact h'

/-- A discovery that begins with the scans, if at all, and goes on with such steps. -/
theorem ends_scans {others : List (Step σ)}
    (hothers : ∀ step ∈ others, Keeps (fun r : Run σ => Coherent o r.survey) step.run.run)
    (st : σ) :
    Ends (Step.performAll
      (Step.forEach o.processes "processes" o.ordered k.findJoined ++ others))
      ⟨(k.freshSurvey o st).2, (k.freshSurvey o st).1⟩ fun _ r => Coherent o r.survey := by
  obtain ⟨h, hunjoined⟩ := of_freshSurvey k o st
  unfold Step.forEach
  split
  · exact scans hothers o.ordered (fun s => mem_ordered.1) (nodup_ordered o) _ h
      fun s _ => hunjoined s
  · exact scans (k := k) hothers [] nofun List.nodup_nil _ h nofun

/-- At whichever of its exits a discovery ends, all references stand. -/
theorem ends_performAll (k : Kernel σ φ) (o : Options) (st : σ) :
    Ends (Step.performAll (k.plan o)) ⟨(k.freshSurvey o st).2, (k.freshSurvey o st).1⟩
      fun _ r => Coherent o r.survey := by
  rw [plan_eq]
  exact ends_scans (fun step h => later h) st

/-- What a discovery gives back has the references of a survey in which all stand. -/
theorem of_discover {st : σ} {v : Survey} (hv : ((k.discover o).run st).1 = .ok v) :
    ∃ w, Coherent o w ∧ v.graph = w.graph ∧ v.processes = w.processes ∧ v.mounts = w.mounts := by
  obtain ⟨hgraph, hprocesses, hmounts, _⟩ := Survey.of_mapped (survey_of_discover hv).2
  exact ⟨_, ends_performAll k o st, hgraph, hprocesses, hmounts⟩

end Coherent

/-! ## The law -/

/-- Whatever the host answers, whatever is asked for, and however far a discovery comes: in what
it gives back every reference stands, and what is recorded on two sides agrees. -/
theorem every_reference_in_a_survey_stands (k : Kernel σ φ) (o : Options) (st : σ) (v : Survey)
    (hv : ((k.discover o).run st).1 = .ok v) :
    (∀ s, o.includes s = false → (v.graph.ofSpecies s).isEmpty = true) ∧
    (∀ pid p, v.processes.get? pid = some p →
      (∀ parent, p.parent = some parent →
        ∃ q, v.processes.get? parent = some q ∧ pid ∈ q.children) ∧
      (∀ child ∈ p.children, ∃ q, v.processes.get? child = some q ∧ q.parent = some pid) ∧
      ∀ s id, p.joined.get s = some id → v.graph.contains s id = true) ∧
    (∀ s id n, v.graph.get? s id = some n →
      (∀ pid ∈ n.leaders, ∃ p, v.processes.get? pid = some p ∧ p.joined.get s = some id) ∧
      (∀ parent, n.parent? = some parent →
        ∃ m, v.graph.get? s parent = some m ∧ id ∈ m.children) ∧
      (∀ child ∈ n.children, ∃ m, v.graph.get? s child = some m ∧ m.parent? = some id) ∧
      (∀ owner, n.owner = some owner →
        ∃ user, v.graph.get? .user owner = some user ∧ id ∈ user.owned s) ∧
      ∀ t, ∀ i ∈ n.owned t,
        s = .user ∧ ∃ m, v.graph.get? t i = some m ∧ m.owner = some id) ∧
    ∀ id l, v.mounts.get? id = some l → v.graph.contains .mount id = true := by
  obtain ⟨w, hw, hgraph, hprocesses, hmounts⟩ := Coherent.of_discover hv
  rw [hgraph, hprocesses, hmounts]
  refine ⟨fun s hs => hw.isEmpty_ofSpecies hs, fun pid p hp => ?_, fun s id n hn => ?_, hw.mounted⟩
  · refine ⟨fun parent hparent => hw.linked.parent hp hparent, fun child hchild => ?_, ?_⟩
    · exact hw.linked.child hp hchild
    · exact fun s id hid => hw.joined pid p s id hp hid
  · refine ⟨fun pid hpid => hw.led s id n pid hn hpid, fun parent hparent => ?_,
      fun child hchild => hw.parent_of_mem_children hn hchild, fun owner howner => ?_,
      fun t i hi => ?_⟩
    · exact (hw.forest.parent?_eq_some_iff hn).1 hparent
    · exact hw.titled.owner_of_get? hn howner
    · have hs := hw.eq_user_of_mem_owned hn hi
      subst hs
      exact ⟨rfl, hw.titled.owned_of_get? hn hi⟩

/-- The innermost PID namespace of two nested processes is led by one that has joined it. -/
theorem a_nested_namespace_is_led_from_within :
    ∃ v n, ((Tableau.nested.kernel.discover { species := .single .pid }).run ()).1 = .ok v ∧
      v.graph.get? .pid ⟨4, 3⟩ = some n ∧ n.leaders = [⟨7⟩] ∧
      (∃ p, v.processes.get? ⟨7⟩ = some p ∧ p.joined.pid = some ⟨4, 3⟩) ∧
      ∃ m, v.graph.get? .pid ⟨4, 2⟩ = some m ∧ ⟨4, 3⟩ ∈ m.children := by
  have hrun : ((Tableau.nested.kernel.discover { species := .single .pid }).run ()).1.toOption.bind
      (fun v => (v.graph.get? .pid ⟨4, 3⟩).map fun n => (n.leaders, n.parent?)) =
        some ([⟨7⟩], some ⟨4, 2⟩) := by
    decide +kernel
  cases hv : ((Tableau.nested.kernel.discover { species := .single .pid }).run ()).1 with
  | error why =>
    rw [hv] at hrun
    cases hrun
  | ok v =>
    rw [hv] at hrun
    obtain ⟨n, hn, hview⟩ := Option.map_eq_some_iff.1 hrun
    obtain ⟨hleaders, hparent⟩ := Prod.mk.inj hview
    obtain ⟨_, _, hspaces, _⟩ :=
      every_reference_in_a_survey_stands Tableau.nested.kernel { species := .single .pid } () v hv
    obtain ⟨hled, habove, _⟩ := hspaces .pid ⟨4, 3⟩ n hn
    exact ⟨v, n, rfl, hn, hleaders, hled ⟨7⟩ (hleaders ▸ List.mem_cons_self), habove _ hparent⟩

end NamespaceAtlas
