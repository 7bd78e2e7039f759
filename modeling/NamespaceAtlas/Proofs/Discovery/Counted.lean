-- The count of sandboxes. It says how many were started for the gateways into
-- mount namespaces that came out. Those of a gateway that failed on the way are
-- not in it, and those of the way up are not, so it may fall short of what was
-- started but never runs ahead.
import Mathlib.Algebra.Ring.Nat
import NamespaceAtlas.Proofs.Started
import NamespaceAtlas.Proofs.Discovery.Later
import NamespaceAtlas.Proofs.Discovery.Reopened
import NamespaceAtlas.Proofs.Discovery.Sandboxes
import NamespaceAtlas.Proofs.Discovery.Turns

namespace NamespaceAtlas

variable {σ φ α : Type}

/-! ## From one moment to the next -/

namespace Survey

variable {u v w : Survey}

/-- Nothing that was known of a namespace is lost, and nothing is said of sandboxes. -/
structure Calm (v w : Survey) : Prop where
  grows : v.Grows w
  unreachable : w.diagnostics.unreachable = v.diagnostics.unreachable
  sandboxes : w.diagnostics.sandboxes = v.diagnostics.sandboxes

theorem Calm.refl (v : Survey) : v.Calm v := ⟨(Widens.refl v).grows, rfl, rfl⟩

theorem Calm.trans (h : u.Calm v) (h' : v.Calm w) : u.Calm w where
  grows := h.grows.trans h'.grows
  unreachable := h'.unreachable.trans h.unreachable
  sandboxes := h'.sandboxes.trans h.sandboxes

theorem Calm.steadyInLists (u : Survey) : SteadyInLists (Calm u) where
  sighted v s id reference owner hs hnew haddressed h :=
    h.trans ⟨((Widens.steadyInFiles v).sighted v s id reference owner hs hnew haddressed
      (.refl v)).grows, rfl, rfl⟩
  skipFileList _ h := h.trans ⟨.of_graph_eq rfl rfl, rfl, rfl⟩
  skipFile _ h := h.trans ⟨.of_graph_eq rfl rfl, rfl, rfl⟩
  skipBindMount _ h := h.trans ⟨.of_graph_eq rfl rfl, rfl, rfl⟩
  note _ _ h := h.trans ⟨.of_graph_eq rfl rfl, rfl, rfl⟩

theorem Calm.steadyUpwards (u : Survey) (s : Species) : SteadyUpwards s (Calm u) where
  createdBy v id creator h := h.trans ⟨⟨rfl, .modify fun n _ => .setCreator n creator⟩, rfl, rfl⟩
  metParent v parent h := by
    unfold metParent
    split
    · exact h
    · exact h.trans ⟨⟨rfl, .insertNew v.graph s parent .empty⟩, rfl, rfl⟩
  addChild _ _ _ _ hok h := h.trans ⟨⟨rfl, .addChild hok⟩, rfl, rfl⟩

theorem Calm.withOwners (h : u.Calm v) (s : Species) : u.Calm (v.withOwners s) := by
  refine h.trans ⟨(Widens.refl v).grows.withOwners s, ?_, ?_⟩
  all_goals
    unfold Survey.withOwners
    split
    · rfl
    · rfl

/-- Sandboxes are lost only on the way into a mount namespace that lies inside another, and those
of the way up only if it sets out from inside another. None of this is so here. -/
structure Direct (up : Bool) (v : Survey) : Prop where
  unreached : ∀ id ∈ v.diagnostics.unreachable, ∀ n, v.graph.get? .mount id = some n →
    n.reference.length ≤ 1
  upwards : up = true → ∀ s id n, s.hasParents = true → v.graph.get? s id = some n →
    n.reference.length ≤ 1

theorem Direct.of_grows {up : Bool} (h : w.Direct up) (hgrows : v.Grows w)
    (hunreached : v.diagnostics.unreachable ⊆ w.diagnostics.unreachable) : v.Direct up where
  unreached id hid n hn := by
    obtain ⟨m, hm, hnm⟩ := hgrows.graph .mount id n hn
    rw [← hnm.reference]
    exact h.unreached id (hunreached hid) m hm
  upwards hup s id n hs hn := by
    obtain ⟨m, hm, hnm⟩ := hgrows.graph s id n hn
    rw [← hnm.reference]
    exact h.upwards hup s id m hs hm

end Survey

/-- From one moment of a discovery to a later one, no sandbox is counted that was not started, and
all are where none can be lost. -/
structure Counts (log : σ → List SandboxEvent) (up : Bool) (r r' : Run σ) : Prop where
  grows : r.survey.Grows r'.survey
  unreachable : r.survey.diagnostics.unreachable ⊆ r'.survey.diagnostics.unreachable
  sandboxes : r.survey.diagnostics.sandboxes ≤ r'.survey.diagnostics.sandboxes
  counted : startedIn (log r.kernel) + r'.survey.diagnostics.sandboxes ≤
    startedIn (log r'.kernel) + r.survey.diagnostics.sandboxes
  whole : r'.survey.Direct up → startedIn (log r.kernel) + r'.survey.diagnostics.sandboxes =
    startedIn (log r'.kernel) + r.survey.diagnostics.sandboxes

namespace Counts

variable {log : σ → List SandboxEvent} {up : Bool} {r r' r'' : Run σ}

theorem trans (h : Counts log up r r') (h' : Counts log up r' r'') : Counts log up r r'' where
  grows := h.grows.trans h'.grows
  unreachable := List.Subset.trans h.unreachable h'.unreachable
  sandboxes := h.sandboxes.trans h'.sandboxes
  counted := by
    have := h.counted
    have := h'.counted
    omega
  whole hdirect := by
    have := h.whole (hdirect.of_grows h'.grows h'.unreachable)
    have := h'.whole hdirect
    omega

/-- Where no sandbox is started and none is counted. -/
theorem of_calm (hlog : startedIn (log r'.kernel) = startedIn (log r.kernel))
    (hcalm : r.survey.Calm r'.survey) : Counts log up r r' where
  grows := hcalm.grows
  unreachable := by
    rw [hcalm.unreachable]
    exact List.Subset.refl _
  sandboxes := hcalm.sandboxes.ge
  counted := by rw [hlog, hcalm.sandboxes]
  whole _ := by rw [hlog, hcalm.sandboxes]

theorem refl (r : Run σ) : Counts log up r r := of_calm rfl (.refl _)

/-- The sandboxes of a gateway that came out are counted. -/
theorem countSandboxes {g : Gateway} {st : σ}
    (hspawned : startedIn (log st) = startedIn (log r.kernel) + g.spawned) :
    Counts log up r ⟨st, r.survey.countSandboxes g⟩ := by
  have hcount : startedIn (log r.kernel) + (r.survey.diagnostics.sandboxes + g.spawned) =
      startedIn (log st) + r.survey.diagnostics.sandboxes := by
    omega
  exact ⟨.of_graph_eq rfl rfl, List.Subset.refl _, Nat.le_add_right _ _, hcount.le,
    fun _ => hcount⟩

/-- Those of a gateway that did not come out are not. -/
theorem unreached {id : Identity} {n : Namespace} {st : σ} {v : Survey}
    (hn : r.survey.graph.get? .mount id = some n) (hgraph : v.graph = r.survey.graph)
    (hprocesses : v.processes = r.survey.processes)
    (hunreachable : r.survey.diagnostics.unreachable ⊆ v.diagnostics.unreachable)
    (hid : id ∈ v.diagnostics.unreachable)
    (hsandboxes : v.diagnostics.sandboxes = r.survey.diagnostics.sandboxes)
    (hle : startedIn (log r.kernel) ≤ startedIn (log st))
    (hone : n.reference.length ≤ 1 → startedIn (log st) = startedIn (log r.kernel)) :
    Counts log up r ⟨st, v⟩ where
  grows := .of_graph_eq hgraph hprocesses
  unreachable := hunreachable
  sandboxes := hsandboxes.ge
  counted := by
    rw [hsandboxes]
    exact Nat.add_le_add_right hle _
  whole hdirect := by
    have hshort := hdirect.unreached id hid n
      ((congrArg (·.get? .mount id) hgraph).trans hn)
    rw [hsandboxes, hone hshort]

end Counts

/-! ## Phases -/

namespace Kernel.Records

variable {k : Kernel σ φ} {log : σ → List SandboxEvent} {up : Bool} {r₀ : Run σ} {s : Species}
  (hk : k.Records log)

/-- What starts no sandbox and says nothing of any. -/
theorem counts_quietly {m : Phase σ α}
    (hlog : ∀ n, Keeps (fun r : Run σ => startedIn (log r.kernel) = n) m.run)
    (hcalm : ∀ v : Survey, Keeps (fun r : Run σ => v.Calm r.survey) m.run) :
    Keeps (Counts log up r₀) m.run :=
  fun r h => h.trans (.of_calm (hlog _ r rfl) (hcalm r.survey r (.refl _)))

theorem counts_asking {m : StateM σ α} (hm : ∀ n, Keeps (fun st => startedIn (log st) = n) m) :
    Keeps (Counts log up r₀) (Phase.sure m).run :=
  counts_quietly (fun n => Keeps.asks (hm n)) fun _ => Keeps.asking

theorem counts_changing {f : Survey → Survey} (hf : ∀ v : Survey, v.Calm (f v)) :
    Keeps (Counts log up r₀) (Phase.change f : Phase σ Unit).run :=
  counts_quietly (fun n => Keeps.finds (P := fun st => startedIn (log st) = n))
    fun _ => Keeps.changing fun v h => h.trans (hf v)

include hk

theorem counts_checkTime (phase : String) :
    Keeps (Counts log up r₀) (k.checkTime phase).run :=
  counts_quietly (fun n => (hk.quiet fun l => startedIn l = n).checkTime phase)
    fun _ => Keeps.checkingTime phase

theorem counts_findMountedIn (g : Gateway) :
    Keeps (Counts log up r₀) (k.findMountedIn g).run :=
  counts_quietly (fun n => (hk.quiet fun l => startedIn l = n).findMountedIn g)
    fun v => (Survey.Calm.steadyInLists v).findMountedIn g

theorem counts_close (g : Gateway) : Keeps (Counts log up r₀) (Phase.sure (k.close g)).run :=
  counts_asking fun _ _ h => hk.startedIn_close.trans h

theorem counts_visit (id : Identity) : Keeps (Counts log up r₀) (k.visit id).run := by
  apply Keeps.survey_bind
  intro r h
  split
  · exact h
  · rename_i n hn
    rw [ends_bind, ends_attempt]
    refine (hk.ends_gatewayOf_counted n _ _ r.kernel).mono ?_
    rintro (why | g) st ⟨htells, hone⟩
    -- What does not open is listed, so `Direct` speaks of its reference.
    · have hunreached : Counts log up r ⟨st, r.survey.unreached id⟩ :=
        .unreached hn rfl rfl (List.subset_append_left _ _) (List.mem_append_right _ List.mem_cons_self)
          rfl htells fun hshort => hone hshort why rfl
      exact h.trans hunreached
    · rw [andThen_ok]
      dsimp only
      rw [ends_bind, ends_change, andThen_ok]
      apply Keeps.run_bind (Keeps.run_lift (hk.counts_findMountedIn g))
      · intro answer
        exact Keeps.run_bind (hk.counts_close g) fun _ _ h => h
      · exact h.trans (.countSandboxes htells)

theorem counts_findMounted : Keeps (Counts log up r₀) k.findMounted.run := by
  apply Keeps.run_bind (counts_asking fun n => (hk.quiet fun l => startedIn l = n).identityAt _)
  rintro (why | own)
  · exact counts_changing fun v => ⟨.of_graph_eq rfl rfl, rfl, rfl⟩
  · apply Keeps.run_bind (counts_asking fun n => (hk.quiet fun l => startedIn l = n).ownReference own)
    intro reference
    refine Keeps.run_bind Keeps.survey fun v => ?_
    apply Keeps.run_bind (hk.counts_findMountedIn _)
    intro found
    exact Keeps.visitAll hk.counts_checkTime hk.counts_visit _ _ _

theorem counts_readTables (ids : List Identity) : ∀ tables,
    Keeps (Counts log up r₀) (k.readTables ids tables).run := by
  induction ids with
  | nil => exact fun tables => Keeps.run_pure
  | cons id rest ih =>
    intro tables
    apply Keeps.run_bind (hk.counts_checkTime _)
    intro _
    apply Keeps.survey_bind
    intro r h
    split
    · exact ih tables r h
    · rename_i n hn
      rw [ends_bind, ends_attempt]
      refine (hk.ends_gatewayOf_counted n _ _ r.kernel).mono ?_
      rintro (why | g) st ⟨htells, hone⟩
      · rw [andThen_ok]
        dsimp only
        rw [ends_bind, ends_change, andThen_ok]
        apply ih tables
        apply h.trans
        dsimp only
        -- It may be on the list from the search before.
        split
        · exact .unreached hn rfl rfl (List.Subset.refl _) ‹_› rfl htells
            fun hshort => hone hshort why rfl
        · exact .unreached hn rfl rfl (List.subset_append_left _ _)
            (List.mem_append_right _ List.mem_cons_self) rfl htells fun hshort => hone hshort why rfl
      · rw [andThen_ok]
        dsimp only
        rw [ends_bind, ends_change, andThen_ok]
        refine Keeps.run_bind (counts_asking fun n =>
          (hk.quiet fun l => startedIn l = n).contents _) (fun table => ?_) _
            (h.trans (.countSandboxes htells))
        apply Keeps.run_bind (hk.counts_close g)
        intro _
        split
        · exact ih _
        · refine Keeps.run_bind (counts_changing fun v => ?_) fun _ => ih tables
          exact ⟨.of_graph_eq rfl rfl, rfl, rfl⟩

theorem counts_keepMountTables : Keeps (Counts log up r₀) k.keepMountTables.run := by
  refine Keeps.run_bind Keeps.survey fun v => ?_
  apply Keeps.run_bind (hk.counts_readTables _ _)
  exact fun tables => counts_changing fun v => ⟨.of_graph_eq rfl rfl, rfl, rfl⟩

/-- The way up counts nothing, and starts nothing if it does not set out from inside another mount
namespace. -/
theorem counts_climbFrom (hs : s.hasParents = true) (hup : up = true) (id : Identity) :
    Keeps (Counts log up r₀) (k.climbFrom s id).run := by
  apply Keeps.run_bind (hk.counts_checkTime _)
  intro _
  apply Keeps.survey_bind
  intro r h
  split
  · exact h
  · rename_i n hn
    split
    · exact h
    · rw [ends_bind, ends_attempt]
      refine (hk.ends_openedReference_counted n.reference _ r.kernel).mono ?_
      rintro answer st ⟨hle, hone⟩
      -- The gateway is closed by now, and nobody has asked it what it took.
      have hopened : Counts log up r₀ ⟨st, r.survey⟩ := by
        refine h.trans ⟨.of_graph_eq rfl rfl, List.Subset.refl _, Nat.le_refl _, ?_, fun hdirect => ?_⟩
        · exact Nat.add_le_add_right hle _
        · rw [hone (hdirect.upwards hup s id n hs hn)]
      rw [andThen_ok]
      cases answer with
      | error why => exact hopened
      | ok f =>
        have hclimb : Keeps (Counts log up r₀) (k.climb s (Identity.count + 1) id f).run :=
          counts_quietly (fun n => (hk.quiet fun l => startedIn l = n).climb s _ id f)
            fun v => (Survey.Calm.steadyUpwards v s).climb _ id f
        exact hclimb _ hopened

theorem counts_findAncestors (hs : s.hasParents = true) (hup : up = true) :
    Keeps (Counts log up r₀) (k.findAncestors s).run := by
  refine Keeps.run_bind Keeps.survey fun v => ?_
  apply Keeps.run_forM
  intro id _
  exact hk.counts_climbFrom hs hup id

end Kernel.Records

/-! ## Turns -/

namespace Turn

/-- How many sandboxes were counted in a turn. -/
def counted (t : Turn σ) : Nat :=
  t.left.survey.diagnostics.sandboxes - t.start.survey.diagnostics.sandboxes

/-- How many sandboxes were started in a turn. -/
def started (log : σ → List SandboxEvent) (t : Turn σ) : Nat :=
  startedIn (log t.left.kernel) - startedIn (log t.start.kernel)

/-- What a turn counts it has started. On the way up nothing is counted, and only phases that enter
mount namespaces start any. -/
structure Booked (log : σ → List SandboxEvent) (t : Turn σ) : Prop where
  sandboxes : t.start.survey.diagnostics.sandboxes ≤ t.left.survey.diagnostics.sandboxes
  started : t.left.survey.diagnostics.sandboxes + startedIn (log t.start.kernel) ≤
    t.start.survey.diagnostics.sandboxes + startedIn (log t.left.kernel)
  upwards : t.step.phase = "hierarchy" →
    t.left.survey.diagnostics.sandboxes = t.start.survey.diagnostics.sandboxes
  quiet : t.step.phase ∉ ["bind mounts", "hierarchy", "mounts"] →
    startedIn (log t.left.kernel) = startedIn (log t.start.kernel)

theorem Booked.of_counts {log : σ → List SandboxEvent} {up : Bool} {t : Turn σ}
    (h : Counts log up t.start t.left)
    (hup : t.step.phase = "hierarchy" →
      t.left.survey.diagnostics.sandboxes = t.start.survey.diagnostics.sandboxes)
    (hquiet : t.step.phase ∉ ["bind mounts", "hierarchy", "mounts"] →
      startedIn (log t.left.kernel) = startedIn (log t.start.kernel)) : t.Booked log where
  sandboxes := h.sandboxes
  started := by
    have := h.counted
    omega
  upwards := hup
  quiet := hquiet

/-- A turn that starts nothing and counts nothing. -/
theorem Booked.of_silent {log : σ → List SandboxEvent} {t : Turn σ}
    (hstarted : startedIn (log t.left.kernel) = startedIn (log t.start.kernel))
    (hcounted : t.left.survey.diagnostics.sandboxes = t.start.survey.diagnostics.sandboxes) :
    t.Booked log where
  sandboxes := hcounted.ge
  started := by rw [hstarted, hcounted]
  upwards _ := hcounted
  quiet _ := hstarted

end Turn

/-- All that was counted and started, turn by turn. -/
theorem Turns.booked {log : σ → List SandboxEvent} {turns : List (Turn σ)} {r r' : Run σ}
    (h : Turns r turns r') (hturns : ∀ t ∈ turns, t.Booked log) :
    r'.survey.diagnostics.sandboxes =
      r.survey.diagnostics.sandboxes + (turns.map Turn.counted).sum ∧
    startedIn (log r'.kernel) = startedIn (log r.kernel) + (turns.map (Turn.started log)).sum := by
  induction h with
  | done r => exact ⟨rfl, rfl⟩
  | @next t rest _ r' hstart _ ih =>
    subst hstart
    obtain ⟨hcounted, hstarted⟩ := ih fun u hu => hturns u (List.mem_cons_of_mem t hu)
    have hbooked := hturns t List.mem_cons_self
    have hmore := hbooked.sandboxes
    have hrun := hbooked.started
    have hafter : t.after.survey.diagnostics.sandboxes = t.left.survey.diagnostics.sandboxes := rfl
    have hkernel : t.after.kernel = t.left.kernel := rfl
    rw [hafter] at hcounted
    rw [hkernel] at hstarted
    rw [hcounted, hstarted, List.map_cons, List.map_cons, List.sum_cons, List.sum_cons]
    unfold Turn.counted Turn.started
    omega

/-- The turns of the first part of a plan come before those of the rest. -/
theorem exists_split_of_prefix {turns : List (Turn σ)} {first rest : List (Step σ)}
    (h : turns.map Turn.step <+: first ++ rest) : ∃ before later, turns = before ++ later ∧
      before.map Turn.step <+: first ∧ later.map Turn.step <+: rest := by
  refine ⟨turns.take first.length, turns.drop first.length, (List.take_append_drop ..).symm, ?_, ?_⟩
  · have := h.take first.length
    rwa [List.take_left, ← List.map_take] at this
  · have := h.drop first.length
    rwa [List.drop_left, ← List.map_drop] at this

namespace Kernel.Records

variable {k : Kernel σ φ} {log : σ → List SandboxEvent} {o : Options} {step : Step σ}
  (hk : k.Records log)
include hk

/-- The scans of the processes start no sandbox and count none. -/
theorem quiet_of_mem_scans
    (h : step ∈ Step.forEach o.processes "processes" o.ordered k.findJoined) (r : Run σ) :
    startedIn (log (step.run.run r).2.kernel) = startedIn (log r.kernel) ∧
      (step.run.run r).2.survey.diagnostics.sandboxes = r.survey.diagnostics.sandboxes := by
  have hscans : ∀ n, SteadyInScans fun v => v.diagnostics.sandboxes = n := fun n => {
    read := fun _ _ _ _ _ h => h
    withLeaders := fun _ _ h => h
    withoutProcess := fun v pid h => by
      unfold Survey.withoutProcess
      split
      · exact h
      · exact h }
  refine of_mem_forEach (Q := fun step =>
    startedIn (log (step.run.run r).2.kernel) = startedIn (log r.kernel) ∧
      (step.run.run r).2.survey.diagnostics.sandboxes = r.survey.diagnostics.sandboxes)
    (fun _ s _ => ⟨?_, ?_⟩) h
  · exact (hk.quiet fun l => startedIn l = startedIn (log r.kernel)).findJoined s r rfl
  · exact (hscans _).findJoined s r rfl

/-- A later step starts what it counts. -/
theorem booked_of_mem_planAfterScans (h : step ∈ k.planAfterScans o) (r : Run σ) :
    Counts log o.hierarchy r (step.run.run r).2 ∧ Turn.Booked log ⟨step, r⟩ := by
  have hq := hk.quiet fun l => startedIn l = startedIn (log r.kernel)
  have hstart : Counts log o.hierarchy r r := .refl r
  refine of_mem_planAfterScans (Q := fun step =>
    Counts log o.hierarchy r (step.run.run r).2 ∧ Turn.Booked log ⟨step, r⟩)
    ?_ ?_ (fun hup s _ hs => ?_) (fun s => ?_) ?_ h
  · have hcounts : Counts log o.hierarchy r (k.findHeld.run r).2 :=
      .of_calm (hq.findHeld r rfl) ((Survey.Calm.steadyInLists _).findHeld r (.refl _))
    exact ⟨hcounts, .of_counts hcounts (by simp) fun _ => hq.findHeld r rfl⟩
  · have hcounts := hk.counts_findMounted r hstart
    exact ⟨hcounts, .of_counts hcounts (by simp) (by simp)⟩
  · have hcounts := hk.counts_findAncestors hs hup r hstart
    have hcalm : r.survey.Calm ((k.findAncestors s).run r).2.survey :=
      (Survey.Calm.steadyUpwards _ s).findAncestors r (.refl _)
    exact ⟨hcounts, .of_counts hcounts (fun _ => hcalm.sandboxes) (by simp)⟩
  · have hcounts : Counts log o.hierarchy r ((Phase.linkOwners s : Phase σ Unit).run r).2 :=
      .of_calm rfl ((Survey.Calm.refl _).withOwners s)
    exact ⟨hcounts, .of_counts hcounts (by simp) fun _ => rfl⟩
  · have hcounts := hk.counts_keepMountTables r hstart
    exact ⟨hcounts, .of_counts hcounts (by simp) (by simp)⟩

/-- The turns of a discovery start what they count, and whatever is counted is so after the
scans. -/
theorem booked_of_turns {st : σ} {turns : List (Turn σ)} {r : Run σ}
    (hturns : Turns ⟨(k.freshSurvey o st).2, (k.freshSurvey o st).1⟩ turns r)
    (hplan : turns.map Turn.step <+: k.plan o) :
    (∀ t ∈ turns, t.Booked log) ∧ ∃ m, startedIn (log m.kernel) = startedIn (log st) ∧
      m.survey.diagnostics.sandboxes = 0 ∧ Counts log o.hierarchy m r := by
  rw [plan_eq] at hplan
  obtain ⟨scans, later, rfl, hscans, hlater⟩ := exists_split_of_prefix hplan
  obtain ⟨m, hfirst, hsecond⟩ := Turns.append_iff.1 hturns
  obtain ⟨hbooked, hsame, hnone⟩ := hfirst.invariant (T := Turn.Booked log)
    (P := fun r => startedIn (log r.kernel) = startedIn (log st) ∧
      r.survey.diagnostics.sandboxes = 0)
    (fun t ht h => by
      obtain ⟨hstarted, hcounted⟩ :=
        hk.quiet_of_mem_scans (hscans.subset (List.mem_map_of_mem ht)) t.start
      exact ⟨.of_silent hstarted hcounted, hstarted.trans h.1, hcounted.trans h.2⟩)
    ⟨(hk.quiet fun l => startedIn l = startedIn (log st)).freshSurvey o st rfl, rfl⟩
  obtain ⟨hbooked', hcounts⟩ := hsecond.invariant (T := Turn.Booked log)
    (P := Counts log o.hierarchy m)
    (fun t ht h => by
      obtain ⟨hcounts, hbooked⟩ :=
        hk.booked_of_mem_planAfterScans (hlater.subset (List.mem_map_of_mem ht)) t.start
      exact ⟨hbooked, (h.trans hcounts).trans (.of_calm rfl ⟨.of_graph_eq rfl rfl, rfl, rfl⟩)⟩)
    (.refl m)
  refine ⟨fun t ht => ?_, m, hsame, hnone, hcounts⟩
  rcases List.mem_append.1 ht with ht | ht
  · exact hbooked t ht
  · exact hbooked' t ht

end Kernel.Records

/-! ## The law -/

/-- Whatever the host answers and whatever is asked for: a discovery counts no sandbox that was not
started. It counts in the phases that enter mount namespaces, and not on the way up. All that were
started are counted where no mount namespace that could not be entered, and nothing that the way up
sets out from, lies inside another mount namespace. -/
theorem no_sandbox_is_counted_that_was_not_started (k : Kernel σ φ) (log : σ → List SandboxEvent)
    (hk : k.Records log) (o : Options) (st : σ) (v : Survey)
    (hv : ((k.discover o).run st).1 = .ok v) :
    (∃ turns r, Turns ⟨(k.freshSurvey o st).2, (k.freshSurvey o st).1⟩ turns r ∧
      turns.map Turn.step <+: k.plan o ∧
      v.diagnostics.sandboxes = (turns.map Turn.counted).sum ∧
      startedIn (log ((k.discover o).run st).2) =
        startedIn (log st) + (turns.map (Turn.started log)).sum ∧
      ∀ t ∈ turns, t.counted ≤ t.started log ∧
        (t.step.phase = "hierarchy" → t.counted = 0) ∧
        (t.step.phase ∉ ["bind mounts", "hierarchy", "mounts"] → t.started log = 0)) ∧
    startedIn (log st) + v.diagnostics.sandboxes ≤ startedIn (log ((k.discover o).run st).2) ∧
    ((∀ id ∈ v.diagnostics.unreachable, ∀ n, v.graph.get? .mount id = some n →
        n.reference.length ≤ 1) →
      (o.hierarchy = true → ∀ s id n, s.hasParents = true → v.graph.get? s id = some n →
        n.reference.length ≤ 1) →
      startedIn (log ((k.discover o).run st).2) =
        startedIn (log st) + v.diagnostics.sandboxes) := by
  obtain ⟨turns, r, hturns, hplan, _, _, _, hsurvey, hkernel⟩ := turns_of_discover hv
  obtain ⟨hgraph, _, _, n, hdiagnostics⟩ := Survey.of_mapped hsurvey
  have hsandboxes : v.diagnostics.sandboxes = r.survey.diagnostics.sandboxes := by
    rw [hdiagnostics]
  have hunreachable : v.diagnostics.unreachable = r.survey.diagnostics.unreachable := by
    rw [hdiagnostics]
  obtain ⟨hbooked, m, hsame, hnone, hcounts⟩ := hk.booked_of_turns hturns hplan
  obtain ⟨hcounted, hstarted⟩ := hturns.booked hbooked
  have hfresh : startedIn (log (k.freshSurvey o st).2) = startedIn (log st) :=
    (hk.quiet fun l => startedIn l = startedIn (log st)).freshSurvey o st rfl
  -- Both accounts begin at nothing: the fresh survey counts none, and starts none.
  have hzero : (k.freshSurvey o st).1.diagnostics.sandboxes = 0 := rfl
  rw [hzero, Nat.zero_add] at hcounted
  rw [hfresh] at hstarted
  rw [hsandboxes, hunreachable, hgraph, hkernel]
  refine ⟨⟨turns, r, hturns, hplan, hcounted, hstarted, fun t ht => ?_⟩, ?_, fun hreached hup => ?_⟩
  · have hmore := (hbooked t ht).sandboxes
    have hrun := (hbooked t ht).started
    unfold Turn.counted Turn.started
    refine ⟨by omega, fun hphase => ?_, fun hphase => ?_⟩
    · rw [(hbooked t ht).upwards hphase, Nat.sub_self]
    · rw [(hbooked t ht).quiet hphase, Nat.sub_self]
  · have := hcounts.counted
    omega
  · have := hcounts.whole ⟨hreached, hup⟩
    omega

/-! ### A host with a user namespace two mounts away -/

/-- A host where a mount namespace is mounted in our own, and a user namespace in that. All that is
opened outside is the one, and all that is opened while a sandbox is alive is the other. -/
def nestedHost : Kernel (List SandboxEvent) Identity :=
  { Kernel.logging with
    contents := fun _ => do
      let line :=
        if alive (← get) = [] then boundLine "mnt:[2]" "/proc/b" else boundLine "user:[3]" "/x"
      return .ok (Bytes.ofText line)
    openFile := fun _ => return .ok (if alive (← get) = [] then ⟨4, 2⟩ else ⟨4, 3⟩)
    identify := fun f => return .ok f
    speciesFlag := fun f =>
      return .ok (if f = ⟨4, 2⟩ then Species.mount.flag else Species.user.flag) }

theorem records_nestedHost : nestedHost.Records id where
  quiet _ := by
    constructor <;> first | exact fun _ h => h | exact fun _ _ h => h
  spawned _ _ _ _ _ h := by
    cases h
    rfl
  unspawned _ _ _ _ _ h := by
    cases h
  released _ _ := rfl

theorem resolveThrough_nestedHost {g : Gateway} {p : Path}
    (hplain : Path.parentName ∉ (Path.root.join p).steps) :
    nestedHost.resolveThrough g p = pure (g.root.below (Path.root.join p).steps) :=
  nestedHost.resolveThrough_of_plain (fun _ => rfl) rfl hplain

theorem ends_openedMountPoint_nestedHost {g : Gateway} {root point : String} {id : Identity}
    {l : List SandboxEvent} (hplain : Path.parentName ∉ (Path.root.join (Path.ofText point)).steps)
    (hid : (if alive l = [] then (⟨4, 2⟩ : Identity) else ⟨4, 3⟩) = id) :
    Ends (nestedHost.openedMountPoint g (boundMount root point)) l fun outcome st =>
      outcome = .ok (id, id) ∧ st = l := by
  subst hid
  unfold Kernel.openedMountPoint
  rw [boundMount, resolveThrough_nestedHost hplain, pure_bind]
  exact ⟨rfl, rfl⟩

/-- A search for what is mounted, and the way up if that is asked for. -/
def nestedOptions (up : Bool) : Options :=
  { Options.nothing with species := .ofList [.user, .mount], bindMounts := true, hierarchy := up }

/-- The gateway into the mounted mount namespace. -/
def nestedGateway (pid : Pid) : Gateway where
  reference := .single "/proc/b"
  root := Gateway.rootOf pid
  pid := some pid
  sandbox := some pid
  spawned := 1

/-- What is known of this host at first. -/
def nestedStart (up : Bool) : Survey := (nestedHost.freshSurvey (nestedOptions up) []).1

/-- What is known when our own mount table has been read. -/
def nestedOutside (up : Bool) : Survey :=
  (nestedStart up).sighted .mount ⟨4, 2⟩ (.single "/proc/b") none

/-- What is known when both mount tables have been read. -/
def nestedFound (up : Bool) : Survey :=
  ((nestedOutside up).countSandboxes (nestedGateway ⟨100⟩)).sighted .user ⟨4, 3⟩
    ⟨["/proc/b", "/x"]⟩ none

theorem ends_lookAtHome_nestedHost (up : Bool) :
    Ends (nestedHost.lookAtHome ⟨4, 1⟩) ⟨[], nestedStart up⟩ fun outcome r =>
      outcome = .ok [⟨4, 2⟩] ∧ r = ⟨[], nestedOutside up⟩ := by
  have hown : Ends (nestedHost.identityAt "/proc/self/ns/mnt") ([] : List SandboxEvent)
      fun _ st => st = [] := rfl
  have hreference : nestedHost.ownReference ⟨4, 1⟩ [] = (.empty, []) := rfl
  have hcontents : nestedHost.contents (Gateway.own .empty).tablePath [] =
      (.ok (Bytes.ofText (boundLine "mnt:[2]" "/proc/b")), []) := rfl
  have hmounts := mounts_boundLine ("mnt:[2]", "/proc/b") (by decide)
  have hroot := parseText?_roots ("mnt:[2]", .mount, 2) (by decide)
  have hs : (Selection.ofList [.user, .mount]).has .mount = true := by decide
  exact Kernel.ends_lookAtHome hown hreference (Kernel.ends_findMountedIn_of_one hcontents hmounts
    hroot (ends_openedMountPoint_nestedHost (by decide) rfl) rfl rfl rfl hs rfl)

/-- The look into the mounted mount namespace. -/
theorem ends_findMountedIn_nestedHost (up : Bool) :
    Ends (nestedHost.findMountedIn (nestedGateway ⟨100⟩))
      ⟨[.started ⟨100⟩], (nestedOutside up).countSandboxes (nestedGateway ⟨100⟩)⟩ fun outcome r =>
        outcome = .ok [] ∧ r = ⟨[.started ⟨100⟩], nestedFound up⟩ := by
  have hcontents : nestedHost.contents (nestedGateway ⟨100⟩).tablePath [.started ⟨100⟩] =
      (.ok (Bytes.ofText (boundLine "user:[3]" "/x")), [.started ⟨100⟩]) := rfl
  have hmounts := mounts_boundLine ("user:[3]", "/x") (by decide)
  have hroot := parseText?_roots ("user:[3]", .user, 3) (by decide)
  have hs : (Selection.ofList [.user, .mount]).has .user = true := by decide
  exact Kernel.ends_findMountedIn_of_one hcontents hmounts hroot
    (ends_openedMountPoint_nestedHost (by decide) rfl) rfl rfl rfl hs rfl

theorem ends_findMounted_nestedHost (up : Bool) :
    Ends nestedHost.findMounted ⟨[], nestedStart up⟩ fun outcome r =>
      outcome = .ok () ∧ r = ⟨[.started ⟨100⟩, .ended ⟨100⟩], nestedFound up⟩ := by
  have hown : Ends (nestedHost.identityAt "/proc/self/ns/mnt") ([] : List SandboxEvent)
      fun outcome _ => outcome = .ok ⟨4, 1⟩ := rfl
  have hknown : (nestedOutside up).graph.get? .mount ⟨4, 2⟩ =
      some (.new .mount ⟨4, 2⟩ (.single "/proc/b")) :=
    (Survey.get?_sighted_new rfl).trans (if_pos ⟨rfl, rfl⟩)
  have hprocesses : (nestedOutside up).processes = .empty := rfl
  have hlimit : (nestedOutside up).options.attachLimit = .ofSeconds 5 := rfl
  have hgate : Ends (nestedHost.gatewayOf (.new .mount ⟨4, 2⟩ (.single "/proc/b"))
      (nestedOutside up).processes (nestedOutside up).options.attachLimit) [] fun outcome st =>
        outcome = .ok (nestedGateway ⟨100⟩) ∧ st = [.started ⟨100⟩] := by
    rw [hprocesses, hlimit]
    exact ends_of_toOption (by decide +kernel)
  exact Kernel.ends_findMounted_of_one hown rfl (ends_lookAtHome_nestedHost up) rfl (by decide)
    hknown hgate (ends_findMountedIn_nestedHost up)

/-- To open the user namespace again takes another sandbox. -/
theorem ends_openedReference_nestedHost :
    Ends (nestedHost.openedReference ⟨["/proc/b", "/x"]⟩ (.ofSeconds 5))
      [.started ⟨100⟩, .ended ⟨100⟩] fun outcome st => outcome = .ok ⟨4, 3⟩ ∧
        st = [.started ⟨100⟩, .ended ⟨100⟩, .started ⟨102⟩, .ended ⟨102⟩] := by
  have hgate : Ends (nestedHost.gateway (.single "/proc/b") (.ofSeconds 5))
      [.started ⟨100⟩, .ended ⟨100⟩] fun outcome st =>
        outcome = .ok (nestedGateway ⟨102⟩) ∧
          st = [.started ⟨100⟩, .ended ⟨100⟩, .started ⟨102⟩] :=
    ends_of_toOption (by decide +kernel)
  have hfault : Reference.fault? ⟨["/proc/b", "/x"]⟩ = none := by decide
  unfold Kernel.openedReference
  rw [hfault]
  dsimp only
  rw [ends_bind]
  refine hgate.mono ?_
  rintro _ _ ⟨rfl, rfl⟩
  rw [andThen_ok]
  unfold Kernel.through Kernel.openThrough
  rw [ends_bind, ends_caught, resolveThrough_nestedHost (by decide), pure_bind]
  exact ⟨rfl, rfl⟩

theorem ends_findAncestors_nestedHost :
    Ends (nestedHost.findAncestors .user) ⟨[.started ⟨100⟩, .ended ⟨100⟩], nestedFound true⟩
      fun outcome r => outcome = .ok () ∧
        r = ⟨[.started ⟨100⟩, .ended ⟨100⟩, .started ⟨102⟩, .ended ⟨102⟩], nestedFound true⟩ := by
  have hids : (nestedFound true).graph.ids .user = [⟨4, 3⟩] := by decide +kernel
  have hknown : (nestedFound true).graph.get? .user ⟨4, 3⟩ =
      some (.new .user ⟨4, 3⟩ ⟨["/proc/b", "/x"]⟩) :=
    (Survey.get?_sighted_new rfl).trans (if_pos ⟨rfl, rfl⟩)
  unfold Kernel.findAncestors
  rw [ends_bind, ends_survey, andThen_ok, hids]
  change Ends (nestedHost.climbFrom .user ⟨4, 3⟩ >>= fun _ => pure ()) _ _
  rw [ends_bind]
  unfold Kernel.climbFrom
  rw [ends_bind]
  apply ends_checkTime rfl
  rw [andThen_ok, ends_bind, ends_survey, andThen_ok, hknown]
  dsimp only
  rw [if_neg (by decide), ends_bind, ends_attempt]
  refine ends_openedReference_nestedHost.mono ?_
  rintro _ _ ⟨rfl, rfl⟩
  exact ⟨rfl, rfl⟩

/-- The bind mounts of this host take one sandbox, and it is counted. -/
theorem the_sandbox_of_a_bind_mount_is_counted :
    nestedHost.Records id ∧
    ∃ v, ((nestedHost.discover (nestedOptions false)).run []).1 = .ok v ∧
      v.diagnostics.sandboxes = 1 ∧
      startedIn ((nestedHost.discover (nestedOptions false)).run []).2 = 1 := by
  have hplan : nestedHost.plan (nestedOptions false) = [⟨"bind mounts", nestedHost.findMounted⟩] := rfl
  have hends : Ends (nestedHost.discover (nestedOptions false)) [] fun outcome _ =>
      outcome = .ok (nestedFound false) := by
    rw [ends_discover, hplan]
    apply ends_performAll_cons
    refine (ends_findMounted_nestedHost false).mono ?_
    rintro _ _ ⟨rfl, rfl⟩
    exact ⟨rfl, rfl⟩
  obtain ⟨_, _, hall⟩ := no_sandbox_is_counted_that_was_not_started nestedHost id
    records_nestedHost (nestedOptions false) [] (nestedFound false) hends
  exact ⟨records_nestedHost, nestedFound false, hends, rfl, hall nofun nofun⟩

/-- The way up from the user namespace takes another one, and that is not counted. -/
theorem the_sandbox_of_a_way_up_is_not_counted :
    nestedHost.Records id ∧
    ∃ v, ((nestedHost.discover (nestedOptions true)).run []).1 = .ok v ∧
      v.diagnostics.sandboxes = 1 ∧
      startedIn ((nestedHost.discover (nestedOptions true)).run []).2 = 2 := by
  have hordered : (nestedOptions true).ordered = [.user, .mount] := by decide
  have hplan : nestedHost.plan (nestedOptions true) =
      [⟨"bind mounts", nestedHost.findMounted⟩, ⟨"hierarchy", nestedHost.findAncestors .user⟩] := by
    unfold Kernel.plan
    rw [hordered]
    rfl
  have hends : Ends (nestedHost.discover (nestedOptions true)) [] fun outcome l =>
      outcome = .ok (nestedFound true) ∧ startedIn l = 2 := by
    rw [ends_discover, hplan]
    apply ends_performAll_cons
    refine (ends_findMounted_nestedHost true).mono ?_
    rintro _ _ ⟨rfl, rfl⟩
    refine ⟨rfl, ends_performAll_cons ?_⟩
    refine ends_findAncestors_nestedHost.mono ?_
    rintro _ _ ⟨rfl, rfl⟩
    exact ⟨rfl, rfl, rfl⟩
  exact ⟨records_nestedHost, nestedFound true, hends.1, rfl, hends.2⟩

end NamespaceAtlas
