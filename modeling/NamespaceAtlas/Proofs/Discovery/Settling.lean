-- Settling after a scan. The processes that could not be read are taken out,
-- and there are elections for the species of the scan and for all others that
-- may have lost a leader.
import NamespaceAtlas.Discovery.Joined
import NamespaceAtlas.Proofs.Leadership

namespace NamespaceAtlas

namespace Survey

/-- The survey without some of its processes, which are counted. -/
def without (v : Survey) (pids : List Pid) : Survey :=
  { v with
    processes := pids.foldl ProcessTable.erase v.processes
    diagnostics := { v.diagnostics with
      skippedProcesses := v.diagnostics.skippedProcesses + pids.length } }

/-! ## The processes -/

theorem withoutProcess_eq {v : Survey} {pid : Pid} (h : v.processes.contains pid = true) :
    v.withoutProcess pid = v.without [pid] := by
  unfold withoutProcess
  rw [if_pos h]
  rfl

theorem without_without (v : Survey) (pids rest : List Pid) :
    (v.without pids).without rest = v.without (pids ++ rest) := by
  unfold without
  simp only [List.foldl_append, List.length_append, Nat.add_assoc]

theorem foldl_withoutProcess (pids : List Pid) : ∀ v : Survey, pids.Nodup →
    (∀ pid ∈ pids, v.processes.contains pid = true) →
    pids.foldl withoutProcess v = v.without pids := by
  induction pids with
  | nil => exact fun v _ _ => rfl
  | cons pid rest ih =>
    intro v hnodup hknown
    obtain ⟨hpid, hrest⟩ := List.nodup_cons.1 hnodup
    rw [List.foldl_cons, withoutProcess_eq (hknown pid List.mem_cons_self), ih _ hrest,
      without_without]
    · rfl
    · intro x hx
      have hne : pid ≠ x := fun heq => hpid (heq ▸ hx)
      exact ProcessTable.contains_erase_of_ne (hknown x (List.mem_cons_of_mem pid hx)) hne

theorem otherSpecies_without (v : Survey) (pids : List Pid) (s : Species) :
    (v.without pids).otherSpecies s = v.otherSpecies s := rfl

theorem mem_otherSpecies {v : Survey} {s t : Species} :
    t ∈ v.otherSpecies s ↔ t ≠ s ∧ (v.graph.ofSpecies t).isEmpty = false := by
  unfold otherSpecies
  simp [t.mem_all]

theorem nodup_otherSpecies (v : Survey) (s : Species) : (s :: v.otherSpecies s).Nodup := by
  refine List.nodup_cons.2 ⟨?_, Species.nodup_all.filter _⟩
  intro hs
  exact (mem_otherSpecies.1 hs).1 rfl

/-- What each election keeps, and each loss of a process, settling keeps. -/
theorem settled_induction {Q : Survey → Prop} (hleaders : ∀ v t, Q v → Q (v.withLeaders t))
    (hwithout : ∀ v pid, Q v → Q (v.withoutProcess pid)) (v : Survey) (s : Species)
    (unreadable : List Pid) (h : Q v) : Q (v.settled s unreadable) := by
  have hfoldl : ∀ {α : Type} {f : Survey → α → Survey}, (∀ v a, Q v → Q (f v a)) →
      ∀ (l : List α) v, Q v → Q (l.foldl f v) := by
    intro α f hf l
    induction l with
    | nil => exact fun v h => h
    | cons a rest ih => exact fun v h => ih (f v a) (hf v a h)
  unfold settled
  split
  · exact hleaders v s h
  · exact hfoldl hleaders _ _ (hfoldl hwithout unreadable v h)

/-! ## The elections -/

/-- Elections for different species change each namespace of these once, and no other. -/
theorem foldl_withLeaders (ts : List Species) : ∀ v : Survey, ts.Nodup →
    ∃ g, ts.foldl withLeaders v = { v with graph := g } ∧
      ∀ t id, g.get? t id =
        if t ∈ ts then
          (v.graph.get? t id).map fun n => n.elect v.processes v.options.procfs t id
        else v.graph.get? t id := by
  induction ts with
  | nil => exact fun v _ => ⟨v.graph, rfl, fun t id => by simp⟩
  | cons s rest ih =>
    intro v hnodup
    obtain ⟨hs, hrest⟩ := List.nodup_cons.1 hnodup
    obtain ⟨g, hg, hget⟩ := ih (v.withLeaders s) hrest
    refine ⟨g, hg, fun t id => ?_⟩
    have helection : (v.withLeaders s).graph.get? t id =
        if s = t then (v.graph.get? t id).map fun n => n.elect v.processes v.options.procfs s id
        else v.graph.get? t id := Graph.get?_election ..
    rw [hget, helection]
    by_cases hst : s = t
    · subst hst
      simp [hs]
    · simp [hst, Ne.symm hst]
      rfl

end Survey

/-- `w` is `v` without some processes and after elections. Only namespaces of other species may
have had none, and these only where no process is lost. -/
structure Resettled (s : Species) (lost : List Pid) (v w : Survey) : Prop where
  rest : ∃ g, w = { v.without lost with graph := g }
  election : ∀ t id,
    w.graph.get? t id =
        (v.graph.get? t id).map (fun n => n.elect w.processes w.options.procfs t id) ∨
      t ≠ s ∧ lost = [] ∧ w.graph.get? t id = v.graph.get? t id

namespace Resettled

variable {s t : Species} {lost pids : List Pid} {id : Identity} {n : Namespace} {v w : Survey}

/-- Without a loss there are elections for the species of the scan alone. -/
theorem withLeaders (v : Survey) (s : Species) : Resettled s [] v (v.withLeaders s) where
  rest := ⟨_, rfl⟩
  election t id := by
    have helection : (v.withLeaders s).graph.get? t id =
        if s = t then (v.graph.get? t id).map fun n => n.elect v.processes v.options.procfs s id
        else v.graph.get? t id := Graph.get?_election ..
    by_cases hst : s = t
    · subst hst
      rw [if_pos rfl] at helection
      exact Or.inl helection
    · rw [if_neg hst] at helection
      exact Or.inr ⟨Ne.symm hst, rfl, helection⟩

/-- With a loss there are elections for all species that have namespaces. -/
theorem foldl_withLeaders (v : Survey) (s : Species) (lost : List Pid) :
    Resettled s lost v ((s :: v.otherSpecies s).foldl Survey.withLeaders (v.without lost)) := by
  obtain ⟨g, hg, hget⟩ :=
    Survey.foldl_withLeaders _ (v.without lost) (v.nodup_otherSpecies s)
  rw [hg]
  refine ⟨⟨g, rfl⟩, fun t id => Or.inl ?_⟩
  refine (hget t id).trans ?_
  split
  · rfl
  · rename_i ht
    have hempty : (v.graph.ofSpecies t).isEmpty = true := by
      simp only [List.mem_cons, Survey.mem_otherSpecies, not_or] at ht
      simpa [ht.1] using ht.2
    have hnone : (v.without lost).graph.get? t id = none := Graph.get?_of_isEmpty hempty id
    rw [hnone]
    exact (congrArg (Option.map _) hnone).symm

/-- Settling loses the processes that could not be read, except for time namespaces. -/
theorem settled (hnodup : pids.Nodup)
    (hknown : ∀ pid ∈ pids, v.processes.contains pid = true) :
    Resettled s (if s = .time then [] else pids) v (v.settled s pids) := by
  unfold Survey.settled
  by_cases hs : s = .time
  · rw [if_pos hs]
    simp only [hs, decide_true, Bool.true_or, if_true]
    exact withLeaders v .time
  · rw [if_neg hs]
    cases pids with
    | nil =>
      simp only [List.any_nil, Bool.not_false, Bool.or_true, if_true]
      exact withLeaders v s
    | cons pid rest =>
      have hsome : (pid :: rest).any v.processes.contains = true :=
        List.any_eq_true.2 ⟨pid, List.mem_cons_self, hknown pid List.mem_cons_self⟩
      simp only [hs, hsome, decide_false, Bool.not_true, Bool.or_false, Bool.false_eq_true,
        if_false]
      rw [Survey.foldl_withoutProcess _ v hnodup hknown, Survey.otherSpecies_without]
      exact foldl_withLeaders v s (pid :: rest)

theorem contains (h : Resettled s lost v w) : w.graph.contains t id = v.graph.contains t id := by
  change (w.graph.get? t id).isSome = (v.graph.get? t id).isSome
  rcases h.election t id with hget | ⟨_, _, hget⟩
  · rw [hget, Option.isSome_map]
  · rw [hget]

/-- What a namespace was before. -/
theorem of_get? (h : Resettled s lost v w) (hn : w.graph.get? t id = some n) :
    ∃ m, v.graph.get? t id = some m ∧
      (n = m.elect w.processes w.options.procfs t id ∨ t ≠ s ∧ lost = [] ∧ n = m) := by
  rcases h.election t id with hget | ⟨hts, hlost, hget⟩
  · rw [hn] at hget
    obtain ⟨m, hm, helect⟩ := Option.map_eq_some_iff.1 hget.symm
    exact ⟨m, hm, Or.inl helect.symm⟩
  · rw [hn] at hget
    exact ⟨n, hget.symm, Or.inr ⟨hts, hlost, rfl⟩⟩

end Resettled

end NamespaceAtlas
