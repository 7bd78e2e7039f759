-- Elections. Whatever leaders there were before, and in whatever order an
-- election goes through the processes, it leaves each namespace with those that
-- stand topmost in it, and changes nothing else.
import NamespaceAtlas.Proofs.Topmost

namespace NamespaceAtlas

/-! ## Leaders on a way -/

namespace ProcessTable

variable {t : ProcessTable} {s : Species} {id : Identity} {pid x : Pid} {p : Process}
  {way : List Pid}

theorem leads_iff : t.Leads s id pid ↔
    (∃ p, t.get? pid = some p ∧ p.joined.get s = some id) ∧ t.upWithin s id pid = none := by
  constructor
  · rintro ⟨p, hp, hjoined, htop⟩
    exact ⟨⟨p, hp, hjoined⟩, (upWithin_eq_none hp).2 htop⟩
  · rintro ⟨⟨p, hp, hjoined⟩, hnone⟩
    exact ⟨p, hp, hjoined, (upWithin_eq_none hp).1 hnone⟩

namespace Filed

variable (ht : Filed t.registry)
include ht

/-- Of the processes on a way up within a namespace the last leads there, and no other. -/
theorem leads_iff_of_mem_way (hway : Way (t.upWithin s id) pid way) (hp : t.get? pid = some p)
    (hjoined : p.joined.get s = some id) (hx : x ∈ pid :: way) :
    t.Leads s id x ↔ x = (pid :: way).getLast (by simp) := by
  rw [leads_iff, hway.up_eq_none_iff hx]
  refine and_iff_right ?_
  rcases List.mem_cons.1 hx with rfl | hx
  · exact ⟨p, hp, hjoined⟩
  · exact hway.forall_mem (fun a b hab => ht.get?_of_upWithin hab) x hx

/-- From each process the election comes to the last on its way. -/
theorem pid_topFrom (hway : Way (t.upWithin s id) pid way) (hp : t.get? pid = some p) :
    (t.topFrom s id t.size p).pid = (pid :: way).getLast (by simp) := by
  have hsteps := Nat.le_of_lt (ht.length_way_lt hway hp)
  exact ht _ _ (ht.topFrom_of_way hway t.size p hsteps hp).1

theorem exists_way_within (hac : Acyclic t.up) (s : Species) (id : Identity) (pid : Pid) :
    ∃ way, Way (t.upWithin s id) pid way :=
  (hac.mono fun _ _ => ht.up_of_upWithin).exists_way pid

/-- The processes to which a way within the namespace leads are its leaders. -/
theorem leads_iff_topFrom (hac : Acyclic t.up) : t.Leads s id pid ↔
    ∃ p ∈ t.toList, p.joined.get s = some id ∧ (t.topFrom s id t.size p).pid = pid := by
  constructor
  · rintro ⟨p, hp, hjoined, htop⟩
    refine ⟨p, Registry.mem_values_iff.2 ⟨pid, hp⟩, hjoined, ?_⟩
    rw [topFrom_of_no_parent htop]
    exact ht pid p hp
  · rintro ⟨p, hmem, hjoined, rfl⟩
    obtain ⟨x, hp⟩ := Registry.mem_values_iff.1 hmem
    obtain ⟨way, hway⟩ := ht.exists_way_within hac s id x
    rw [ht.pid_topFrom hway hp, ht.leads_iff_of_mem_way hway hp hjoined (List.getLast_mem _)]

/-- There is one leader on the way up from each process of a namespace. -/
theorem exists_unique_leader (hac : Acyclic t.up) (hp : t.get? pid = some p)
    (hjoined : p.joined.get s = some id) :
    ∃ way, Way (t.upWithin s id) pid way ∧ ∃! x, x ∈ pid :: way ∧ t.Leads s id x := by
  obtain ⟨way, hway⟩ := ht.exists_way_within hac s id pid
  refine ⟨way, hway, (pid :: way).getLast (by simp), ⟨List.getLast_mem _, ?_⟩, fun x hx => ?_⟩
  · rw [ht.leads_iff_of_mem_way hway hp hjoined (List.getLast_mem _)]
  · exact (ht.leads_iff_of_mem_way hway hp hjoined hx.1).1 hx.2

end Filed

end ProcessTable

/-! ## One election -/

namespace Graph

variable {g : Graph} {t : ProcessTable} {s u : Species} {id : Identity} {n : Namespace}
  {order : List Process}

/-- The graph after an election that goes through the processes in some order. -/
def elected (g : Graph) (t : ProcessTable) (s : Species) (order : List Process) : Graph :=
  order.foldl (addLeaderOf t s) (g.withoutLeaders s)

theorem leaders_elected (ht : ProcessTable.Filed t.registry) (hac : Acyclic t.up)
    (horder : order.Perm t.toList) (hn : (g.elected t s order).get? s id = some n) :
    n.leaders.Nodup ∧ ∀ pid, pid ∈ n.leaders ↔ t.Leads s id pid := by
  unfold elected at hn
  rw [get?_foldl_withoutLeaders, if_pos rfl] at hn
  obtain ⟨m, _, rfl⟩ := Option.map_eq_some_iff.1 hn
  refine ⟨Namespace.nodup_foldl_promote t s id order _ List.nodup_nil, fun pid => ?_⟩
  have hnew : pid ∉ m.clearLeaders.leaders := List.not_mem_nil
  rw [Namespace.mem_foldl_promote, or_iff_right hnew, ht.leads_iff_topFrom hac]
  simp only [horder.mem_iff]

/-- An election changes nothing but leaders. -/
theorem clearLeaders_elected : ((g.elected t s order).get? u id).map Namespace.clearLeaders =
    (g.get? u id).map Namespace.clearLeaders := by
  unfold elected
  rw [get?_foldl_withoutLeaders]
  split
  · rw [Option.map_map]
    refine congrArg (Option.map · _) (funext fun n => ?_)
    rw [Function.comp_apply, Namespace.foldl_promote_eq]
    rfl
  · rfl

/-- Nor does it change any leaders but those of its species. -/
theorem get?_elected_of_ne (hu : u ≠ s) : (g.elected t s order).get? u id = g.get? u id := by
  unfold elected
  rw [get?_foldl_withoutLeaders, if_neg hu.symm]

end Graph

/-! ## The law -/

/-- An election leaves each known namespace of its species with the processes that have joined it
and whose parent has not, or is not there: each of them once, whoever led before. On the way up from
a process, for as long as parents have joined the namespace, there is one leader. Nothing else
changes, and the leaders are the same in whatever order the processes are gone through. -/
theorem the_topmost_processes_are_elected (g : Graph) (t : ProcessTable)
    (ht : ProcessTable.Filed t.registry) (hac : Acyclic t.up) (s : Species) :
    let g' := g.electLeaders t s
    (∀ id n, g'.get? s id = some n →
      n.leaders.Nodup ∧
      (∀ pid, pid ∈ n.leaders ↔ ∃ p, t.get? pid = some p ∧ p.joined.get s = some id ∧
        ∀ q, t.parentOf? p = some q → q.joined.get s ≠ some id) ∧
      ∀ pid p, t.get? pid = some p → p.joined.get s = some id →
        ∃ way, Way (t.upWithin s id) pid way ∧ ∃! x, x ∈ pid :: way ∧ x ∈ n.leaders) ∧
    (∀ u id, (g'.get? u id).map Namespace.clearLeaders =
        (g.get? u id).map Namespace.clearLeaders ∧
      (u ≠ s → g'.get? u id = g.get? u id)) ∧
    ∀ order : List Process, order.Perm t.toList →
      let g'' := order.foldl (Graph.addLeaderOf t s) (g.withoutLeaders s)
      ∀ u id, (g''.get? u id).map Namespace.clearLeaders =
          (g'.get? u id).map Namespace.clearLeaders ∧
        ∀ n n', g'.get? u id = some n → g''.get? u id = some n' →
          n'.leaders.Perm n.leaders := by
  intro g'
  refine ⟨fun id n hn => ?_, fun u id => ⟨Graph.clearLeaders_elected, Graph.get?_elected_of_ne⟩, ?_⟩
  · obtain ⟨hnodup, hleads⟩ := Graph.leaders_elected ht hac (List.Perm.refl _) hn
    refine ⟨hnodup, hleads, fun pid p hp hjoined => ?_⟩
    simp only [hleads]
    exact ht.exists_unique_leader hac hp hjoined
  · intro order horder g'' u id
    refine ⟨Graph.clearLeaders_elected.trans Graph.clearLeaders_elected.symm,
      fun n n' hn hn' => ?_⟩
    -- Only of the species of the election is there anything to show: the others stay.
    by_cases hu : u = s
    · subst hu
      obtain ⟨hnodup, hleads⟩ := Graph.leaders_elected ht hac (List.Perm.refl _) hn
      obtain ⟨hnodup', hleads'⟩ := Graph.leaders_elected ht hac horder hn'
      rw [List.perm_ext_iff_of_nodup hnodup' hnodup]
      exact fun pid => (hleads' pid).trans (hleads pid).symm
    · have hsame : g''.get? u id = g'.get? u id :=
        (Graph.get?_elected_of_ne hu).trans (Graph.get?_elected_of_ne hu).symm
      rw [hsame, hn] at hn'
      cases hn'
      exact List.Perm.refl _

/-- Processes 10 and 20 have left the network namespace of process 1 for another. Process 21 has
gone back, and 22 below it has not. -/
def branched : List Process :=
  let process (pid parentPid : Int) (inode : UInt64) : Process := {
    pid := .ofInt pid
    parentPid := .ofInt parentPid
    name := "sh"
    started := 1
    joined := { BySpecies.same none with net := some ⟨4, inode⟩ } }
  [process 1 0 100, process 10 1 200, process 11 10 200, process 20 1 200, process 21 20 100,
    process 22 21 200]

/-- A namespace with three leaders. Process 11, which led before, does not any more. -/
theorem three_branches_are_led_by_their_topmost :
    let t := ProcessTable.ofList branched
    let g := (Graph.empty.insertNew .net ⟨4, 200⟩ .empty).modify .net ⟨4, 200⟩ (·.addLeader ⟨11⟩)
    ProcessTable.Filed t.registry ∧ Acyclic t.up ∧
    ∃ n, (g.electLeaders t .net).get? .net ⟨4, 200⟩ = some n ∧
      n.leaders = [⟨10⟩, ⟨20⟩, ⟨22⟩] ∧ ¬ t.Leads .net ⟨4, 200⟩ ⟨11⟩ ∧
      (∃ way, Way (t.upWithin .net ⟨4, 200⟩) ⟨22⟩ way ∧ ∃! x, x ∈ ⟨22⟩ :: way ∧ x ∈ n.leaders) ∧
      let g' := t.toList.reverse.foldl (Graph.addLeaderOf t .net) (g.withoutLeaders .net)
      ∀ n', g'.get? .net ⟨4, 200⟩ = some n' → n'.leaders.Perm [⟨10⟩, ⟨20⟩, ⟨22⟩] := by
  intro t g
  have hunlinked : ∀ p ∈ branched, p.Unlinked := by simp [branched, Process.Unlinked]
  have hfiled : ProcessTable.Filed t.registry := (ProcessTable.sound_ofList hunlinked).filed
  have hac : Acyclic t.up :=
    ProcessTable.acyclic_ofList_of_rank hunlinked (fun pid => pid.number.toInt.toNat)
      (by decide +kernel)
  obtain ⟨hmade, _, horder⟩ := the_topmost_processes_are_elected g t hfiled hac .net
  have helected : ((g.electLeaders t .net).get? .net ⟨4, 200⟩).map (·.leaders) =
      some [⟨10⟩, ⟨20⟩, ⟨22⟩] := by decide +kernel
  obtain ⟨n, hn, hleaders⟩ := Option.map_eq_some_iff.1 helected
  obtain ⟨_, hleads, hunique⟩ := hmade _ n hn
  let p := (t.get? ⟨22⟩).get (by decide +kernel)
  have hp : t.get? ⟨22⟩ = some p := (Option.some_get _).symm
  refine ⟨hfiled, hac, n, hn, hleaders, ?_, hunique ⟨22⟩ p hp (by decide +kernel), ?_⟩
  · intro hlead
    have hmem : ⟨11⟩ ∈ n.leaders := (hleads ⟨11⟩).2 hlead
    rw [hleaders] at hmem
    revert hmem
    decide
  · intro g' n' hn'
    rw [← hleaders]
    exact (horder _ (List.reverse_perm _) .net ⟨4, 200⟩).2 n n' hn hn'

end NamespaceAtlas
