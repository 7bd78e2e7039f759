-- Kinship. Who is whose parent in a table is told by the numbers that the
-- processes name, and children are the same links read the other way. So it
-- does not matter whether a process is dropped from the list before the table
-- is made or from the table after, nor in which order the list comes.
import NamespaceAtlas.Proofs.ProcessTable

namespace NamespaceAtlas

namespace ProcessTable

variable {r : Registry Pid Process} {t : ProcessTable} {l l' : List Process} {p : Process}
  {pid x : Pid}

/-! ## The order of children -/

/-- The processes of a registry come by ascending numbers. -/
theorem ascending_values (hr : Filed r) :
    r.values.Pairwise fun p q => p.pid.toInt < q.pid.toInt := by
  unfold Registry.values
  rw [List.pairwise_map]
  refine r.ascending.imp_of_mem fun {a b} ha hb hbefore => ?_
  have hpid : a.2.pid = a.1 := hr _ _ (Registry.mem_entries_iff.1 ha)
  have hpid' : b.2.pid = b.1 := hr _ _ (Registry.mem_entries_iff.1 hb)
  rw [hpid, hpid']
  exact hbefore

theorem ascending_childrenOf (hr : Filed r) (pid : Pid) :
    (childrenOf r pid).Pairwise fun a b => a.toInt < b.toInt := by
  unfold childrenOf
  rw [List.pairwise_map]
  exact (ascending_values hr).filter _

/-! ## Parents and children -/

namespace Linked

/-- A process has the parent that it names, if that is another one and in the table too. -/
theorem parent_iff (h : t.Linked) (hp : t.get? pid = some p) :
    p.parent = some x ↔ p.parentPid = x ∧ x ≠ pid ∧ t.contains x = true := by
  have hpid : p.pid = pid := h.filed hp
  obtain ⟨r, _, rfl⟩ := h
  have hknown : (wired r).contains x = r.contains x := Registry.contains_mapWithKey
  rw [get?_wired] at hp
  obtain ⟨q, _, rfl⟩ := Option.map_eq_some_iff.1 hp
  subst hpid
  rw [hknown]
  constructor
  · intro hparent
    obtain ⟨hne, hx, hq⟩ := linkedParent?_eq_some.1 hparent
    exact ⟨hq, hne, hx⟩
  · rintro ⟨hq, hne, hx⟩
    exact linkedParent?_eq_some.2 ⟨hne, hx, hq⟩

/-- The children of a process are those that have it as their parent. -/
theorem mem_children_iff (h : t.Linked) (hp : t.get? pid = some p) :
    x ∈ p.children ↔ ∃ c, t.get? x = some c ∧ c.parent = some pid := by
  refine ⟨h.child hp, ?_⟩
  rintro ⟨c, hc, hparent⟩
  obtain ⟨q, hq, hx⟩ := h.parent hc hparent
  rw [hp] at hq
  cases hq
  exact hx

theorem ascending_children (h : t.Linked) (hp : t.get? pid = some p) :
    p.children.Pairwise fun a b => a.toInt < b.toInt := by
  obtain ⟨r, hr, rfl⟩ := h
  rw [get?_wired] at hp
  obtain ⟨q, _, rfl⟩ := Option.map_eq_some_iff.1 hp
  exact ascending_childrenOf hr q.pid

end Linked

/-! ## The order of the list -/

/-- A table is made of what is registered, whatever list that comes from. -/
theorem ofList_congr (h : register l = register l') : ofList l = ofList l' := by
  have hof : ∀ l, ofList l =
      ⟨(linksOf (register l)).foldl (fun r e => link r e.1 e.2) (register l)⟩ := fun _ => rfl
  rw [hof, hof, h]

/-- A list in which no number comes twice makes the same table in every order. -/
theorem ofList_perm (h : (l.map (·.pid)).Nodup) (hperm : l.Perm l') : ofList l = ofList l' := by
  refine ofList_congr (Registry.ofList_perm ?_ (hperm.map _))
  rwa [List.map_map]

end ProcessTable

/-! ## The law -/

open ProcessTable

/-- Whatever processes there are, numbers that come twice and parents that go round included, and
whichever of them are dropped, in whatever order and however often: taking them out of the table of
the list gives the table of the list without them. In every such table a process has the parent that
it names if that is another process of the table, and a parent has those processes as its children,
each once, by ascending numbers. The order of the list does not matter if no number comes twice. -/
theorem dropped_processes_were_never_there (l : List Process) (h : ∀ p ∈ l, p.Unlinked)
    (pids : List Pid) :
    let t := pids.foldl erase (ofList l)
    t = ofList (l.filter fun p => p.pid ∉ pids) ∧
    (∀ pid p, t.get? pid = some p → p.pid = pid ∧
      (∀ x, p.parent = some x ↔ p.parentPid = x ∧ x ≠ pid ∧ t.contains x = true) ∧
      (∀ x, x ∈ p.children ↔ ∃ c, t.get? x = some c ∧ c.parent = some pid) ∧
      p.children.Pairwise fun a b => a.toInt < b.toInt) ∧
    ∀ l', l.Perm l' → (l.map (·.pid)).Nodup → ofList l' = ofList l := by
  intro t
  have ht : t = ofList (l.filter fun p => p.pid ∉ pids) := foldl_erase_ofList pids l h
  have hlinked : t.Linked := by
    rw [ht]
    exact .ofList fun p hp => h p (List.mem_of_mem_filter hp)
  refine ⟨ht, fun pid p hp => ?_, fun l' hperm hnodup => (ofList_perm hnodup hperm).symm⟩
  exact ⟨hlinked.filed hp, fun x => hlinked.parent_iff hp, fun x => hlinked.mem_children_iff hp,
    hlinked.ascending_children hp⟩

/-- Two processes name each other as parents, one names itself, and one number comes twice. One of
the two is dropped, and dropped again. -/
theorem a_circle_of_parents_is_parted :
    let process (pid parentPid : Pid) (name : String) : Process :=
      { pid, parentPid, name, started := 0 }
    let l := [process ⟨10⟩ ⟨7⟩ "d", process ⟨7⟩ ⟨8⟩ "a", process ⟨8⟩ ⟨7⟩ "b", process ⟨9⟩ ⟨9⟩ "c",
      process ⟨7⟩ ⟨8⟩ "e"]
    let t := [⟨8⟩, ⟨4⟩, ⟨8⟩].foldl erase (ofList l)
    (∀ p ∈ l, p.Unlinked) ∧ (ofList l).up ⟨7⟩ = some ⟨8⟩ ∧ (ofList l).up ⟨8⟩ = some ⟨7⟩ ∧
      t = ofList [process ⟨10⟩ ⟨7⟩ "d", process ⟨7⟩ ⟨8⟩ "a", process ⟨9⟩ ⟨9⟩ "c",
        process ⟨7⟩ ⟨8⟩ "e"] ∧
      t.up ⟨7⟩ = none ∧ t.up ⟨9⟩ = none ∧
      ∃ p, t.get? ⟨7⟩ = some p ∧ p.name = "e" ∧ ⟨10⟩ ∈ p.children := by
  intro process l t
  have hl : ∀ p ∈ l, p.Unlinked := by
    unfold Process.Unlinked
    decide
  obtain ⟨ht, hkin, _⟩ := dropped_processes_were_never_there l hl [⟨8⟩, ⟨4⟩, ⟨8⟩]
  have hup : t.up ⟨7⟩ = none ∧ t.up ⟨9⟩ = none ∧ t.up ⟨10⟩ = some ⟨7⟩ ∧
      (t.get? ⟨7⟩).map (·.name) = some "e" := by
    decide +kernel
  obtain ⟨h7, h9, h10, hname⟩ := hup
  obtain ⟨p, hp, hname⟩ := Option.map_eq_some_iff.1 hname
  obtain ⟨c, hc, hparent⟩ := Option.bind_eq_some_iff.1 h10
  refine ⟨hl, by decide +kernel, by decide +kernel, ht.trans (congrArg ofList (by decide)), h7, h9,
    p, hp, hname, ?_⟩
  exact ((hkin ⟨7⟩ p hp).2.2.1 ⟨10⟩).2 ⟨c, hc, hparent⟩

end NamespaceAtlas
