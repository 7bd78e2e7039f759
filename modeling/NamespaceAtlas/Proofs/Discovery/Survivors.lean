-- The processes that are left after scans for some species: those that can be
-- read for all of them, each with the namespaces that it has joined.
import NamespaceAtlas.Proofs.ProcessTable

namespace NamespaceAtlas

/-- Whether a process can be read for all these species. Time namespaces do not count. -/
def readable (read : Pid → Species → Option Identity) (done : List Species) (pid : Pid) : Bool :=
  done.all fun s => s = .time || (read pid s).isSome

/-- The namespaces that are read of a process in scans for these species. -/
def joinedIn (read : Pid → Species → Option Identity) (done : List Species) (pid : Pid) :
    BySpecies (Option Identity) :=
  .ofFun fun s => if s ∈ done then read pid s else none

/-- The processes of a list that are left after scans for these species. -/
def survivors (read : Pid → Species → Option Identity) (done : List Species)
    (l : List Process) : List Process :=
  (l.filter fun p => readable read done p.pid).map (·.mapJoined fun pid _ => joinedIn read done pid)

/-- A process as procfs shows it: neither its relatives nor its namespaces are recorded. -/
def Process.Fresh (p : Process) : Prop := p.Unlinked ∧ p.joined = .same none

open ProcessTable

variable {read : Pid → Species → Option Identity} {done : List Species} {s : Species}
  {l : List Process} {p : Process} {pid : Pid}

theorem readable_append : readable read (done ++ [s]) pid =
    (readable read done pid && (s = .time || (read pid s).isSome)) := by
  simp [readable]

theorem readable_iff : readable read done pid = true ↔
    ∀ s ∈ done, s = .time ∨ (read pid s).isSome = true := by
  simp [readable]

theorem joinedIn_append :
    joinedIn read (done ++ [s]) pid = (joinedIn read done pid).set s (read pid s) := by
  refine BySpecies.ext_get fun t => ?_
  by_cases ht : t = s
  · simp [joinedIn, ht]
  · simp [joinedIn, BySpecies.get_set_of_ne _ _ ht, ht]

theorem unlinked_survivors (h : ∀ p ∈ l, p.Unlinked) : ∀ p ∈ survivors read done l, p.Unlinked := by
  intro p hp
  obtain ⟨q, hq, rfl⟩ := List.mem_map.1 hp
  exact h q (List.mem_filter.1 hq).1

/-- No process is lost before the first scan. -/
theorem survivors_nil (h : ∀ p ∈ l, p.Fresh) : survivors read [] l = l := by
  unfold survivors
  have hkeep : (l.filter fun p => readable read [] p.pid) = l :=
    List.filter_eq_self.2 fun _ _ => rfl
  rw [hkeep]
  refine (List.map_congr_left fun p hp => ?_).trans (List.map_id l)
  have hjoined : joinedIn read [] p.pid = p.joined := by
    rw [(h p hp).2]
    refine BySpecies.ext_get fun s => ?_
    simp [joinedIn]
  exact congrArg (fun joined => { p with joined }) hjoined

/-- One scan more: the processes are read for one species more, and those that cannot be read
are lost. -/
theorem survivors_append : survivors read (done ++ [s]) l =
    ((survivors read done l).map (·.mapJoined fun pid b => b.set s (read pid s))).filter
      fun p => s = .time || (read p.pid s).isSome := by
  unfold survivors
  rw [List.map_map, List.filter_map, List.filter_filter]
  refine congr (congrArg List.map (funext fun p => ?_)) (List.filter_congr fun p _ => ?_)
  · simp [Process.mapJoined, joinedIn_append]
  · rw [readable_append, Bool.and_comm]
    rfl

/-! ## Their table -/

theorem register_survivors : register (survivors read done l) =
    ((register l).restrict (readable read done)).mapWithKey fun _ p =>
      p.mapJoined fun pid _ => joinedIn read done pid := by
  unfold survivors
  rw [register_mapJoined, register_filter]

theorem pids_survivors (h : ∀ p ∈ l, p.Unlinked) :
    (ofList (survivors read done l)).pids = (ofList l).pids.filter (readable read done) := by
  rw [pids_ofList (unlinked_survivors h), pids_ofList h, register_survivors,
    Registry.keys_mapWithKey, Registry.keys_restrict]

theorem joined_survivors (h : ∀ p ∈ l, p.Unlinked)
    (hp : (ofList (survivors read done l)).get? pid = some p) :
    p.joined = joinedIn read done pid := by
  rw [get?_ofList (unlinked_survivors h), register_survivors, Registry.get?_mapWithKey,
    Registry.get?_restrict] at hp
  split at hp
  · obtain ⟨q, hq, rfl⟩ := Option.map_eq_some_iff.1 hp
    obtain ⟨m, hm, rfl⟩ := Option.map_eq_some_iff.1 hq
    rw [← filed_register l pid m hm]
    rfl
  · cases hp

/-- The processes that are left have the numbers that they had. -/
theorem innerPids_survivors (h : ∀ p ∈ l, p.Unlinked)
    (read : Pid → Species → Option Identity) (done : List Species) (pid : Pid) :
    ((ofList (survivors read done l)).get? pid).map (·.innerPids) =
      if readable read done pid then ((ofList l).get? pid).map (·.innerPids) else none := by
  rw [get?_ofList (unlinked_survivors h), get?_ofList h, register_survivors,
    Registry.get?_mapWithKey, Registry.get?_restrict]
  split
  · cases (register l).get? pid with
    | none => rfl
    | some p => rfl
  · rfl

theorem acyclic_survivors (h : ∀ p ∈ l, p.Unlinked) (hac : Acyclic (ofList l).up) :
    Acyclic (ofList (survivors read done l)).up := by
  unfold survivors
  rw [up_ofList_mapJoined fun p hp => h p (List.mem_filter.1 hp).1]
  exact hac.mono fun x y => up_ofList_filter h (readable read done)

/-- What a table keeps depends only on the processes that it has. -/
theorem ofList_filter_congr (h : ∀ p ∈ l, p.Unlinked) (keep keep' : Pid → Bool)
    (hkeep : ∀ pid ∈ (ofList l).pids, keep pid = keep' pid) :
    ofList (l.filter fun p => keep p.pid) = ofList (l.filter fun p => keep' p.pid) := by
  rw [ofList_eq_wired fun p hp => h p (List.mem_filter.1 hp).1,
    ofList_eq_wired fun p hp => h p (List.mem_filter.1 hp).1, register_filter, register_filter]
  refine congrArg wired (Registry.ext_get? fun x => ?_)
  rw [Registry.get?_restrict, Registry.get?_restrict]
  cases hx : (register l).get? x with
  | none => simp
  | some p =>
    rw [pids_ofList h] at hkeep
    rw [hkeep x (Registry.mem_keys_iff.2 (Registry.contains_iff.2 ⟨p, hx⟩))]

end NamespaceAtlas
