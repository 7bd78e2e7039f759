-- The scans of the processes, species after species. A process that cannot be
-- read in one of them is lost, and what earlier scans settled through it is
-- settled anew: after each scan the survey is as if only the processes that
-- are left had ever been there.
import NamespaceAtlas.Discovery
import NamespaceAtlas.Proofs.Discovery.Plan
import NamespaceAtlas.Proofs.Discovery.Scan
import NamespaceAtlas.Proofs.Discovery.Settling
import NamespaceAtlas.Proofs.Discovery.Survivors

namespace NamespaceAtlas

/-! ## The processes after one scan more -/

open ProcessTable

variable {read : Pid → Species → Option Identity} {l : List Process} {done : List Species}
  {s : Species}

/-- The processes that a scan for one species more loses. -/
def lostIn (read : Pid → Species → Option Identity) (done : List Species) (s : Species)
    (pids : List Pid) : List Pid :=
  (pids.filter (readable read done)).filter fun pid => !(s = .time || (read pid s).isSome)

theorem length_lost (pids : List Pid) :
    (pids.filter fun pid => !readable read done pid).length + (lostIn read done s pids).length =
      (pids.filter fun pid => !readable read (done ++ [s]) pid).length := by
  unfold lostIn
  induction pids with
  | nil => rfl
  | cons pid rest ih =>
    simp only [List.filter_cons, readable_append] at ih ⊢
    cases hpid : readable read done pid with
    | false =>
      simp only [Bool.not_false, if_true, Bool.false_eq_true, if_false, Bool.false_and,
        List.length_cons]
      omega
    | true =>
      simp only [Bool.not_true, Bool.false_eq_true, if_false, if_true, Bool.true_and,
        List.filter_cons]
      split
      · simp only [List.length_cons]
        omega
      · exact ih

theorem processes_scanned {v w : Survey} (h : ∀ p ∈ l, p.Unlinked) (hs : s ∉ done)
    (hv : v.processes = ofList (survivors read done l))
    (hscan : Scanned read s v.processes.pids v w) :
    w.processes = ofList ((survivors read done l).map
      (·.mapJoined fun pid b => b.set s (read pid s))) := by
  have hunlinked : ∀ p ∈ survivors read done l, p.Unlinked := unlinked_survivors h
  rw [← mapJoined_ofList hunlinked]
  refine ProcessTable.ext_get? fun pid => ?_
  rw [hscan.table, Namespace.get?_mapJoined, ← hv]
  cases hp : v.processes.get? pid with
  | none => rfl
  | some p =>
    have hpid : p.pid = pid := by
      rw [hv] at hp
      exact (sound_ofList hunlinked).filed pid p hp
    have hnone : p.joined.get s = none := by
      rw [hv] at hp
      rw [joined_survivors h hp]
      simp [joinedIn, hs]
    rw [Option.map_some, Option.map_some, if_pos (mem_pids_iff.2 ⟨p, hp⟩),
      Process.tried_eq fun _ => hnone, ← hpid]
    rfl

theorem processes_without_lost {v : Survey} (h : ∀ p ∈ l, p.Unlinked)
    (hv : v.processes = ofList ((survivors read done l).map
      (·.mapJoined fun pid b => b.set s (read pid s)))) :
    (v.without (lostIn read done s (ofList l).pids)).processes =
      ofList (survivors read (done ++ [s]) l) := by
  have hunlinked : ∀ p ∈ (survivors read done l).map
      (·.mapJoined fun pid b => b.set s (read pid s)), p.Unlinked := by
    intro p hp
    obtain ⟨q, hq, rfl⟩ := List.mem_map.1 hp
    exact unlinked_survivors h q hq
  change List.foldl _ v.processes _ = _
  rw [hv, foldl_erase_ofList _ _ hunlinked, survivors_append]
  refine ofList_filter_congr hunlinked (fun pid => pid ∉ lostIn read done s (ofList l).pids)
    (fun pid => s = .time || (read pid s).isSome) fun pid hpid => ?_
  have hthere : pid ∈ (ofList l).pids.filter (readable read done) := by
    rw [pids_ofList hunlinked, register_mapJoined, Registry.keys_mapWithKey,
      ← pids_ofList (unlinked_survivors h), pids_survivors h] at hpid
    exact hpid
  unfold lostIn
  simp only [List.mem_filter, List.mem_filter.1 hthere, true_and]
  cases (decide (s = .time) || (read pid s).isSome) with
  | true => simp
  | false => simp

/-! ## The invariant -/

/-- The scans for the species of `done` have led from `v` to `w`. Only the processes count that
could be read in all of them, and each namespace is settled as these say. -/
structure Settled (read : Pid → Species → Option Identity) (l : List Process) (v : Survey)
    (done : List Species) (w : Survey) : Prop where
  rest : ∃ g, w = { v with
    graph := g
    processes := ofList (survivors read done l)
    diagnostics := { v.diagnostics with
      skippedProcesses := v.diagnostics.skippedProcesses +
        (v.processes.pids.filter fun pid => !readable read done pid).length } }
  known : ∀ s id, w.graph.contains s id = true ↔ s ∈ done ∧ ∃ pid ∈ v.processes.pids,
    readable read (done.takeWhile (· ≠ s)) pid = true ∧ read pid s = some id
  led : ∀ s id n, w.graph.get? s id = some n → n.Led w.processes v.options.procfs s id
  kind : ∀ s id n, w.graph.get? s id = some n → n.kind = .ofSpecies s
  reference : ∀ s id n, w.graph.get? s id = some n → ∃ pid ∈ v.processes.pids,
    read pid s = some id ∧ n.reference = .single (Path.ofNamespace v.options.procfs pid s)

namespace Settled

variable {v w w₁ : Survey} {id : Identity} {pid : Pid}

theorem start (h : ∀ p ∈ l, p.Fresh) (hv : v.processes = ofList l) (hempty : v.graph = .empty) :
    Settled read l v [] v where
  rest := by
    refine ⟨v.graph, ?_⟩
    have hall : (v.processes.pids.filter fun pid => !readable read [] pid) = [] :=
      List.filter_eq_nil_iff.2 fun _ _ => by simp [readable]
    rw [survivors_nil h, ← hv, hall]
    rfl
  known s id := by
    rw [hempty, Graph.contains_iff]
    simp
  led s id n hn := by
    rw [hempty] at hn
    simp at hn
  kind s id n hn := by
    rw [hempty] at hn
    simp at hn
  reference s id n hn := by
    rw [hempty] at hn
    simp at hn

theorem processes_eq (h : Settled read l v done w) :
    w.processes = ofList (survivors read done l) := by
  obtain ⟨g, hw⟩ := h.rest
  rw [hw]

theorem options_eq (h : Settled read l v done w) : w.options = v.options := by
  obtain ⟨g, hw⟩ := h.rest
  rw [hw]

theorem mem_pids_iff (h : Settled read l v done w) (hl : ∀ p ∈ l, p.Unlinked)
    (hv : v.processes = ofList l) :
    pid ∈ w.processes.pids ↔ pid ∈ v.processes.pids ∧ readable read done pid = true := by
  rw [h.processes_eq, pids_survivors hl, hv, List.mem_filter]

theorem fits (h : Settled read l v done w) {n : Namespace} (hn : w.graph.get? s id = some n) :
    n.kind.fits s = true := by
  rw [h.kind s id n hn]
  exact Kind.fits_ofSpecies s

/-- The scans tell no parents. -/
theorem parent?_eq_none (h : Settled read l v done w) : w.graph.parent? s id = none := by
  cases hn : w.graph.get? s id with
  | none =>
    unfold Graph.parent?
    rw [hn]
    rfl
  | some n =>
    rw [Graph.parent?_of_get? hn]
    unfold Namespace.parent?
    rw [h.kind s id n hn, Kind.hierarchy_ofSpecies]
    split
    · rfl
    · rfl

/-- A process leads in no namespace but the one that was read of it. -/
theorem read_of_leads (hl : ∀ p ∈ l, p.Unlinked)
    (h : (ofList (survivors read done l)).Leads s id pid) :
    pid ∈ (ofList l).pids ∧ read pid s = some id := by
  obtain ⟨p, hp, hjoined, _⟩ := h
  constructor
  · have hpid : pid ∈ (ofList (survivors read done l)).pids := ProcessTable.mem_pids_iff.2 ⟨p, hp⟩
    rw [pids_survivors hl] at hpid
    exact (List.mem_filter.1 hpid).1
  · rw [joined_survivors hl hp] at hjoined
    unfold joinedIn at hjoined
    rw [BySpecies.get_ofFun] at hjoined
    split at hjoined
    · exact hjoined
    · cases hjoined

/-- A namespace that a process has joined has a leader. -/
theorem exists_leads (hl : ∀ p ∈ l, p.Unlinked) (hac : Acyclic (ofList l).up) (hs : s ∈ done)
    (hpid : pid ∈ (ofList (survivors read done l)).pids) (hread : read pid s = some id) :
    ∃ leader, (ofList (survivors read done l)).Leads s id leader := by
  obtain ⟨p, hp⟩ := ProcessTable.mem_pids_iff.1 hpid
  have hjoined : p.joined.get s = some id := by
    rw [joined_survivors hl hp]
    unfold joinedIn
    rw [BySpecies.get_ofFun, if_pos hs, hread]
  exact ⟨_, leads_topFrom (sound_ofList (unlinked_survivors hl)) (acyclic_survivors hl hac) hp
    hjoined⟩

/-- After an election a namespace is addressed by way of a process that has joined it. Only one
that no process that is left has joined keeps its reference. -/
theorem reference_of_election (hl : ∀ p ∈ l, p.Unlinked) (hac : Acyclic (ofList l).up)
    (hs : s ∈ done) (procfs : Path) (id : Identity) (m : Namespace) :
    (∃ pid ∈ (ofList l).pids, read pid s = some id ∧
      (m.elect (ofList (survivors read done l)) procfs s id).reference =
        .single (Path.ofNamespace procfs pid s)) ∨
    (∀ pid ∈ (ofList (survivors read done l)).pids, read pid s ≠ some id) ∧
      (m.elect (ofList (survivors read done l)) procfs s id).reference = m.reference := by
  rcases Namespace.reference_elect (sound_ofList (unlinked_survivors hl))
    (acyclic_survivors hl hac) procfs s id m with
    ⟨pid, hleads, hreference⟩ | ⟨hnone, hreference⟩
  · obtain ⟨hpid, hread⟩ := read_of_leads hl hleads
    exact Or.inl ⟨pid, hpid, hread, hreference⟩
  · refine Or.inr ⟨fun pid hpid hread => ?_, hreference⟩
    obtain ⟨leader, hleads⟩ := exists_leads hl hac hs hpid hread
    exact hnone leader hleads

theorem takeWhile_append_of_mem {t : Species} {l l' : List Species} (h : t ∈ l) :
    (l ++ l').takeWhile (· ≠ t) = l.takeWhile (· ≠ t) := by
  induction l with
  | nil => simp at h
  | cons a rest ih =>
    rw [List.cons_append, List.takeWhile_cons, List.takeWhile_cons]
    split
    · rename_i hne
      rw [ih ((List.mem_cons.1 h).resolve_left fun heq => by simp [heq] at hne)]
    · rfl

theorem takeWhile_append_self (hs : s ∉ done) : (done ++ [s]).takeWhile (· ≠ s) = done := by
  rw [List.takeWhile_append_of_pos]
  · simp
  · intro t ht
    simp only [ne_eq, decide_eq_true_eq]
    rintro rfl
    exact hs ht

/-! ### One scan more -/

section Step

variable {u : Survey} {t : Species}

theorem not_contains (h : Settled read l v done w) (hs : s ∉ done) (id : Identity) :
    w.graph.contains s id = false := by
  rw [Bool.eq_false_iff]
  exact fun hin => hs ((h.known s id).1 hin).1

theorem contains_scanned (h : Settled read l v done w) (hs : s ∉ done)
    (hscan : Scanned read s w.processes.pids w w₁) :
    w₁.graph.contains s id = true ↔ ∃ pid ∈ w.processes.pids, read pid s = some id := by
  rw [hscan.known, h.not_contains hs]
  simp

theorem get?_scanned (hscan : Scanned read s w.processes.pids w w₁) (ht : t ≠ s) :
    w₁.graph.get? t id = w.graph.get? t id := by
  unfold Graph.get?
  rw [hscan.others t ht]

/-- The processes that a scan cannot read are those that are lost in it, except for time
namespaces. -/
theorem lost_eq (h : Settled read l v done w) (hl : ∀ p ∈ l, p.Unlinked) :
    (if s = .time then [] else w.processes.pids.filter fun pid => (read pid s).isNone) =
      lostIn read done s (ofList l).pids := by
  rw [h.processes_eq, pids_survivors hl]
  unfold lostIn
  by_cases htime : s = .time
  · rw [if_pos htime]
    exact (List.filter_eq_nil_iff.2 fun pid _ => by simp [htime]).symm
  · rw [if_neg htime]
    refine List.filter_congr fun pid _ => ?_
    simp [htime]

theorem resettled (h : Settled read l v done w) (hl : ∀ p ∈ l, p.Unlinked)
    (hscan : Scanned read s w.processes.pids w w₁) :
    Resettled s (lostIn read done s (ofList l).pids) w₁
      (w₁.settled s (w.processes.pids.filter fun pid => (read pid s).isNone)) := by
  rw [← h.lost_eq hl]
  refine Resettled.settled (List.Nodup.filter _ (Registry.nodup_keys _)) fun pid hpid => ?_
  obtain ⟨p, hp⟩ := ProcessTable.mem_pids_iff.1 (List.mem_filter.1 hpid).1
  change (w₁.processes.get? pid).isSome = true
  rw [hscan.table, hp]
  rfl

theorem processes_step (h : Settled read l v done w) (hl : ∀ p ∈ l, p.Unlinked) (hs : s ∉ done)
    (hscan : Scanned read s w.processes.pids w w₁)
    (hset : Resettled s (lostIn read done s (ofList l).pids) w₁ u) :
    u.processes = ofList (survivors read (done ++ [s]) l) := by
  obtain ⟨g, rfl⟩ := hset.rest
  exact processes_without_lost hl (processes_scanned hl hs h.processes_eq hscan)

theorem procfs_step (h : Settled read l v done w) (hscan : Scanned read s w.processes.pids w w₁)
    (hset : Resettled s (lostIn read done s (ofList l).pids) w₁ u) :
    u.options.procfs = v.options.procfs := by
  obtain ⟨_, rfl⟩ := hset.rest
  obtain ⟨_, _, rfl⟩ := hscan.rest
  obtain ⟨_, rfl⟩ := h.rest
  rfl

theorem rest_step (h : Settled read l v done w) (hl : ∀ p ∈ l, p.Unlinked)
    (hv : v.processes = ofList l) (hs : s ∉ done)
    (hscan : Scanned read s w.processes.pids w w₁)
    (hset : Resettled s (lostIn read done s (ofList l).pids) w₁ u) :
    ∃ g, u = { v with
      graph := g
      processes := ofList (survivors read (done ++ [s]) l)
      diagnostics := { v.diagnostics with
        skippedProcesses := v.diagnostics.skippedProcesses +
          (v.processes.pids.filter fun pid => !readable read (done ++ [s]) pid).length } } := by
  have hprocesses := h.processes_step hl hs hscan hset
  obtain ⟨g, rfl⟩ := hset.rest
  obtain ⟨_, _, rfl⟩ := hscan.rest
  obtain ⟨_, rfl⟩ := h.rest
  refine ⟨g, ?_⟩
  rw [← hprocesses, ← length_lost, ← Nat.add_assoc, hv]
  rfl

theorem known_step (h : Settled read l v done w) (hl : ∀ p ∈ l, p.Unlinked)
    (hv : v.processes = ofList l) (hs : s ∉ done)
    (hscan : Scanned read s w.processes.pids w w₁)
    (hset : Resettled s (lostIn read done s (ofList l).pids) w₁ u) :
    u.graph.contains t id = true ↔ t ∈ done ++ [s] ∧ ∃ pid ∈ v.processes.pids,
      readable read ((done ++ [s]).takeWhile (· ≠ t)) pid = true ∧ read pid t = some id := by
  rw [hset.contains]
  by_cases ht : t = s
  · subst ht
    rw [h.contains_scanned hs hscan, takeWhile_append_self hs]
    simp [h.mem_pids_iff hl hv, and_assoc]
  · have hsame : w₁.graph.contains t id = w.graph.contains t id := by
      unfold Graph.contains
      rw [hscan.others t ht]
    rw [hsame, h.known]
    constructor
    · rintro ⟨hdone, hread⟩
      rw [takeWhile_append_of_mem hdone]
      exact ⟨List.mem_append_left _ hdone, hread⟩
    · rintro ⟨hdone, hread⟩
      have hdone' : t ∈ done := by simpa [ht] using hdone
      rw [takeWhile_append_of_mem hdone'] at hread
      exact ⟨hdone', hread⟩

/-- Where no process is lost, the processes are those before, with what was read of them. -/
theorem processes_of_none_lost {lost : List Pid} (h : Settled read l v done w)
    (hl : ∀ p ∈ l, p.Unlinked) (hs : s ∉ done) (hscan : Scanned read s w.processes.pids w w₁)
    (hset : Resettled s lost w₁ u) (hnone : lost = []) :
    u.processes = ⟨w.processes.registry.mapWithKey fun _ p =>
      p.mapJoined fun pid b => b.set s (read pid s)⟩ := by
  have hsame : u.processes = w₁.processes := by
    obtain ⟨g, rfl⟩ := hset.rest
    rw [hnone]
    rfl
  rw [hsame, processes_scanned hl hs h.processes_eq hscan,
    ← mapJoined_ofList (unlinked_survivors hl), ← h.processes_eq]

theorem led_step (h : Settled read l v done w) (hl : ∀ p ∈ l, p.Unlinked)
    (hac : Acyclic (ofList l).up) (hs : s ∉ done)
    (hscan : Scanned read s w.processes.pids w w₁)
    (hset : Resettled s (lostIn read done s (ofList l).pids) w₁ u) {n : Namespace}
    (hn : u.graph.get? t id = some n) : n.Led u.processes v.options.procfs t id := by
  have hprocesses := h.processes_step hl hs hscan hset
  obtain ⟨m, hm, rfl | ⟨hts, hnone, rfl⟩⟩ := hset.of_get? hn
  · rw [hprocesses, h.procfs_step hscan hset]
    exact Namespace.led_elect (sound_ofList (unlinked_survivors hl)) (acyclic_survivors hl hac)
  · rw [get?_scanned hscan hts] at hm
    rw [h.processes_of_none_lost hl hs hscan hset hnone]
    exact (h.led t id n hm).mapJoined fun pid b => BySpecies.get_set_of_ne _ _ hts

theorem kind_step (h : Settled read l v done w) (hscan : Scanned read s w.processes.pids w w₁)
    (hset : Resettled s (lostIn read done s (ofList l).pids) w₁ u) {n : Namespace}
    (hn : u.graph.get? t id = some n) : n.kind = .ofSpecies t := by
  have hkind : ∀ m, w₁.graph.get? t id = some m → m.kind = .ofSpecies t := by
    intro m hm
    by_cases ht : t = s
    · subst ht
      rcases hscan.kinds id m hm with hkind | ⟨m', hm', hkind⟩
      · exact hkind
      · rw [hkind]
        exact h.kind t id m' hm'
    · rw [get?_scanned hscan ht] at hm
      exact h.kind t id m hm
  obtain ⟨m, hm, rfl | ⟨_, _, rfl⟩⟩ := hset.of_get? hn
  · rw [Namespace.kind_elect]
    exact hkind m hm
  · exact hkind n hm

theorem reference_step (h : Settled read l v done w) (hl : ∀ p ∈ l, p.Unlinked)
    (hv : v.processes = ofList l) (hac : Acyclic (ofList l).up) (hs : s ∉ done)
    (hscan : Scanned read s w.processes.pids w w₁)
    (hset : Resettled s (lostIn read done s (ofList l).pids) w₁ u) {n : Namespace}
    (hn : u.graph.get? t id = some n) :
    ∃ pid ∈ v.processes.pids, read pid t = some id ∧
      n.reference = .single (Path.ofNamespace v.options.procfs pid t) := by
  obtain ⟨m, hm, rfl | ⟨hts, _, rfl⟩⟩ := hset.of_get? hn
  · rw [h.processes_step hl hs hscan hset, h.procfs_step hscan hset]
    by_cases ht : t = s
    · -- The process that the namespace was read of is left, so there is a leader.
      subst ht
      rcases reference_of_election hl hac (List.mem_append_right done List.mem_cons_self)
        v.options.procfs id m with hreference | ⟨hnone, _⟩
      · rwa [hv]
      · obtain ⟨pid, hpid, hread⟩ :=
          (h.contains_scanned hs hscan).1 (Graph.contains_iff.2 ⟨m, hm⟩)
        obtain ⟨hin, hbefore⟩ := (h.mem_pids_iff hl hv).1 hpid
        refine absurd hread (hnone pid ?_)
        rw [pids_survivors hl, List.mem_filter, ← hv]
        refine ⟨hin, ?_⟩
        rw [readable_append, hbefore, hread]
        simp
    · rw [get?_scanned hscan ht] at hm
      have hdone := ((h.known t id).1 (Graph.contains_iff.2 ⟨m, hm⟩)).1
      rcases reference_of_election hl hac (List.mem_append_left [s] hdone) v.options.procfs id m
        with hreference | ⟨_, hreference⟩
      · rwa [hv]
      · rw [hreference]
        exact h.reference t id m hm
  · rw [get?_scanned hscan hts] at hm
    exact h.reference t id n hm

/-- One scan more, and what it leaves settled. -/
theorem step (h : Settled read l v done w) (hl : ∀ p ∈ l, p.Unlinked) (hv : v.processes = ofList l)
    (hac : Acyclic (ofList l).up) (hs : s ∉ done)
    (hscan : Scanned read s w.processes.pids w w₁) :
    Settled read l v (done ++ [s])
      (w₁.settled s (w.processes.pids.filter fun pid => (read pid s).isNone)) := by
  have hset := h.resettled hl hscan
  constructor
  · exact h.rest_step hl hv hs hscan hset
  · intro t id
    exact h.known_step hl hv hs hscan hset
  · intro t id n hn
    exact h.led_step hl hac hs hscan hset hn
  · intro t id n hn
    exact h.kind_step hscan hset hn
  · intro t id n hn
    exact h.reference_step hl hv hac hs hscan hset hn

end Step

end Settled

/-! ## All scans -/

section Scans

variable {σ φ : Type} {k : Kernel σ φ} {stands : φ → Identity → Prop} {v w : Survey}

theorem ends_findJoined (hl : ∀ p ∈ l, p.Unlinked) (hv : v.processes = ofList l)
    (hac : Acyclic (ofList l).up) (hlimit : v.options.limit = none) (hs : s ∉ done)
    (hread : ∀ pid ∈ v.processes.pids, k.Reads stands v.options.procfs read pid s)
    (h : Settled read l v done w) (st : σ) :
    Ends (k.findJoined s) ⟨st, w⟩ fun outcome r =>
      outcome = .ok () ∧ Settled read l v (done ++ [s]) r.survey := by
  have hoptions := h.options_eq
  have hread' : ∀ pid ∈ w.processes.pids, k.Reads stands v.options.procfs read pid s :=
    fun pid hpid => hread pid ((h.mem_pids_iff hl hv).1 hpid).1
  unfold Kernel.findJoined
  rw [ends_bind, ends_survey, andThen_ok, ends_bind]
  refine (Ends.of_no_limit (by rw [hoptions, hlimit])
    (ends_readAllJoined w.processes.pids hread' st w (by rw [hoptions]))).mono ?_
  rintro _ r ⟨_, rfl, rfl, hscan⟩
  exact ⟨rfl, h.step hl hv hac hs hscan⟩

end Scans

/-- Whatever tree the processes make, and whichever of their namespaces cannot be read: the
processes that are left are those that can be read for every species in scope, with what was
read of them, and the others are counted. The namespaces are those that were read before a
process was lost. Their leaders are the processes that are left, have joined them, and have no
parent that has; and they are addressed by way of the leader that started first. -/
theorem the_scans_leave_what_can_be_read {σ φ : Type} (k : Kernel σ φ)
    (stands : φ → Identity → Prop) (read : Pid → Species → Option Identity) (l : List Process)
    (v : Survey) (st : σ) (hl : ∀ p ∈ l, p.Fresh) (hac : Acyclic (ofList l).up)
    (hprocesses : v.processes = ofList l) (hgraph : v.graph = .empty)
    (hlimit : v.options.limit = none)
    (hread : ∀ pid ∈ v.processes.pids, ∀ s ∈ v.options.ordered,
      k.Reads stands v.options.procfs read pid s) :
    ∃ r, (v.options.ordered.forM k.findJoined).run ⟨st, v⟩ = (.ok (), r) ∧
      let order := v.options.ordered
      let t := r.survey.processes
      t = ofList (survivors read order l) ∧
      r.survey.diagnostics.skippedProcesses = v.diagnostics.skippedProcesses +
        (v.processes.pids.filter fun pid => !readable read order pid).length ∧
      (∀ s id, r.survey.graph.contains s id = true ↔ s ∈ order ∧ ∃ pid ∈ v.processes.pids,
        readable read (order.takeWhile (· ≠ s)) pid = true ∧ read pid s = some id) ∧
      ∀ s id n, r.survey.graph.get? s id = some n →
        n.leaders.Nodup ∧ (∀ pid, pid ∈ n.leaders ↔ t.Leads s id pid) ∧
        (∀ p, n.ealdorman? t = some p →
          n.reference = .single (Path.ofNamespace v.options.procfs p.pid s)) ∧
        ∃ pid ∈ v.processes.pids, read pid s = some id ∧
          n.reference = .single (Path.ofNamespace v.options.procfs pid s) := by
  have hunlinked : ∀ p ∈ l, p.Unlinked := fun p hp => (hl p hp).1
  obtain ⟨hok, h⟩ := ends_forM (fun done (r : Run σ) => Settled read l v done r.survey)
    (f := k.findJoined) (t := ⟨st, v⟩) v.options.ordered
    (fun done s rest r hordered h => by
      have hs : s ∈ v.options.ordered := by simp [hordered]
      have hnodup := nodup_ordered v.options
      rw [hordered, List.nodup_append] at hnodup
      have hnew : s ∉ done := fun hin => hnodup.2.2 s hin s List.mem_cons_self rfl
      exact ends_findJoined hunlinked hprocesses hac hlimit hnew
        (fun pid hpid => hread pid hpid s hs) h r.kernel)
    (Settled.start hl hprocesses hgraph)
  refine ⟨((v.options.ordered.forM k.findJoined).run ⟨st, v⟩).2, Prod.ext hok rfl,
    h.processes_eq, ?_, h.known, fun s id n hn => ?_⟩
  · obtain ⟨g, hw⟩ := h.rest
    rw [hw]
  · have hled := h.led s id n hn
    exact ⟨hled.nodup, hled.mem_leaders, hled.reference, h.reference s id n hn⟩

/-- Of three processes the last cannot be read for one of two species. -/
theorem the_scans_lose_a_process :
    let l : List Process := [
      { pid := ⟨1⟩, parentPid := ⟨0⟩, name := "init", started := 1 },
      { pid := ⟨7⟩, parentPid := ⟨1⟩, name := "sh", started := 9 },
      { pid := ⟨8⟩, parentPid := ⟨7⟩, name := "ps", started := 11 }]
    let v : Survey := { options := { species := .ofList [.user, .pid] }, processes := ofList l }
    ∃ r, (v.options.ordered.forM Tableau.nested.kernel.findJoined).run ⟨(), v⟩ = (.ok (), r) ∧
      r.survey.processes.pids = [⟨1⟩, ⟨7⟩] ∧ r.survey.diagnostics.skippedProcesses = 1 ∧
      ∀ n, r.survey.graph.get? .user ⟨4, 3⟩ = some n → ⟨7⟩ ∈ n.leaders := by
  intro l v
  have hac : Acyclic (ofList l).up := by
    refine acyclic_of_rank (fun pid => pid.number.toInt.toNat) fun a b hab => ?_
    have hunlinked : ∀ p ∈ l, p.Unlinked := by simp [l, Process.Unlinked]
    rw [up_ofList hunlinked] at hab
    obtain ⟨p, hp, hparent⟩ := Option.bind_eq_some_iff.1 hab
    obtain ⟨hmem, rfl⟩ := mem_of_get?_register hp
    obtain ⟨_, _, rfl⟩ := linkedParent?_eq_some.1 hparent
    revert p
    decide
  obtain ⟨r, hrun, hprocesses, hskipped, _, hnodes⟩ :=
    the_scans_leave_what_can_be_read Tableau.nested.kernel Eq
      (Tableau.nested.joined Path.proc) l v () (by simp [l, Process.Fresh, Process.Unlinked])
      hac rfl rfl rfl fun pid _ s _ => Tableau.nested.reads Path.proc pid s
  refine ⟨r, hrun, ?_, ?_, fun n hn => ?_⟩
  · rw [hprocesses]
    decide +kernel
  · rw [hskipped]
    decide +kernel
  · refine ((hnodes _ _ n hn).2.1 _).2 ?_
    rw [hprocesses]
    let left := ofList (survivors (Tableau.nested.joined Path.proc) v.options.ordered l)
    refine ⟨(left.get? ⟨7⟩).get (by decide +kernel), ?_, ?_, ?_⟩
    · exact (Option.some_get _).symm
    · decide +kernel
    · decide +kernel

end NamespaceAtlas
