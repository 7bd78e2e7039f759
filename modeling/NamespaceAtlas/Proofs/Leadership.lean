-- Leaders. An election makes leaders of exactly those processes of a namespace
-- whose parent has not joined it or is gone, each of them once. The namespace
-- is then addressed by way of the one that started first.
import NamespaceAtlas.Leadership
import NamespaceAtlas.Graph.Lookup
import NamespaceAtlas.Proofs.Identity
import NamespaceAtlas.Proofs.ProcessTable

namespace NamespaceAtlas

namespace ProcessTable

/-- A process leads in a namespace that it has joined if its parent has not joined it too. -/
def Leads (t : ProcessTable) (s : Species) (id : Identity) (pid : Pid) : Prop :=
  ∃ p, t.get? pid = some p ∧ p.joined.get s = some id ∧
    ∀ q, t.parentOf? p = some q → q.joined.get s ≠ some id

variable {t : ProcessTable} {s : Species} {id : Identity} {pid : Pid} {p : Process}

theorem mem_toList_iff (ht : t.Sound) : p ∈ t.toList ↔ t.get? p.pid = some p := by
  unfold toList
  rw [Registry.mem_values_iff]
  constructor
  · rintro ⟨x, hx⟩
    have hpid := ht.filed x p hx
    rwa [hpid]
  · exact fun hp => ⟨_, hp⟩

/-! ## Going up -/

/-- Going up from a process that has joined a namespace leads to a leader. -/
theorem leads_of_way (ht : t.Sound) {way : List Pid} (hway : Way t.up pid way) :
    ∀ steps p, way.length ≤ steps → t.get? pid = some p → p.joined.get s = some id →
      t.Leads s id (t.topFrom s id steps p).pid := by
  induction hway with
  | @top pid hup =>
    intro steps p _ hp hjoined
    have hnone : t.parentOf? p = none := by
      unfold up at hup
      rw [hp, Option.bind_some] at hup
      unfold parentOf?
      rw [hup]
      rfl
    have htop : t.topFrom s id steps p = p := by
      cases steps with
      | zero => rfl
      | succ n =>
        unfold topFrom
        rw [hnone]
    rw [htop, ht.filed pid p hp]
    refine ⟨p, hp, hjoined, fun q hq => ?_⟩
    rw [hnone] at hq
    cases hq
  | @step pid parent way hup _ ih =>
    intro steps p hsteps hp hjoined
    obtain ⟨n, rfl⟩ := Nat.exists_eq_succ_of_ne_zero (Nat.ne_of_gt (Nat.zero_lt_of_lt hsteps))
    unfold up at hup
    rw [hp, Option.bind_some] at hup
    obtain ⟨q, hq⟩ := ht.parent_known pid p parent hp hup
    have hparent : t.parentOf? p = some q := by
      unfold parentOf?
      rw [hup, Option.bind_some, hq]
    unfold topFrom
    rw [hparent]
    dsimp only
    split
    · rename_i hqjoined
      simp only [List.length_cons] at hsteps
      exact ih n q (by omega) hq hqjoined
    · rename_i hqjoined
      rw [ht.filed pid p hp]
      refine ⟨p, hp, hjoined, fun q' hq' => ?_⟩
      rw [hparent] at hq'
      cases hq'
      exact hqjoined

theorem leads_topFrom (ht : t.Sound) (hac : Acyclic t.up) (hp : t.get? pid = some p)
    (hjoined : p.joined.get s = some id) : t.Leads s id (t.topFrom s id t.size p).pid := by
  obtain ⟨way, hway⟩ := hac.exists_way pid
  refine leads_of_way ht hway _ p ?_ hp hjoined
  have hlength : way.length < t.pids.length := by
    refine hway.length_lt fun x hx => Registry.mem_keys_iff.2 (Registry.contains_iff.2 ?_)
    rcases List.mem_cons.1 hx with rfl | hx
    · exact ⟨p, hp⟩
    · refine hway.forall_mem (P := fun x => ∃ q, t.get? x = some q) (fun a b hab => ?_) x hx
      obtain ⟨q, hq, hparent⟩ := Option.bind_eq_some_iff.1 hab
      exact ht.parent_known a q b hq hparent
  unfold pids at hlength
  rw [Registry.length_keys] at hlength
  exact Nat.le_of_lt hlength

/-- However far one goes up, one does not leave the namespace. -/
theorem joined_topFrom (ht : t.Linked) (steps : Nat) :
    ∀ pid p, t.get? pid = some p → p.joined.get s = some id →
      ∃ q, t.get? (t.topFrom s id steps p).pid = some q ∧ q.joined.get s = some id := by
  induction steps with
  | zero =>
    intro pid p hp hjoined
    exact ⟨p, (ht.filed hp).symm ▸ hp, hjoined⟩
  | succ steps ih =>
    intro pid p hp hjoined
    unfold topFrom
    cases hparent : t.parentOf? p with
    | none => exact ⟨p, (ht.filed hp).symm ▸ hp, hjoined⟩
    | some q =>
      dsimp only
      split
      · rename_i hq
        obtain ⟨x, _, hx⟩ := Option.bind_eq_some_iff.1 hparent
        exact ih x q hx hq
      · exact ⟨p, (ht.filed hp).symm ▸ hp, hjoined⟩

/-- From a leader there is no going up. -/
theorem topFrom_of_no_parent (h : ∀ q, t.parentOf? p = some q → q.joined.get s ≠ some id)
    (steps : Nat) : t.topFrom s id steps p = p := by
  cases steps with
  | zero => rfl
  | succ n =>
    unfold topFrom
    cases hq : t.parentOf? p with
    | none => rfl
    | some q => simp [h q hq]

end ProcessTable

/-! ## One namespace -/

namespace Namespace

variable (t : ProcessTable) (procfs : Path) (s : Species) (id : Identity) (n : Namespace)

/-- Adds the leader to which one process leads. -/
def promote (n : Namespace) (p : Process) : Namespace :=
  if p.joined.get s = some id then n.addLeader (t.topFrom s id t.size p).pid else n

/-- Has the namespace addressed by way of its ealdorman, if it has one. -/
def addressed (n : Namespace) : Namespace :=
  match n.ealdorman? t with
  | some p => n.setReference (.single (Path.ofNamespace procfs p.pid s))
  | none => n

/-- The namespace after an election. -/
def elect (n : Namespace) : Namespace :=
  (t.toList.foldl (promote t s id) n.clearLeaders).addressed t procfs s

/-- What an election leaves: the leaders, and the ealdorman's file as the reference. -/
structure Led (n : Namespace) : Prop where
  nodup : n.leaders.Nodup
  mem_leaders : ∀ pid, pid ∈ n.leaders ↔ t.Leads s id pid
  reference : ∀ p, n.ealdorman? t = some p →
    n.reference = .single (Path.ofNamespace procfs p.pid s)

variable {t procfs s id n}

theorem mem_addLeader {pid x : Pid} : x ∈ (n.addLeader pid).leaders ↔ x ∈ n.leaders ∨ x = pid := by
  unfold addLeader
  split
  · rename_i hin
    constructor
    · exact Or.inl
    · rintro (hx | rfl)
      · exact hx
      · exact hin
  · simp

theorem nodup_addLeader {pid : Pid} (h : n.leaders.Nodup) : (n.addLeader pid).leaders.Nodup := by
  unfold addLeader
  split
  · exact h
  · rename_i hnew
    rw [List.nodup_append]
    refine ⟨h, List.nodup_singleton pid, fun a ha b hb => ?_⟩
    rw [List.mem_singleton.1 hb]
    rintro rfl
    exact hnew ha

theorem addLeader_eq (pid : Pid) :
    n.addLeader pid = { n with leaders := (n.addLeader pid).leaders } := by
  unfold addLeader
  split
  · rfl
  · rfl

section Promotions

variable (t s id)

/-- Promotions change nothing but the leaders. -/
theorem foldl_promote_eq (l : List Process) : ∀ n : Namespace,
    l.foldl (promote t s id) n = { n with leaders := (l.foldl (promote t s id) n).leaders } := by
  induction l with
  | nil => exact fun _ => rfl
  | cons p rest ih =>
    intro n
    rw [List.foldl_cons]
    refine (ih _).trans ?_
    unfold promote
    split
    · rw [addLeader_eq]
    · rfl

theorem nodup_foldl_promote (l : List Process) : ∀ n : Namespace, n.leaders.Nodup →
    (l.foldl (promote t s id) n).leaders.Nodup := by
  induction l with
  | nil => exact fun _ h => h
  | cons p rest ih =>
    intro n hn
    apply ih
    unfold promote
    split
    · exact nodup_addLeader hn
    · exact hn

/-- The leaders after promotions are those before and the ones that the processes lead to. -/
theorem mem_foldl_promote {pid : Pid} (l : List Process) : ∀ n : Namespace,
    pid ∈ (l.foldl (promote t s id) n).leaders ↔ pid ∈ n.leaders ∨
      ∃ p ∈ l, p.joined.get s = some id ∧ (t.topFrom s id t.size p).pid = pid := by
  induction l with
  | nil => simp
  | cons p rest ih =>
    intro n
    rw [List.foldl_cons, ih]
    unfold promote
    split
    · rename_i hp
      rw [mem_addLeader]
      simp [hp, or_assoc, eq_comm]
    · rename_i hp
      simp [hp]

end Promotions

/-! ### Ealdormen -/

theorem foldl_earlier_mem (l : List Process) (p : Process) : l.foldl earlier p ∈ p :: l := by
  induction l generalizing p with
  | nil => simp
  | cons q rest ih =>
    rw [List.foldl_cons]
    rcases List.mem_cons.1 (ih (earlier p q)) with h | h
    · rw [h]
      unfold earlier
      split
      · simp
      · simp
    · simp [h]

/-- The ealdorman is a leader that the table holds. -/
theorem ealdorman_leads {p : Process} (h : n.ealdorman? t = some p) :
    ∃ pid ∈ n.leaders, t.get? pid = some p := by
  unfold ealdorman? at h
  cases hl : n.leaders.filterMap t.get? with
  | nil =>
    rw [hl] at h
    cases h
  | cons q rest =>
    rw [hl] at h
    cases h
    have hmem := foldl_earlier_mem rest q
    rw [← hl, List.mem_filterMap] at hmem
    exact hmem

theorem exists_ealdorman {pid : Pid} {p : Process} (hpid : pid ∈ n.leaders)
    (hp : t.get? pid = some p) : ∃ q, n.ealdorman? t = some q := by
  have hmem : p ∈ n.leaders.filterMap t.get? := List.mem_filterMap.2 ⟨pid, hpid, hp⟩
  unfold ealdorman?
  cases hl : n.leaders.filterMap t.get? with
  | nil => simp [hl] at hmem
  | cons q rest => exact ⟨_, rfl⟩

/-- Which leader is the ealdorman depends on the numbers of the processes and on when they started,
and on nothing else. -/
theorem pid_ealdorman {t' : ProcessTable}
    (h : ∀ pid, (t'.get? pid).map (fun p => (p.pid, p.started)) =
      (t.get? pid).map fun p => (p.pid, p.started)) :
    (n.ealdorman? t').map (·.pid) = (n.ealdorman? t).map (·.pid) := by
  have hleaders : (n.leaders.filterMap t'.get?).map (fun p => (p.pid, p.started)) =
      (n.leaders.filterMap t.get?).map fun p => (p.pid, p.started) := by
    rw [List.map_filterMap, List.map_filterMap]
    exact List.filterMap_congr fun pid _ => h pid
  have hfold : ∀ (l' l : List Process) p' p,
      l'.map (fun p => (p.pid, p.started)) = l.map (fun p => (p.pid, p.started)) →
      (p'.pid, p'.started) = (p.pid, p.started) →
      (l'.foldl earlier p').pid = (l.foldl earlier p).pid := by
    intro l'
    induction l' with
    | nil =>
      intro l p' p hl hp
      rw [List.map_eq_nil_iff.1 hl.symm]
      exact congrArg Prod.fst hp
    | cons q' rest' ih =>
      intro l p' p hl hp
      obtain ⟨q, rest, rfl⟩ := List.exists_cons_of_ne_nil (l := l) (by rintro rfl; cases hl)
      rw [List.map_cons, List.map_cons, List.cons.injEq] at hl
      refine ih rest _ _ hl.2 ?_
      obtain ⟨hqpid, hqstarted⟩ := Prod.mk.inj hl.1
      obtain ⟨hppid, hpstarted⟩ := Prod.mk.inj hp
      unfold earlier
      rw [hqstarted, hpstarted]
      split
      · exact hl.1
      · exact hp
  unfold ealdorman?
  cases hl' : n.leaders.filterMap t'.get? with
  | nil =>
    rw [hl'] at hleaders
    rw [List.map_eq_nil_iff.1 hleaders.symm]
  | cons p' rest' =>
    rw [hl'] at hleaders
    cases hl : n.leaders.filterMap t.get? with
    | nil =>
      rw [hl] at hleaders
      cases hleaders
    | cons p rest =>
      rw [hl, List.map_cons, List.map_cons, List.cons.injEq] at hleaders
      exact congrArg some (hfold rest' rest p' p hleaders.2 hleaders.1)

/-! ### Elections -/

theorem leaders_addressed : (n.addressed t procfs s).leaders = n.leaders := by
  unfold addressed
  split
  · rfl
  · rfl

theorem ealdorman_addressed (t' : ProcessTable) :
    (n.addressed t procfs s).ealdorman? t' = n.ealdorman? t' := by
  unfold ealdorman?
  rw [leaders_addressed]

/-- A namespace that has an ealdorman after an election is addressed by way of it. -/
theorem reference_of_ealdorman {p : Process}
    (hp : (n.elect t procfs s id).ealdorman? t = some p) :
    (n.elect t procfs s id).reference = .single (Path.ofNamespace procfs p.pid s) := by
  unfold elect at hp ⊢
  rw [ealdorman_addressed] at hp
  unfold addressed
  rw [hp]
  rfl

theorem led_elect (ht : t.Sound) (hac : Acyclic t.up) :
    (n.elect t procfs s id).Led t procfs s id := by
  unfold elect
  constructor
  · rw [leaders_addressed]
    exact nodup_foldl_promote t s id _ _ List.nodup_nil
  · intro pid
    rw [leaders_addressed, mem_foldl_promote]
    constructor
    · rintro (hpid | ⟨p, hp, hjoined, rfl⟩)
      · simp [clearLeaders] at hpid
      · exact ProcessTable.leads_topFrom ht hac ((ProcessTable.mem_toList_iff ht).1 hp) hjoined
    · rintro ⟨p, hp, hjoined, htop⟩
      have hpid := ht.filed pid p hp
      refine Or.inr ⟨p, (ProcessTable.mem_toList_iff ht).2 (hpid ▸ hp), hjoined, ?_⟩
      rw [ProcessTable.topFrom_of_no_parent htop, hpid]
  · exact fun p hp => reference_of_ealdorman hp

theorem kind_elect : (n.elect t procfs s id).kind = n.kind := by
  have hkind : ∀ m : Namespace, (m.addressed t procfs s).kind = m.kind := by
    intro m
    unfold addressed
    split
    · rfl
    · rfl
  unfold elect
  rw [hkind, foldl_promote_eq]
  rfl

/-- An election changes nothing but the leaders and the reference. -/
theorem elect_eq (t : ProcessTable) (procfs : Path) (s : Species) (id : Identity)
    (n : Namespace) : ∃ leaders reference,
    n.elect t procfs s id = { n with leaders, reference } := by
  unfold elect
  rw [foldl_promote_eq]
  unfold addressed
  split
  · exact ⟨_, _, rfl⟩
  · exact ⟨_, _, rfl⟩

/-- What promotions make of the leaders does not depend on the rest of the namespace. -/
theorem leaders_foldl_promote_congr (l : List Process) : ∀ {m n : Namespace},
    m.leaders = n.leaders →
      (l.foldl (promote t s id) m).leaders = (l.foldl (promote t s id) n).leaders := by
  induction l with
  | nil => exact fun h => h
  | cons p rest ih =>
    intro m n h
    apply ih
    unfold promote addLeader
    rw [h]
    split
    · split
      · exact h
      · rfl
    · exact h

/-- A namespace that has an ealdorman is addressed by way of it once and for all. -/
theorem addressed_elect : (n.elect t procfs s id).addressed t procfs s = n.elect t procfs s id := by
  unfold addressed
  cases hp : (n.elect t procfs s id).ealdorman? t with
  | none => rfl
  | some p =>
    dsimp only [setReference]
    rw [← reference_of_ealdorman hp]

/-- An election that is held again changes nothing. -/
theorem elect_elect : (n.elect t procfs s id).elect t procfs s id = n.elect t procfs s id := by
  have hleaders : (t.toList.foldl (promote t s id) (n.elect t procfs s id).clearLeaders).leaders =
      (n.elect t procfs s id).leaders := by
    unfold elect
    rw [leaders_addressed]
    exact leaders_foldl_promote_congr _ rfl
  have hsame : t.toList.foldl (promote t s id) (n.elect t procfs s id).clearLeaders =
      n.elect t procfs s id := by
    rw [foldl_promote_eq, hleaders]
    rfl
  calc (n.elect t procfs s id).elect t procfs s id
      = (n.elect t procfs s id).addressed t procfs s := congrArg (addressed t procfs s) hsame
    _ = n.elect t procfs s id := addressed_elect

/-- The leaders after an election are processes that have joined the namespace. -/
theorem joined_of_mem_elect (ht : t.Linked) {pid : Pid}
    (h : pid ∈ (n.elect t procfs s id).leaders) :
    ∃ p, t.get? pid = some p ∧ p.joined.get s = some id := by
  unfold elect at h
  rw [leaders_addressed, mem_foldl_promote] at h
  rcases h with h | ⟨p, hp, hjoined, rfl⟩
  · cases h
  · obtain ⟨x, hx⟩ := Registry.mem_values_iff.1 hp
    exact ProcessTable.joined_topFrom ht t.size x p hx hjoined

/-- A namespace with a leader is addressed by way of one; any other keeps its reference. -/
theorem reference_elect (ht : t.Sound) (hac : Acyclic t.up) (procfs : Path) (s : Species)
    (id : Identity) (n : Namespace) :
    (∃ pid, t.Leads s id pid ∧
      (n.elect t procfs s id).reference = .single (Path.ofNamespace procfs pid s)) ∨
    (∀ pid, ¬ t.Leads s id pid) ∧ (n.elect t procfs s id).reference = n.reference := by
  have hled : (n.elect t procfs s id).Led t procfs s id := led_elect ht hac
  cases he : (n.elect t procfs s id).ealdorman? t with
  | some p =>
    obtain ⟨pid, hpid, hp⟩ := ealdorman_leads he
    refine Or.inl ⟨pid, (hled.mem_leaders pid).1 hpid, ?_⟩
    rw [hled.reference p he, ht.filed pid p hp]
  | none =>
    refine Or.inr ⟨fun pid hleads => ?_, ?_⟩
    · have ⟨p, hp, _⟩ := hleads
      obtain ⟨q, hq⟩ := exists_ealdorman ((hled.mem_leaders pid).2 hleads) hp
      rw [he] at hq
      cases hq
    · unfold elect at he ⊢
      rw [ealdorman_addressed] at he
      unfold addressed
      rw [he, foldl_promote_eq]
      rfl

/-! ### Other species -/

section OtherSpecies

variable {f : Pid → BySpecies (Option Identity) → BySpecies (Option Identity)}

theorem get?_mapJoined {pid : Pid} :
    (ProcessTable.mk (t.registry.mapWithKey fun _ p => p.mapJoined f)).get? pid =
      (t.get? pid).map (·.mapJoined f) := Registry.get?_mapWithKey ..

theorem parentOf?_mapJoined (p : Process) :
    (ProcessTable.mk (t.registry.mapWithKey fun _ p => p.mapJoined f)).parentOf? (p.mapJoined f) =
      (t.parentOf? p).map (·.mapJoined f) := by
  unfold ProcessTable.parentOf?
  change p.parent.bind _ = _
  cases p.parent with
  | none => rfl
  | some parent => exact get?_mapJoined

theorem leads_mapJoined (hf : ∀ pid b, (f pid b).get s = b.get s) {pid : Pid} :
    (ProcessTable.mk (t.registry.mapWithKey fun _ p => p.mapJoined f)).Leads s id pid ↔
      t.Leads s id pid := by
  have hjoined : ∀ p : Process, (p.mapJoined f).joined.get s = p.joined.get s :=
    fun p => hf p.pid p.joined
  unfold ProcessTable.Leads
  constructor
  · rintro ⟨p, hp, hid, htop⟩
    rw [get?_mapJoined] at hp
    obtain ⟨q, hq, rfl⟩ := Option.map_eq_some_iff.1 hp
    refine ⟨q, hq, (hjoined q).symm.trans hid, fun m hm => ?_⟩
    rw [← hjoined m]
    refine htop _ ?_
    rw [parentOf?_mapJoined, hm, Option.map_some]
  · rintro ⟨p, hp, hid, htop⟩
    refine ⟨p.mapJoined f, ?_, (hjoined p).trans hid, fun m hm => ?_⟩
    · rw [get?_mapJoined, hp, Option.map_some]
    · rw [parentOf?_mapJoined] at hm
      obtain ⟨q, hq, rfl⟩ := Option.map_eq_some_iff.1 hm
      rw [hjoined q]
      exact htop q hq

theorem pid_ealdorman_mapJoined :
    (n.ealdorman? ⟨t.registry.mapWithKey fun _ p => p.mapJoined f⟩).map (·.pid) =
      (n.ealdorman? t).map (·.pid) := by
  apply pid_ealdorman
  intro pid
  rw [get?_mapJoined, Option.map_map]
  rfl

/-- What an election for one species left stays when processes join namespaces of others. -/
theorem Led.mapJoined (h : n.Led t procfs s id) (hf : ∀ pid b, (f pid b).get s = b.get s) :
    n.Led ⟨t.registry.mapWithKey fun _ p => p.mapJoined f⟩ procfs s id where
  nodup := h.nodup
  mem_leaders pid := by rw [h.mem_leaders, leads_mapJoined hf]
  reference p hp := by
    have hsame : (n.ealdorman? _).map (·.pid) = _ := pid_ealdorman_mapJoined (t := t) (f := f)
    rw [hp] at hsame
    obtain ⟨q, hq, hqpid⟩ := Option.map_eq_some_iff.1 hsame.symm
    have hpid : q.pid = p.pid := hqpid
    rw [← hpid]
    exact h.reference q hq

theorem topFrom_mapJoined (hf : ∀ pid b, (f pid b).get s = b.get s) (steps : Nat) :
    ∀ p : Process,
      (ProcessTable.mk (t.registry.mapWithKey fun _ p => p.mapJoined f)).topFrom s id steps
        (p.mapJoined f) = (t.topFrom s id steps p).mapJoined f := by
  induction steps with
  | zero => exact fun _ => rfl
  | succ steps ih =>
    intro p
    unfold ProcessTable.topFrom
    rw [parentOf?_mapJoined]
    cases t.parentOf? p with
    | none => rfl
    | some q =>
      have hjoined : (q.mapJoined f).joined.get s = q.joined.get s := hf q.pid q.joined
      dsimp only [Option.map_some]
      rw [hjoined]
      split
      · exact ih q
      · rfl

theorem promote_mapJoined (hf : ∀ pid b, (f pid b).get s = b.get s) (p : Process) :
    n.promote ⟨t.registry.mapWithKey fun _ p => p.mapJoined f⟩ s id (p.mapJoined f) =
      n.promote t s id p := by
  have hjoined : (p.mapJoined f).joined.get s = p.joined.get s := hf p.pid p.joined
  have hsize : (ProcessTable.mk (t.registry.mapWithKey fun _ p => p.mapJoined f)).size = t.size :=
    List.length_map ..
  unfold promote
  rw [hjoined, hsize, topFrom_mapJoined hf]
  rfl

theorem addressed_mapJoined :
    n.addressed ⟨t.registry.mapWithKey fun _ p => p.mapJoined f⟩ procfs s =
      n.addressed t procfs s := by
  have hpid : (n.ealdorman? _).map (·.pid) = _ := pid_ealdorman_mapJoined (t := t) (f := f)
  unfold addressed
  cases hp : n.ealdorman? t with
  | none =>
    rw [hp] at hpid
    rw [Option.map_eq_none_iff.1 hpid]
  | some p =>
    rw [hp] at hpid
    obtain ⟨q, hq, hqpid⟩ := Option.map_eq_some_iff.1 hpid
    rw [hq]
    dsimp only
    rw [hqpid]

/-- An election for one species does not depend on what processes have joined of others. -/
theorem elect_mapJoined (hf : ∀ pid b, (f pid b).get s = b.get s) :
    n.elect ⟨t.registry.mapWithKey fun _ p => p.mapJoined f⟩ procfs s id =
      n.elect t procfs s id := by
  have hlist : (ProcessTable.mk (t.registry.mapWithKey fun _ p => p.mapJoined f)).toList =
      t.toList.map (·.mapJoined f) := Registry.values_mapWithKey ..
  unfold elect
  rw [addressed_mapJoined, hlist, List.foldl_map]
  simp only [promote_mapJoined hf]

end OtherSpecies

end Namespace

/-! ## All namespaces of a species -/

namespace Graph

variable (g : Graph) (t : ProcessTable) (procfs : Path) {s u : Species} {id : Identity}

theorem get?_addLeaderOf (p : Process) : (addLeaderOf t s g p).get? u id =
    if s = u then (g.get? u id).map fun n => n.promote t s id p else g.get? u id := by
  unfold addLeaderOf Namespace.promote
  cases hp : p.joined.get s with
  | none => simp
  | some i =>
    dsimp only
    rw [get?_modify]
    by_cases hs : s = u
    · by_cases hi : i = id
      · simp [hs, hi]
      · simp [hs, hi]
    · simp [hs]

theorem get?_withoutLeaders : (g.withoutLeaders s).get? u id =
    if s = u then (g.get? u id).map Namespace.clearLeaders else g.get? u id := by
  unfold withoutLeaders get?
  by_cases hs : s = u
  · subst hs
    rw [ofSpecies_setSpecies, Registry.get?_mapWithKey, if_pos rfl]
  · rw [ofSpecies_setSpecies_of_ne _ _ (Ne.symm hs), if_neg hs]

theorem get?_foldl_addLeaderOf (l : List Process) : ∀ g : Graph,
    (l.foldl (addLeaderOf t s) g).get? u id =
      if s = u then (g.get? u id).map fun n => l.foldl (Namespace.promote t s id) n
      else g.get? u id := by
  induction l with
  | nil =>
    intro g
    simp
  | cons p rest ih =>
    intro g
    rw [List.foldl_cons, ih, get?_addLeaderOf]
    split
    · rw [Option.map_map]
      rfl
    · rfl

/-- In whatever order an election goes through the processes, it changes each namespace of its
species for itself, and no other. -/
theorem get?_foldl_withoutLeaders (l : List Process) :
    (l.foldl (addLeaderOf t s) (g.withoutLeaders s)).get? u id =
      if s = u then (g.get? u id).map fun n =>
        l.foldl (Namespace.promote t s id) n.clearLeaders
      else g.get? u id := by
  rw [get?_foldl_addLeaderOf, get?_withoutLeaders]
  split
  · rw [Option.map_map]
    rfl
  · rfl

theorem get?_electLeaders : (g.electLeaders t s).get? u id =
    if s = u then (g.get? u id).map fun n =>
      t.toList.foldl (Namespace.promote t s id) n.clearLeaders
    else g.get? u id := get?_foldl_withoutLeaders g t t.toList

/-- An election changes each namespace of its species for itself, and no other. -/
theorem get?_election : ((g.electLeaders t s).addressByEaldormen t procfs s).get? u id =
    if s = u then (g.get? u id).map fun n => n.elect t procfs s id else g.get? u id := by
  have haddress : ∀ g : Graph, (g.addressByEaldormen t procfs s).get? u id =
      if s = u then (g.get? u id).map fun n => n.addressed t procfs s else g.get? u id := by
    intro g
    unfold addressByEaldormen get?
    by_cases hs : s = u
    · subst hs
      rw [ofSpecies_setSpecies, Registry.get?_mapWithKey, if_pos rfl]
      rfl
    · rw [ofSpecies_setSpecies_of_ne _ _ (Ne.symm hs), if_neg hs]
  rw [haddress, get?_electLeaders]
  split
  · rw [Option.map_map]
    rfl
  · rfl

end Graph

end NamespaceAtlas
