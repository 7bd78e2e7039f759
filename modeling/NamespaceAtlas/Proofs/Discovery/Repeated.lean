-- Scans that are held again. After the scans of the processes every namespace
-- is known with its owner, every process that is left can be read, and no
-- election would change a leader; so the same scans find nothing to change.
import NamespaceAtlas.Proofs.Discovery.Joined

namespace NamespaceAtlas

open ProcessTable

variable {σ φ : Type}

/-! ## Surveys that are up to date -/

/-- Whenever the kernel is asked for the owner of a namespace of a species, it answers as `owner`
says. -/
def Kernel.ReportsOwners (k : Kernel σ φ) (stands : φ → Identity → Prop) (s : Species)
    (owner : Identity → Option Identity) : Prop :=
  ∀ f id st, stands f id → (k.reportedOwner s f st).1 = owner id

/-- Every namespace is recorded with the owner that is reported of it. -/
def Survey.Owned (owner : Species → Identity → Option Identity) (v : Survey) : Prop :=
  ∀ s id n, v.graph.get? s id = some n → n.ownerId = owner s id

/-- The owners are those that are reported, and an election would leave every namespace as it
is. -/
structure Survey.Current (owner : Species → Identity → Option Identity) (v : Survey) : Prop where
  owned : v.Owned owner
  elected : ∀ s id n, v.graph.get? s id = some n → n.elect v.processes v.options.procfs s id = n

variable {k : Kernel σ φ} {stands : φ → Identity → Prop} {read : Pid → Species → Option Identity}
  {owner : Species → Identity → Option Identity} {l : List Process} {done : List Species}
  {s : Species} {id : Identity} {pid : Pid} {v w w₁ : Survey}

namespace Survey.Owned

theorem sighted (h : v.Owned owner) (s : Species) (id : Identity) (r : Reference) :
    (v.sighted s id r (owner s id)).Owned owner := by
  intro t i n hn
  rw [get?_sighted] at hn
  split at hn
  · obtain ⟨rfl, rfl⟩ := ‹s = t ∧ id = i›
    cases hn
    unfold Namespace.reportedBy
    cases hm : v.graph.get? s id with
    | none => exact Option.or_none
    | some m =>
      dsimp only [Option.getD_some]
      rw [h s id m hm, Option.or_self]
  · exact h t i n hn

/-- A sighting of a namespace whose owner is known already. -/
theorem sighted_known (h : v.Owned owner) (s : Species) (id : Identity) (r : Reference)
    (hknown : v.graph.contains s id = true) : (v.sighted s id r none).Owned owner := by
  obtain ⟨n, hn⟩ := Graph.contains_iff.1 hknown
  rw [sighted_eq_self hn Option.none_or]
  exact h

/-- Reading a process keeps the owners as they are reported. -/
theorem keeps_readJoined {procfs : Path} (hread : k.Reads stands procfs read pid s)
    (howner : k.ReportsOwners stands s (owner s)) :
    Keeps (fun r : Run σ => r.survey.options.procfs = procfs ∧ r.survey.Owned owner)
      (k.readJoined s pid).run := by
  apply Keeps.of_ends
  rintro ⟨st, w⟩ ⟨hprocfs : w.options.procfs = procfs, h : w.Owned owner⟩
  unfold Kernel.readJoined
  rw [ends_bind, ends_survey, andThen_ok, ends_bind, ends_attempt, hprocfs]
  refine Ends.mono (hread st) ?_
  rintro _ st (⟨id, f, rfl, hstands, _⟩ | ⟨⟨why, rfl⟩, _⟩)
  · rw [andThen_ok]
    dsimp only
    cases hknown : (w.graph.get? s id).bind (·.ownerId) with
    | some _ =>
      obtain ⟨n, hn, _⟩ := Option.bind_eq_some_iff.1 hknown
      exact ⟨hprocfs, h.sighted_known s id .empty (Graph.contains_iff.2 ⟨n, hn⟩)⟩
    | none =>
      refine ⟨hprocfs, ?_⟩
      change (w.sighted s id .empty (k.reportedOwner s f st).1).Owned owner
      rw [howner f id st hstands]
      exact h.sighted s id .empty
  · exact ⟨hprocfs, h⟩

end Survey.Owned

/-! ## The first time -/

namespace Survey.Current

theorem start (hgraph : v.graph = .empty) : v.Current owner where
  owned s id n hn := by
    rw [hgraph] at hn
    simp at hn
  elected s id n hn := by
    rw [hgraph] at hn
    simp at hn

/-- After one scan more the survey is up to date again. -/
theorem step (h : w.Current owner) (hw : Settled read l v done w) (hl : ∀ p ∈ l, p.Unlinked)
    (hs : s ∉ done) (hscan : Scanned read s w.processes.pids w w₁) (howned : w₁.Owned owner) :
    (w₁.settled s (w.processes.pids.filter fun pid => (read pid s).isNone)).Current owner := by
  have hset := hw.resettled hl hscan
  constructor
  · intro t id n hn
    obtain ⟨m, hm, rfl | ⟨_, _, rfl⟩⟩ := hset.of_get? hn
    · obtain ⟨leaders, reference, helect⟩ := Namespace.elect_eq _ _ t id m
      rw [helect]
      exact howned t id m hm
    · exact howned t id n hm
  · intro t id n hn
    obtain ⟨m, hm, rfl | ⟨hts, hnone, rfl⟩⟩ := hset.of_get? hn
    · exact Namespace.elect_elect
    · rw [Settled.get?_scanned hscan hts] at hm
      rw [hw.processes_of_none_lost hl hs hscan hset hnone,
        Namespace.elect_mapJoined fun pid b => BySpecies.get_set_of_ne _ _ hts,
        hw.procfs_step hscan hset, ← hw.options_eq]
      exact h.elected t id n hm

end Survey.Current

/-- A scan that does not run out of time leaves the survey settled and up to date. -/
theorem ends_findJoined_current (hl : ∀ p ∈ l, p.Unlinked) (hv : v.processes = ofList l)
    (hac : Acyclic (ofList l).up) (hs : s ∉ done)
    (hread : ∀ pid ∈ v.processes.pids, k.Reads stands v.options.procfs read pid s)
    (howner : k.ReportsOwners stands s (owner s)) (h : Settled read l v done w)
    (hcurrent : w.Current owner) (st : σ) :
    Ends (k.findJoined s) ⟨st, w⟩ (barring (v.options.OutOfTime "processes") fun _ r =>
      Settled read l v (done ++ [s]) r.survey ∧ r.survey.Current owner) := by
  have hread' : ∀ pid ∈ w.processes.pids, k.Reads stands w.options.procfs read pid s := by
    rw [h.options_eq]
    exact fun pid hpid => hread pid ((h.mem_pids_iff hl hv).1 hpid).1
  have howned : Ends (k.readAllJoined s w.processes.pids) ⟨st, w⟩ fun _ r =>
      r.survey.options.procfs = w.options.procfs ∧ r.survey.Owned owner := by
    refine Keeps.readAllJoined
      (Keeps.checkingTime (Q := fun u => u.options.procfs = w.options.procfs ∧ u.Owned owner))
      (fun pid hpid => ?_) ⟨st, w⟩ ⟨rfl, hcurrent.owned⟩
    exact Survey.Owned.keeps_readJoined (hread' pid hpid) howner
  unfold Kernel.findJoined
  rw [ends_bind, ends_survey, andThen_ok, ends_bind]
  refine ((ends_readAllJoined w.processes.pids hread' st w rfl).and howned).mono ?_
  rintro (why | unreadable) r ⟨hscan, hkept⟩
  · rw [← h.options_eq]
    exact hscan
  · obtain ⟨rfl, hscan⟩ := hscan
    exact ⟨h.step hl hv hac hs hscan, hcurrent.step h hl hs hscan hkept.2⟩

/-! ## Once more -/

namespace Survey.Current

theorem withLeaders_eq_self (h : w.Current owner) (s : Species) : w.withLeaders s = w := by
  have hgraph : (w.withLeaders s).graph = w.graph := by
    refine Graph.ext_get? fun t i => ?_
    have helection : (w.withLeaders s).graph.get? t i =
        if s = t then (w.graph.get? t i).map fun n => n.elect w.processes w.options.procfs s i
        else w.graph.get? t i := Graph.get?_election ..
    rw [helection]
    split
    · rename_i hst
      subst hst
      cases hn : w.graph.get? s i with
      | none => rfl
      | some n => exact congrArg some (h.elected s i n hn)
    · rfl
  exact congrArg (fun graph => { w with graph }) hgraph

/-- A process that was read before is read once more, and nothing is new in it. -/
theorem ends_readJoined (h : w.Current owner) (howner : k.ReportsOwners stands s (owner s))
    (hread : k.Reads stands w.options.procfs read pid s)
    (hknown : ∀ id, read pid s = some id → w.graph.contains s id = true)
    (hjoined : ∀ id, read pid s = some id →
      ∃ p, w.processes.get? pid = some p ∧ p.joined.get s = some id) (st : σ) :
    Ends (k.readJoined s pid) ⟨st, w⟩ fun _ r => r.survey = w := by
  unfold Kernel.readJoined
  rw [ends_bind, ends_survey, andThen_ok, ends_bind, ends_attempt]
  refine Ends.mono (hread st) ?_
  rintro _ st (⟨id, f, rfl, hstands, hid⟩ | ⟨⟨why, rfl⟩, _⟩)
  · obtain ⟨n, hn⟩ := Graph.contains_iff.1 (hknown id hid)
    obtain ⟨p, hp, hpjoined⟩ := hjoined id hid
    have hsighted : ∀ reported, reported = none ∨ reported = owner s id →
        (w.sighted s id .empty reported).joinedBy pid s id = w := by
      intro reported hreported
      have hsame : w.sighted s id .empty reported = w := by
        refine sighted_eq_self hn ?_
        rw [h.owned s id n hn]
        rcases hreported with rfl | rfl
        · exact Option.none_or
        · exact Option.or_self
      rw [hsame]
      exact joinedBy_eq_self hp hpjoined
    rw [andThen_ok]
    dsimp only
    cases (w.graph.get? s id).bind (·.ownerId) with
    | some _ => exact hsighted none (Or.inl rfl)
    | none => exact hsighted _ (Or.inr (howner f id st hstands))
  · rfl

end Survey.Current

/-- Where every process could be read there is but one election. -/
theorem settled_of_readable
    (h : ∀ pid ∈ w.processes.pids, s = .time ∨ (read pid s).isSome = true) :
    w.settled s (w.processes.pids.filter fun pid => (read pid s).isNone) = w.withLeaders s := by
  unfold Survey.settled
  by_cases hs : s = .time
  · simp [hs]
  · have hnone : (w.processes.pids.filter fun pid => (read pid s).isNone) = [] := by
      refine List.filter_eq_nil_iff.2 fun pid hpid => ?_
      rw [Option.isNone_iff_eq_none]
      exact Option.isSome_iff_ne_none.1 ((h pid hpid).resolve_left hs)
    simp [hnone]

/-- After the scans for all species of an order, the scan for one of them changes nothing. -/
theorem ends_findJoined_again {order : List Species} (hl : ∀ p ∈ l, p.Unlinked)
    (hv : v.processes = ofList l) (hs : s ∈ order)
    (hread : ∀ pid ∈ v.processes.pids, k.Reads stands v.options.procfs read pid s)
    (howner : k.ReportsOwners stands s (owner s)) (h : Settled read l v order w)
    (hcurrent : w.Current owner) (st : σ) :
    Ends (k.findJoined s) ⟨st, w⟩ fun x r =>
      r.survey = w ∧ barring (v.options.OutOfTime "processes") (fun _ _ => True) x r := by
  have hread' : ∀ pid ∈ w.processes.pids, k.Reads stands w.options.procfs read pid s := by
    rw [h.options_eq]
    exact fun pid hpid => hread pid ((h.mem_pids_iff hl hv).1 hpid).1
  have hreadable : ∀ pid ∈ w.processes.pids, ∀ t ∈ order, t = .time ∨ (read pid t).isSome = true :=
    fun pid hpid => readable_iff.1 ((h.mem_pids_iff hl hv).1 hpid).2
  have hknown : ∀ pid ∈ w.processes.pids, ∀ id, read pid s = some id →
      w.graph.contains s id = true := by
    intro pid hpid id hid
    refine (h.known s id).2 ⟨hs, pid, ((h.mem_pids_iff hl hv).1 hpid).1, readable_iff.2 ?_, hid⟩
    exact fun t ht => hreadable pid hpid t ((List.takeWhile_prefix _).subset ht)
  have hjoined : ∀ pid ∈ w.processes.pids, ∀ id, read pid s = some id →
      ∃ p, w.processes.get? pid = some p ∧ p.joined.get s = some id := by
    intro pid hpid id hid
    obtain ⟨p, hp⟩ := ProcessTable.mem_pids_iff.1 hpid
    refine ⟨p, hp, ?_⟩
    rw [h.processes_eq] at hp
    rw [joined_survivors hl hp]
    unfold joinedIn
    rw [BySpecies.get_ofFun, if_pos hs, hid]
  have hkept : Ends (k.readAllJoined s w.processes.pids) ⟨st, w⟩ fun _ r => r.survey = w := by
    refine Keeps.readAllJoined (Keeps.checkingTime (Q := fun u => u = w)) (fun pid hpid => ?_)
      ⟨st, w⟩ rfl
    apply Keeps.of_ends
    rintro ⟨st, _⟩ rfl
    exact hcurrent.ends_readJoined howner (hread' pid hpid) (hknown pid hpid) (hjoined pid hpid) st
  unfold Kernel.findJoined
  rw [ends_bind, ends_survey, andThen_ok, ends_bind]
  refine ((ends_readAllJoined w.processes.pids hread' st w rfl).and hkept).mono ?_
  rintro (why | unreadable) r ⟨hscan, hsame⟩
  · rw [← h.options_eq]
    exact ⟨hsame, hscan⟩
  · obtain ⟨rfl, _⟩ := hscan
    have hsettled : w.settled s (w.processes.pids.filter fun pid => (read pid s).isNone) = w := by
      rw [settled_of_readable fun pid hpid => hreadable pid hpid s hs]
      exact hcurrent.withLeaders_eq_self s
    refine ⟨?_, trivial⟩
    change r.survey.settled s _ = w
    rw [hsame, hsettled]

/-! ## All scans -/

section Scans

variable {standsIn : Species → φ → Identity → Prop}
  (hread : ∀ pid ∈ v.processes.pids, ∀ s ∈ v.options.ordered,
    k.Reads (standsIn s) v.options.procfs read pid s)
  (howner : ∀ s ∈ v.options.ordered, k.ReportsOwners (standsIn s) s (owner s))
include hread howner

/-- The scans leave everything settled, with the owners that are reported. -/
theorem ends_scans_settled (hl : ∀ p ∈ l, p.Fresh) (hac : Acyclic (ofList l).up)
    (hprocesses : v.processes = ofList l) (hgraph : v.graph = .empty) (st : σ) :
    Ends (v.options.ordered.forM k.findJoined) ⟨st, v⟩
      (barring (v.options.OutOfTime "processes") fun _ r =>
        Settled read l v v.options.ordered r.survey ∧ r.survey.Current owner) := by
  refine ends_forM_barring _ (fun done (r : Run σ) =>
    Settled read l v done r.survey ∧ r.survey.Current owner) v.options.ordered ?_ ⟨?_, ?_⟩
  · intro done s rest r hordered h
    have hs : s ∈ v.options.ordered := by simp [hordered]
    have hnodup := nodup_ordered v.options
    rw [hordered, List.nodup_append] at hnodup
    have hnew : s ∉ done := fun hin => hnodup.2.2 s hin s List.mem_cons_self rfl
    exact ends_findJoined_current (fun p hp => (hl p hp).1) hprocesses hac hnew
      (fun pid hpid => hread pid hpid s hs) (howner s hs) h.1 h.2 r.kernel
  · exact Settled.start hl hprocesses hgraph
  · exact .start hgraph

/-- Where everything is settled they change nothing. -/
theorem ends_scans_again (hl : ∀ p ∈ l, p.Unlinked) (hprocesses : v.processes = ofList l)
    (h : Settled read l v v.options.ordered w) (hcurrent : w.Current owner) (st : σ) :
    Ends (v.options.ordered.forM k.findJoined) ⟨st, w⟩ fun x r =>
      r.survey = w ∧ barring (v.options.OutOfTime "processes") (fun _ _ => True) x r := by
  have hscan : ∀ s ∈ v.options.ordered, ∀ st, Ends (k.findJoined s) ⟨st, w⟩ fun x r =>
      r.survey = w ∧ barring (v.options.OutOfTime "processes") (fun _ _ => True) x r :=
    fun s hs => ends_findJoined_again hl hprocesses hs (fun pid hpid => hread pid hpid s hs)
      (howner s hs) h hcurrent
  -- A scan that ends at its time limit has changed nothing either, so this is no case of the rule
  -- for loops below.
  have hsame : Keeps (fun r : Run σ => r.survey = w) (v.options.ordered.forM k.findJoined).run := by
    refine Keeps.run_forM fun s hs => Keeps.of_ends ?_
    rintro ⟨st, _⟩ rfl
    exact (hscan s hs st).mono fun _ _ h => h.1
  refine Ends.and (hsame ⟨st, w⟩ rfl) ?_
  suffices hends : Ends _ _ (barring _ fun _ (r : Run σ) => r.survey = w) from
    hends.mono fun x _ h => by
      cases x with
      | ok => trivial
      | error => exact h
  refine ends_forM_barring _ (fun _ (r : Run σ) => r.survey = w) v.options.ordered ?_ rfl
  rintro done s rest ⟨st, _⟩ hordered rfl
  refine (hscan s (by simp [hordered]) st).mono ?_
  rintro (why | _) r ⟨hr, hwhy⟩
  · exact hwhy
  · exact hr

end Scans

/-- Where the kernel always reads the same of a process, and reports the same owner of a
namespace, scans that are held again change nothing: neither the namespaces, with their leaders in
order, nor the processes, nor the account. The first scans come through unless the time is up, and
so do the second. -/
theorem scans_held_again_change_nothing {σ φ : Type} (k : Kernel σ φ)
    (stands : Species → φ → Identity → Prop) (read : Pid → Species → Option Identity)
    (owner : Species → Identity → Option Identity) (l : List Process) (v : Survey) (st : σ)
    (hl : ∀ p ∈ l, p.Fresh) (hac : Acyclic (ofList l).up)
    (hprocesses : v.processes = ofList l) (hgraph : v.graph = .empty)
    (hread : ∀ pid ∈ v.processes.pids, ∀ s ∈ v.options.ordered,
      k.Reads (stands s) v.options.procfs read pid s)
    (howner : ∀ s ∈ v.options.ordered, k.ReportsOwners (stands s) s (owner s)) :
    let scans := v.options.ordered.forM k.findJoined
    (v.options.limit = none → ∃ r, scans.run ⟨st, v⟩ = (.ok (), r)) ∧
      ∀ r, scans.run ⟨st, v⟩ = (.ok (), r) → ∀ st',
        (scans.run ⟨st', r.survey⟩).2.survey = r.survey ∧
          ((scans.run ⟨st', r.survey⟩).1 = .ok () ∨
            v.options.limit ≠ none ∧
              (scans.run ⟨st', r.survey⟩).1 = .error (.late "processes")) := by
  intro scans
  have hfirst := ends_scans_settled hread howner hl hac hprocesses hgraph st
  refine ⟨fun hlimit => ?_, fun r hrun st' => ?_⟩
  · obtain ⟨_, hok, _⟩ := hfirst.of_no_limit hlimit
    exact ⟨_, Prod.ext hok rfl⟩
  · rw [ends_iff_run] at hfirst
    obtain ⟨hsettled, hcurrent⟩ := hfirst _ _ hrun
    obtain ⟨hsame, hends⟩ := ends_scans_again hread howner (fun p hp => (hl p hp).1) hprocesses
      hsettled hcurrent st'
    refine ⟨hsame, ?_⟩
    cases hout : (scans.run ⟨st', r.survey⟩).1 with
    | ok => exact Or.inl rfl
    | error why =>
      obtain ⟨hlimit, rfl⟩ : v.options.OutOfTime "processes" why := by
        rw [hout] at hends
        exact hends
      exact Or.inr ⟨hlimit, rfl⟩

/-- Of three processes the last cannot be read for one of two species, and is lost for good the
first time. The owner of a namespace is itself or the outermost one. -/
theorem a_lost_process_is_lost_once :
    let k : Kernel Unit Identity := { Tableau.nested.kernel with
      owner := fun f => return .ok (if f = ⟨4, 3⟩ then f else ⟨4, 1⟩) }
    let l : List Process := [
      { pid := ⟨1⟩, parentPid := ⟨0⟩, name := "init", started := 1 },
      { pid := ⟨7⟩, parentPid := ⟨1⟩, name := "sh", started := 9 },
      { pid := ⟨8⟩, parentPid := ⟨7⟩, name := "ps", started := 11 }]
    let v : Survey := { options := { species := .ofList [.user, .pid] }, processes := ofList l }
    let scans := v.options.ordered.forM k.findJoined
    ∃ r, scans.run ⟨(), v⟩ = (.ok (), r) ∧ r.survey.diagnostics.skippedProcesses = 1 ∧
      (r.survey.graph.get? .pid ⟨4, 3⟩).bind (·.ownerId) = some ⟨4, 3⟩ ∧
      (scans.run r).2.survey = r.survey := by
  intro k l v scans
  let owner (s : Species) (id : Identity) : Option Identity :=
    if s = .user then none else some (if id = ⟨4, 3⟩ then id else ⟨4, 1⟩)
  have hac : Acyclic (ofList l).up :=
    acyclic_ofList_of_rank (by simp [l, Process.Unlinked]) (fun pid => pid.toInt.toNat) (by decide)
  obtain ⟨hruns, hagain⟩ := scans_held_again_change_nothing k (fun _ => Eq)
    (Tableau.nested.joined Path.proc) owner l v () (by simp [l, Process.Fresh, Process.Unlinked])
    hac rfl rfl (fun pid _ s _ => Tableau.nested.reads Path.proc pid s) (by
      rintro s - f id st rfl
      cases s <;> rfl)
  obtain ⟨r, hrun⟩ := hruns rfl
  have hr : (scans.run ⟨(), v⟩).2 = r := congrArg Prod.snd hrun
  refine ⟨r, hrun, ?_, ?_, (hagain r hrun r.kernel).1⟩
  · rw [← hr]
    decide +kernel
  · rw [← hr]
    decide +kernel

end NamespaceAtlas
