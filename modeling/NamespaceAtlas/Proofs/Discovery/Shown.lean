-- The scans of the processes leave no hidden namespace behind. While a scan
-- goes on its namespaces have no paths yet; but a process has joined each of
-- them, and so there are leaders for it in the end.
import NamespaceAtlas.Proofs.Discovery.Integrity
import NamespaceAtlas.Proofs.Graph.Hidden

namespace NamespaceAtlas

variable {σ φ : Type} {k : Kernel σ φ} {o : Options} {s t : Species} {id i : Identity}
  {pid : Pid} {bad : List Pid} {v : Survey}

/-! ## Elections -/

/-- After an election a namespace is hidden only if it was before, and no process has joined it. -/
theorem Namespace.hidden_of_elect {n : Namespace} {t : ProcessTable} {procfs : Path}
    (ht : t.Linked) (h : (n.elect t procfs s id).isHidden = true) :
    n.isHidden = true ∧ ∀ pid p, t.get? pid = some p → p.joined.get s ≠ some id := by
  cases hp : (n.elect t procfs s id).ealdorman? t with
  | some p =>
    unfold Namespace.isHidden at h
    rw [Namespace.reference_of_ealdorman hp] at h
    cases h
  | none =>
    constructor
    · unfold Namespace.elect at h hp
      rw [Namespace.ealdorman_addressed] at hp
      unfold Namespace.addressed at h
      rw [hp, Namespace.foldl_promote_eq] at h
      exact h
    · intro pid p hget hjoined
      have hleads : (t.topFrom s id t.size p).pid ∈ (n.elect t procfs s id).leaders := by
        unfold Namespace.elect
        rw [Namespace.leaders_addressed, Namespace.mem_foldl_promote]
        exact Or.inr ⟨p, Registry.mem_values_iff.2 ⟨pid, hget⟩, hjoined, rfl⟩
      obtain ⟨q, hq, _⟩ := ProcessTable.joined_topFrom ht t.size pid p hget hjoined
      obtain ⟨_, hsome⟩ := Namespace.exists_ealdorman hleads hq
      rw [hp] at hsome
      cases hsome

namespace Survey

/-- In the middle of a scan for a species there are hidden namespaces, but of this species only,
and a process that is not in the list has joined each of them. -/
structure Vouched (s : Species) (bad : List Pid) (v : Survey) : Prop where
  others : ∀ t i, t ≠ s → v.graph.hides t i = false
  joined : ∀ i, v.graph.hides s i = true →
    ∃ pid p, pid ∉ bad ∧ v.processes.get? pid = some p ∧ p.joined.get s = some i

namespace Vouched

theorem of_shown (h : ∀ t i, v.graph.hides t i = false) (s : Species) (bad : List Pid) :
    v.Vouched s bad where
  others t i _ := h t i
  joined i hi := by
    rw [h] at hi
    cases hi

theorem congr {bad' : List Pid} (h : v.Vouched s bad) (hsub : bad' ⊆ bad) : v.Vouched s bad' where
  others := h.others
  joined i hi := by
    obtain ⟨pid, p, hpid, hp⟩ := h.joined i hi
    exact ⟨pid, p, fun hin => hpid (hsub hin), hp⟩

/-- A process that is read vouches for the namespace that it has joined. -/
theorem read (h : v.Vouched s (pid :: bad)) (hpid : pid ∉ bad)
    (hthere : v.processes.contains pid = true) (id : Identity) (owner : Option Identity) :
    ((v.sighted s id .empty owner).joinedBy pid s id).Vouched s bad where
  others t i ht := by
    have hsame : (v.sighted s id .empty owner).graph.get? t i = v.graph.get? t i := by
      rw [get?_sighted, if_neg fun heq => ht heq.1.symm]
    change Option.any _ ((v.sighted s id .empty owner).graph.get? t i) = false
    rw [hsame]
    exact h.others t i ht
  joined i hi := by
    obtain ⟨p, hp⟩ := Registry.contains_iff.1 hthere
    have hget : ∀ x, ((v.sighted s id .empty owner).joinedBy pid s id).processes.get? x =
        if pid = x then
          (v.processes.get? x).map fun p => { p with joined := p.joined.set s (some id) }
        else v.processes.get? x := by
      intro x
      refine (Registry.get?_modify ..).trans ?_
      simp only [Registry.rank_inj]
      rfl
    by_cases hid : id = i
    · subst hid
      refine ⟨pid, { p with joined := p.joined.set s (some id) }, hpid, ?_, BySpecies.get_set ..⟩
      rw [hget, if_pos rfl]
      exact congrArg (Option.map _) hp
    · have hold : v.graph.hides s i = true := by
        change Option.any _ ((v.sighted s id .empty owner).graph.get? s i) = true at hi
        rwa [get?_sighted, if_neg fun heq => hid heq.2] at hi
      obtain ⟨x, q, hx, hq, hjoined⟩ := h.joined i hold
      rw [List.mem_cons, not_or] at hx
      exact ⟨x, q, hx.2, (hget x).trans (by rw [if_neg (Ne.symm hx.1), hq]), hjoined⟩

/-- A process that could not be read vouches for none. -/
theorem withoutProcess (h : v.Vouched s (pid :: bad)) : (v.withoutProcess pid).Vouched s bad := by
  unfold Survey.withoutProcess
  split
  · rename_i hthere
    obtain ⟨p, hp⟩ := Registry.contains_iff.1 hthere
    refine ⟨h.others, fun i hi => ?_⟩
    obtain ⟨x, q, hx, hq, hjoined⟩ := h.joined i hi
    rw [List.mem_cons, not_or] at hx
    have hget := ProcessTable.get?_erase (x := x) hp
    rw [if_neg (Ne.symm hx.1), hq, Option.map_some] at hget
    exact ⟨x, _, hx.2, hget, hjoined⟩
  · exact h.congr (List.subset_cons_self _ _)

theorem foldl_withoutProcess (pids : List Pid) :
    ∀ v : Survey, v.Vouched s pids → (pids.foldl Survey.withoutProcess v).Vouched s [] := by
  induction pids with
  | nil => exact fun v h => h
  | cons pid rest ih => exact fun v h => ih _ h.withoutProcess

/-- An election for the species shows all that processes vouch for. -/
theorem foldl_withLeaders (h : v.Vouched s []) (hlinked : v.processes.Linked) {ts : List Species}
    (hts : ts.Nodup) (hs : s ∈ ts) (t : Species) (i : Identity) :
    (ts.foldl Survey.withLeaders v).graph.hides t i = false := by
  obtain ⟨g, hg, hget⟩ := Survey.foldl_withLeaders ts v hts
  rw [hg, Bool.eq_false_iff]
  intro hhides
  obtain ⟨n, hn, hhidden⟩ := Graph.hides_eq_true.1 hhides
  rw [show Graph.get? _ t i = _ from hget t i] at hn
  split at hn
  · obtain ⟨m, hm, rfl⟩ := Option.map_eq_some_iff.1 hn
    obtain ⟨hm', hunjoined⟩ := Namespace.hidden_of_elect hlinked hhidden
    have hold : v.graph.hides t i = true := Graph.hides_eq_true.2 ⟨m, hm, hm'⟩
    by_cases hts : t = s
    · subst hts
      obtain ⟨pid, p, _, hp, hjoined⟩ := h.joined i hold
      exact hunjoined pid p hp hjoined
    · rw [h.others t i hts] at hold
      cases hold
  · rename_i ht
    have hold : v.graph.hides t i = true := Graph.hides_eq_true.2 ⟨n, hn, hhidden⟩
    rw [h.others t i fun heq => ht (heq ▸ hs)] at hold
    cases hold

/-- Once the leaders are settled there is no hidden namespace left. -/
theorem settled {unreadable : List Pid} (h : v.Vouched s unreadable) (hgrounded : Grounded o v)
    (t : Species) (i : Identity) : (v.settled s unreadable).graph.hides t i = false := by
  unfold Survey.settled
  split
  · exact foldl_withLeaders (h.congr (List.nil_subset _)) hgrounded.linked (List.nodup_singleton s)
      List.mem_cons_self t i
  · obtain ⟨hleft, _⟩ := Grounded.foldl_withoutProcess unreadable v hgrounded
    exact (foldl_withoutProcess unreadable v h).foldl_withLeaders hleft.linked
      (nodup_otherSpecies _ s) List.mem_cons_self t i

end Vouched

end Survey

/-- Every namespace that a scan brings in is vouched for, unless the time is up. -/
theorem ends_readAllJoined_vouched (pids : List Pid) : ∀ (bad : List Pid) (r : Run σ),
    (bad ++ pids).Nodup → (∀ pid ∈ pids, r.survey.processes.contains pid = true) →
    r.survey.Vouched s (bad ++ pids) →
    Ends (k.readAllJoined s pids) r (barring (· = .late "processes") fun unreadable r' =>
      r'.survey.Vouched s (bad ++ unreadable)) := by
  induction pids with
  | nil => exact fun _ _ _ _ h => h
  | cons pid rest ih =>
    intro bad r hnodup hthere h
    have hrest : ∀ x ∈ rest, r.survey.processes.contains x = true :=
      fun x hx => hthere x (List.mem_cons_of_mem pid hx)
    unfold Kernel.readAllJoined
    rw [ends_bind]
    refine ends_checkTime_barring (fun st => ?_) fun why st hlate => hlate.2
    rw [andThen_ok, ends_bind]
    refine (ends_readJoined_cases s pid _).mono ?_
    rintro _ r' (⟨rfl, hsame : r'.survey = r.survey⟩ | ⟨id, owner, rfl, _, hread⟩)
    · rw [andThen_ok, ends_bind]
      refine (ih (bad ++ [pid]) r' ?_ (hsame ▸ hrest) ?_).mono ?_
      · rwa [List.append_assoc]
      · rwa [List.append_assoc, hsame]
      · rintro (why | unreadable) r'' hafter
        · exact hafter
        · rw [barring_ok, List.append_assoc] at hafter
          exact hafter
    · rw [andThen_ok, ends_bind]
      obtain ⟨hpid, hnodup'⟩ := List.nodup_cons.1 (List.perm_middle.nodup_iff.1 hnodup)
      have hthere' : ∀ x ∈ rest, r'.survey.processes.contains x = true := by
        intro x hx
        rw [hread]
        exact Registry.contains_mapWithKey.trans (hrest x hx)
      refine (ih bad r' hnodup' hthere' ?_).mono ?_
      · rw [hread]
        exact (h.congr List.perm_middle.symm.subset).read hpid (hthere pid List.mem_cons_self) id owner
      · rintro (why | unreadable) r'' hafter
        · exact hafter
        · exact hafter

/-- A scan that is not late leaves no hidden namespace. -/
theorem ends_findJoined_shown {rest : List Species} {r : Run σ} (hs : o.includes s = true)
    (hrest : s ∉ rest) (h : Coherent o r.survey) (hunjoined : ∀ t ∈ s :: rest, r.survey.Unjoined t)
    (hshown : ∀ t i, r.survey.graph.hides t i = false) :
    Ends (k.findJoined s) r (barring (· = .late "processes") fun _ r' =>
      ∀ t i, r'.survey.graph.hides t i = false) := by
  have hscanning : Ends (k.readAllJoined s r.survey.processes.pids) r fun _ r' =>
      Scanning o s rest r'.survey :=
    Scanning.readAllJoined hs hrest _ r (Scanning.start h hunjoined)
  have hvouched := ends_readAllJoined_vouched (k := k) (s := s) r.survey.processes.pids [] r
    (Registry.nodup_keys _) (fun pid => Registry.mem_keys_iff.1) (.of_shown hshown s _)
  unfold Kernel.findJoined
  rw [ends_bind, ends_survey, andThen_ok, ends_bind]
  refine (hvouched.and hscanning).mono ?_
  rintro (why | unreadable) r' ⟨hafter, hcoherent⟩
  · exact hafter
  · exact fun t i => hafter.settled hcoherent.coherent.toGrounded t i

end NamespaceAtlas
