-- Mounted namespaces are found as far as mounts lead. Each mount namespace is
-- visited once, however often it is met and however mounts lead back and
-- forth between two of them.
import NamespaceAtlas.Proofs.Discovery.MountWorld
import NamespaceAtlas.Proofs.Gateway
import NamespaceAtlas.Proofs.Identity

namespace NamespaceAtlas

variable {σ φ : Type}

/-! ## Visits -/

namespace Kernel

/-- One visit to a mount namespace that is known. It is opened, its table looked at and its gateway
closed; or it does not open, and is listed. -/
inductive Visit (k : Kernel σ φ) (id : Identity) : Bool → Run σ → Run σ → Prop
  | opened {n g st found r r'} : r.survey.graph.get? .mount id = some n →
      (k.gatewayOf n r.survey.processes r.survey.options.attachLimit).run r.kernel = (.ok g, st) →
      (k.findMountedIn g).run ⟨st, r.survey.countSandboxes g⟩ = (.ok found, r') →
      Visit k id true r ⟨(k.close g r'.kernel).2, r'.survey⟩
  | shut {n why st r} : r.survey.graph.get? .mount id = some n →
      (k.gatewayOf n r.survey.processes r.survey.options.attachLimit).run r.kernel =
        (.error why, st) →
      Visit k id false r ⟨st, r.survey.unreached id⟩

/-- Visits to some mount namespaces in turn. -/
inductive Visits (k : Kernel σ φ) (opens : Identity → Bool) :
    List Identity → Run σ → Run σ → Prop
  | nil {r} : Visits k opens [] r r
  | cons {id rest r r' r''} : k.Visit id (opens id) r r' → Visits k opens rest r' r'' →
      Visits k opens (id :: rest) r r''

/-- The look at our own mount table, with which a search begins. -/
def lookAtHome (k : Kernel σ φ) (own : Identity) : Phase σ (List Identity) := do
  let _ ← Phase.attempt (k.identityAt "/proc/self/ns/mnt")
  let reference ← Phase.sure (k.ownReference own)
  k.findMountedIn (.own reference)

/-- A mount table that shows one namespace, and that one is new. -/
theorem ends_findMountedIn_of_one {k : Kernel σ φ} {g : Gateway} {m : Mount} {s : Species}
    {inode : UInt64} {id : Identity} {f : φ} {table : Bytes} {owner : Option Identity} {r : Run σ}
    (hcontents : k.contents g.tablePath r.kernel = (.ok table, r.kernel))
    (hmounts : (Mount.ofTable table).filter Mount.isNamespace = [m])
    (hroot : Species.parseText? m.root = some (s, inode))
    (hopens : Ends (k.openedMountPoint g m) r.kernel fun outcome st =>
      outcome = .ok (id, f) ∧ st = r.kernel)
    (howner : k.reportedOwner s f r.kernel = (owner, r.kernel))
    (hinode : id.hasInode inode = true) (hlimit : r.survey.options.limit = none)
    (hs : r.survey.options.includes s = true) (hnew : r.survey.graph.contains s id = false) :
    Ends (k.findMountedIn g) r fun outcome r' =>
      outcome = .ok (if s = .mount then [id] else []) ∧
        r' = ⟨r.kernel, r.survey.sighted s id (g.reference.join m.point) owner⟩ := by
  unfold findMountedIn
  rw [ends_bind, ends_sure, andThen_ok, hcontents]
  dsimp only
  rw [hmounts, lookAtMounts, ends_bind]
  unfold lookAtMount
  rw [ends_bind]
  apply ends_checkTime hlimit
  rw [andThen_ok, hroot]
  dsimp only
  rw [ends_bind, ends_survey, andThen_ok, if_pos hs]
  unfold findMountedAt
  rw [ends_bind, ends_attempt]
  refine hopens.mono ?_
  rintro _ st ⟨rfl, rfl⟩
  rw [andThen_ok]
  dsimp only
  rw [hinode, Bool.not_true, if_neg Bool.false_ne_true, ends_bind, ends_survey, andThen_ok, hnew,
    if_neg Bool.false_ne_true]
  unfold sight
  rw [ends_bind, ends_bind, ends_sure, andThen_ok, howner, ends_change, andThen_ok]
  split
  · exact ⟨rfl, rfl⟩
  · exact ⟨rfl, rfl⟩

/-- A visit ends as the gateway comes out, and as the look at the table ends. -/
theorem ends_visit {k : Kernel σ φ} {id : Identity} {n : Namespace} {r : Run σ}
    {post : Except Error (List Identity) → Run σ → Prop}
    (hn : r.survey.graph.get? .mount id = some n)
    (hshut : ∀ why st,
      (k.gatewayOf n r.survey.processes r.survey.options.attachLimit).run r.kernel =
        (.error why, st) → post (.ok []) ⟨st, r.survey.unreached id⟩)
    (hopened : ∀ g st outcome r',
      (k.gatewayOf n r.survey.processes r.survey.options.attachLimit).run r.kernel = (.ok g, st) →
      (k.findMountedIn g).run ⟨st, r.survey.countSandboxes g⟩ = (outcome, r') →
      post outcome ⟨(k.close g r'.kernel).2, r'.survey⟩) :
    Ends (k.visit id) r post := by
  unfold visit
  rw [ends_bind, ends_survey, andThen_ok, hn]
  dsimp only
  rw [ends_bind, ends_attempt, ends_iff_run]
  rintro (why | g) st hgate
  · exact hshut why st hgate
  · rw [andThen_ok, ends_bind, ends_change, andThen_ok]
    exact hopened g st _ _ hgate rfl

/-- A search is the look at our own mount table and then the visits. -/
theorem ends_findMounted {k : Kernel σ φ} {own : Identity} {st : σ} {v : Survey}
    {post : Except Error Unit → Run σ → Prop}
    (hown : Ends (k.identityAt "/proc/self/ns/mnt") st fun outcome _ => outcome = .ok own)
    (h : Ends (k.lookAtHome own) ⟨st, v⟩ (andThen (fun found =>
      k.visitAll (((v.graph.ids .mount).filter (· ≠ own) ++ found).length + Identity.count) [own]
        ((v.graph.ids .mount).filter (· ≠ own) ++ found)) post)) :
    Ends k.findMounted ⟨st, v⟩ post := by
  unfold lookAtHome at h
  unfold findMounted
  rw [ends_bind, ends_attempt, ends_iff_run] at h ⊢
  rw [ends_iff_run] at hown
  intro outcome st' hrun
  obtain rfl := hown _ _ hrun
  have hlook := h _ _ hrun
  rw [andThen_ok, ends_bind, ends_sure, andThen_ok] at hlook ⊢
  rw [ends_bind, ends_survey, andThen_ok, ends_bind]
  exact hlook

/-- The look at our own mount table begins with our own reference. -/
theorem ends_lookAtHome {k : Kernel σ φ} {own : Identity} {reference : Reference} {r : Run σ}
    {post : Except Error (List Identity) → Run σ → Prop}
    (hown : Ends (k.identityAt "/proc/self/ns/mnt") r.kernel fun _ st => st = r.kernel)
    (hreference : k.ownReference own r.kernel = (reference, r.kernel))
    (h : Ends (k.findMountedIn (.own reference)) r post) : Ends (k.lookAtHome own) r post := by
  unfold lookAtHome
  rw [ends_bind, ends_attempt]
  refine hown.mono ?_
  rintro _ _ rfl
  rw [andThen_ok, ends_bind, ends_sure, andThen_ok, hreference]
  exact h

/-- A search that comes upon one mount namespace, and upon no other inside of it. -/
theorem ends_findMounted_of_one {k : Kernel σ φ} {own id : Identity} {n : Namespace} {g : Gateway}
    {st inside : σ} {v w final : Survey}
    (hown : Ends (k.identityAt "/proc/self/ns/mnt") st fun outcome _ => outcome = .ok own)
    (hnone : v.graph.ids .mount = [])
    (hlook : Ends (k.lookAtHome own) ⟨st, v⟩ fun outcome r => outcome = .ok [id] ∧ r = ⟨st, w⟩)
    (hlimit : w.options.limit = none) (hne : id ≠ own) (hn : w.graph.get? .mount id = some n)
    (hgate : Ends (k.gatewayOf n w.processes w.options.attachLimit) st fun outcome st' =>
      outcome = .ok g ∧ st' = inside)
    (hinside : Ends (k.findMountedIn g) ⟨inside, w.countSandboxes g⟩ fun outcome r =>
      outcome = .ok [] ∧ r = ⟨inside, final⟩) :
    Ends k.findMounted ⟨st, v⟩ fun outcome r =>
      outcome = .ok () ∧ r = ⟨(k.close g inside).2, final⟩ := by
  rw [ends_iff_run] at hgate hinside
  apply ends_findMounted hown
  refine hlook.mono ?_
  rintro _ _ ⟨rfl, rfl⟩
  rw [andThen_ok, hnone, Nat.add_comm]
  change Ends (k.visitAll (Identity.count + 1) [own] [id]) _ _
  rw [visitAll, ends_bind]
  apply ends_checkTime hlimit
  rw [andThen_ok, if_neg (mt List.mem_singleton.1 hne), ends_bind]
  refine ends_visit hn ?_ ?_
  · intro why st' hrun
    cases (hgate _ _ hrun).1
  · intro g' st' outcome r hrun hlook
    obtain ⟨hg, rfl⟩ := hgate _ _ hrun
    cases hg
    obtain ⟨rfl, rfl⟩ := hinside _ _ hlook
    rw [andThen_ok]
    change Ends (k.visitAll _ _ []) _ _
    rw [visitAll, ends_pure]
    exact ⟨rfl, rfl⟩

end Kernel

/-! ## The search -/

/-- A search under way: the mount namespaces of `done` were visited, in that order, and those of
`backlog` are to be visited unless they are our own or done. -/
structure Touring (W : MountWorld) (calm : σ → Prop) (v : Survey) (done backlog : List Identity)
    (r : Run σ) : Prop where
  calm : calm r.kernel
  options : r.survey.options = v.options
  processes : r.survey.processes = v.processes
  unreachable : r.survey.diagnostics.unreachable =
    v.diagnostics.unreachable ++ done.filter fun id => !W.opens id
  reachable : ∀ s id, r.survey.graph.contains s id = true → W.Reachable v s id
  recorded : ∀ id n, r.survey.graph.get? .mount id = some n → W.Recorded v id n
  known : ∀ s id, v.graph.contains s id = true → r.survey.graph.contains s id = true
  home : ∀ m ∈ W.entries W.own, ∀ s id, W.Gives v.options W.own m s id →
    r.survey.graph.contains s id = true
  inside : ∀ place ∈ done, W.opens place = true → ∀ m ∈ W.entries place, ∀ s id,
    W.Gives v.options place m s id → r.survey.graph.contains s id = true
  nodup : (W.own :: done).Nodup
  here : ∀ id, id ∈ done ∨ id ∈ backlog → r.survey.graph.contains .mount id = true
  covered : ∀ id, r.survey.graph.contains .mount id = true →
    id = W.own ∨ id ∈ done ∨ id ∈ backlog

namespace Touring

variable {k : Kernel σ φ} {W : MountWorld} {calm : σ → Prop}
  {shows : Gateway → Identity → σ → Prop} {v : Survey} {done backlog : List Identity}
  {id : Identity} {r r' : Run σ}

/-- A mount namespace that was visited need not be visited again. -/
theorem drop (h : Touring W calm v done (id :: backlog) r) (hid : id = W.own ∨ id ∈ done) :
    Touring W calm v done backlog r :=
  { h with
    here := fun i hi => h.here i (hi.imp_right (List.mem_cons_of_mem id))
    covered := fun i hi => by
      rcases h.covered i hi with hi | hi | hi
      · exact Or.inl hi
      · exact Or.inr (Or.inl hi)
      · rcases List.mem_cons.1 hi with rfl | hi
        · exact hid.imp_right Or.inl
        · exact Or.inr (Or.inr hi) }

/-- What one visit adds: all that the table gives if the mount namespace opens, and nothing else. -/
theorem visit {n : Namespace} {found : List Identity}
    (h : Touring W calm v done (id :: backlog) r) (hnot : ¬ (id = W.own ∨ id ∈ done))
    (hn : r.survey.graph.get? .mount id = some n) (hcalm : calm r'.kernel)
    (hoptions : r'.survey.options = r.survey.options)
    (hprocesses : r'.survey.processes = r.survey.processes)
    (hunreachable : r'.survey.diagnostics.unreachable =
      r.survey.diagnostics.unreachable ++ [id].filter fun id => !W.opens id)
    (hglean : W.Gleaned v.options id n.reference (if W.opens id then W.entries id else []) found
      r.survey.graph r'.survey.graph) :
    Touring W calm v (done ++ [id]) (backlog ++ found) r' := by
  obtain ⟨hown, hdone⟩ := not_or.1 hnot
  have hseen : ∀ m ∈ (if W.opens id then W.entries id else []),
      W.opens id = true ∧ m ∈ W.entries id := by
    intro m hm
    split at hm
    · exact ⟨‹_›, hm⟩
    · cases hm
  have hmore : ∀ s i, r.survey.graph.contains s i = true → r'.survey.graph.contains s i = true :=
    fun s i hi => (hglean.known s i).2 (Or.inl hi)
  have hid : r.survey.graph.contains .mount id = true := h.here id (Or.inr List.mem_cons_self)
  constructor
  · exact hcalm
  · rw [hoptions, h.options]
  · rw [hprocesses, h.processes]
  · rw [hunreachable, h.unreachable, List.append_assoc, List.filter_append]
  · intro s i hi
    rcases (hglean.known s i).1 hi with hi | ⟨m, hm, hgives⟩
    · exact h.reachable s i hi
    · obtain ⟨hopens, hm⟩ := hseen m hm
      exact .inside (h.reachable .mount id hid) hown hopens hm hgives
  · intro i p hp
    rcases hglean.record i p hp with hp | ⟨m, hm, hgives, hfound⟩
    · exact h.recorded i p hp
    · obtain ⟨hopens, hm⟩ := hseen m hm
      exact .inside (h.recorded id n hn) hown hopens hm hgives hfound
  · exact fun s i hi => hmore s i (h.known s i hi)
  · exact fun m hm s i hi => hmore s i (h.home m hm s i hi)
  · intro place hplace hopens m hm s i hi
    rcases List.mem_append.1 hplace with hplace | hplace
    · exact hmore s i (h.inside place hplace hopens m hm s i hi)
    · rw [List.mem_singleton] at hplace
      subst hplace
      rw [if_pos hopens] at hglean
      exact (hglean.known s i).2 (Or.inr ⟨m, hm, hi⟩)
  · rw [← List.cons_append]
    refine List.nodup_append.2 ⟨h.nodup, List.nodup_singleton id, ?_⟩
    rintro i hi _ hid rfl
    rw [List.mem_singleton.1 hid] at hi
    rcases List.mem_cons.1 hi with hi | hi
    · exact hown hi
    · exact hdone hi
  · rintro i (hi | hi)
    · rcases List.mem_append.1 hi with hi | hi
      · exact hmore .mount i (h.here i (Or.inl hi))
      · rw [List.mem_singleton.1 hi]
        exact hmore .mount id hid
    · rcases List.mem_append.1 hi with hi | hi
      · exact hmore .mount i (h.here i (Or.inr (List.mem_cons_of_mem id hi)))
      · exact ((hglean.new i).1 hi).2
  · intro i hi
    cases hold : r.survey.graph.contains .mount i with
    | false =>
      have hnew := (hglean.new i).2 ⟨hold, hi⟩
      exact Or.inr (Or.inr (List.mem_append_right backlog hnew))
    | true =>
      rcases h.covered i hold with hi | hi | hi
      · exact Or.inl hi
      · exact Or.inr (Or.inl (List.mem_append_left [id] hi))
      · rcases List.mem_cons.1 hi with rfl | hi
        · exact Or.inr (Or.inl (List.mem_append_right done (List.mem_singleton_self i)))
        · exact Or.inr (Or.inr (List.mem_append_left found hi))

/-- At the end of a search all that is within reach is known. -/
theorem contains_iff (h : Touring W calm v done [] r) (s : Species) :
    r.survey.graph.contains s id = true ↔ W.Reachable v s id := by
  constructor
  · exact h.reachable s id
  · intro hid
    induction hid with
    | known hid => exact h.known _ _ hid
    | home hm hgives => exact h.home _ hm _ _ hgives
    | inside _ hown hopens hm hgives ih =>
      rcases h.covered _ ih with hplace | hplace | hplace
      · exact absurd hplace hown
      · exact h.inside _ hplace hopens _ hm _ _ hgives
      · cases hplace

/-- At the end of a search all mount namespaces but our own were visited. -/
theorem mem_done_iff (h : Touring W calm v done [] r) :
    id ∈ done ↔ r.survey.graph.contains .mount id = true ∧ id ≠ W.own := by
  constructor
  · intro hid
    refine ⟨h.here id (Or.inl hid), ?_⟩
    rintro rfl
    exact (List.nodup_cons.1 h.nodup).1 hid
  · rintro ⟨hid, hown⟩
    rcases h.covered id hid with hid | hid | hid
    · exact absurd hid hown
    · exact hid
    · cases hid

/-! ### One visit -/

/-- A visit is one, whether the mount namespace opens or not, and adds what the world says. -/
theorem ends_visit (hk : k.Shows W calm shows) (hadmits : k.Admits W calm shows v)
    (hlimit : v.options.limit = none) (h : Touring W calm v done (id :: backlog) r)
    (hnot : ¬ (id = W.own ∨ id ∈ done)) :
    Ends (k.visit id) r fun outcome r' => ∃ found, outcome = .ok found ∧
      k.Visit id (W.opens id) r r' ∧ Touring W calm v (done ++ [id]) (backlog ++ found) r' ∧
      (r'.survey.graph.ids .mount).length =
        (r.survey.graph.ids .mount).length + found.length := by
  obtain ⟨n, hn⟩ := Graph.contains_iff.1 (h.here id (Or.inr List.mem_cons_self))
  have hgate := hadmits id n r.kernel (h.recorded id n hn) (fun hid => hnot (Or.inl hid)) h.calm
  have hleads : Ends (k.gatewayOf n r.survey.processes r.survey.options.attachLimit) r.kernel
      (Kernel.Leads n.reference) := Kernel.leads_gatewayOf n _
  rw [← h.processes, ← h.options, ends_iff_run] at hgate
  rw [ends_iff_run] at hleads
  apply Kernel.ends_visit hn
  · intro why st hrun
    rcases hgate _ _ hrun with ⟨g, hok, _⟩ | ⟨_, hshut, hcalm⟩
    · cases hok
    · refine ⟨[], rfl, ?_, ?_, rfl⟩
      · rw [hshut]
        exact .shut hn hrun
      · refine h.visit hnot hn hcalm rfl rfl ?_ ?_
        · simp [Survey.unreached, Survey.mapDiagnostics, hshut]
        · simp only [hshut, Bool.false_eq_true, if_false]
          exact .stay fun m hm => absurd hm List.not_mem_nil
  · intro g st outcome r' hrun hlook
    rcases hgate _ _ hrun with ⟨g', hok, hopens, hshows⟩ | ⟨⟨why, hok⟩, _⟩
    swap
    · cases hok
    cases hok
    have hreference : g.reference = n.reference := hleads _ _ hrun
    have hlimit' : (r.survey.countSandboxes g).options.limit = none := by
      rw [← hlimit, ← h.options]
      rfl
    have hlooked : Ends (k.findMountedIn g) ⟨st, r.survey.countSandboxes g⟩ _ :=
      hk.ends_findMountedIn hlimit' hshows
    obtain ⟨found, rfl, hshows, hbeside, hglean⟩ := ends_iff_run.1 hlooked _ _ hlook
    rw [hreference, show (r.survey.countSandboxes g).options = v.options from h.options] at hglean
    refine ⟨found, rfl, ?_, ?_, hglean.length_ids⟩
    · rw [hopens]
      exact .opened hn hrun hlook
    · refine h.visit hnot hn (hk.close g id _ hshows) hbeside.options hbeside.processes ?_ ?_
      · rw [hbeside.unreachable, List.filter_cons_of_neg (by simp [hopens])]
        exact (List.append_nil _).symm
      · simp only [hopens, if_true]
        exact hglean

/-! ### The whole -/

/-- There are steps enough to come to the end of the backlog: a visit takes one step, and what it
finds was not known before. -/
theorem ends_visitAll (hk : k.Shows W calm shows) (hadmits : k.Admits W calm shows v)
    (hlimit : v.options.limit = none) (steps : Nat) :
    ∀ done backlog r, Touring W calm v done backlog r →
      backlog.length + (Identity.count - (r.survey.graph.ids .mount).length) ≤ steps →
      Ends (k.visitAll steps (done.reverse ++ [W.own]) backlog) r fun outcome r' =>
        outcome = .ok () ∧ ∃ visits, k.Visits W.opens visits r r' ∧
          Touring W calm v (done ++ visits) [] r' := by
  induction steps with
  | zero =>
    intro done backlog r h hsteps
    have hnil : backlog = [] := List.eq_nil_of_length_eq_zero (by omega)
    subst hnil
    refine ⟨rfl, [], .nil, ?_⟩
    rwa [List.append_nil]
  | succ steps ih =>
    intro done backlog r h hsteps
    cases backlog with
    | nil =>
      refine ⟨rfl, [], .nil, ?_⟩
      rwa [List.append_nil]
    | cons id backlog =>
      rw [List.length_cons] at hsteps
      have hvisited : id ∈ done.reverse ++ [W.own] ↔ id = W.own ∨ id ∈ done := by
        rw [List.mem_append, List.mem_reverse, List.mem_singleton, or_comm]
      unfold Kernel.visitAll
      rw [ends_bind]
      apply ends_checkTime (by rw [h.options, hlimit])
      rw [andThen_ok]
      split
      · rename_i hid
        exact ih done backlog r (h.drop (hvisited.1 hid)) (by omega)
      · rename_i hid
        have hnot := fun hid' => hid (hvisited.2 hid')
        rw [ends_bind]
        refine Ends.mono (h.ends_visit hk hadmits hlimit hnot) ?_
        rintro _ r' ⟨found, rfl, hvisit, h', hlength⟩
        rw [andThen_ok]
        -- What is found makes the backlog longer, and leaves as much less to be found.
        have hcount : (r'.survey.graph.ids .mount).length ≤ Identity.count :=
          Identity.length_le_count (Graph.nodup_ids _ _)
        have hdone : id :: (done.reverse ++ [W.own]) = (done ++ [id]).reverse ++ [W.own] := by
          simp
        rw [hdone]
        refine Ends.mono (ih _ _ _ h' (by rw [List.length_append]; omega)) ?_
        rintro _ r'' ⟨rfl, visits, hvisits, h''⟩
        refine ⟨rfl, id :: visits, .cons hvisit hvisits, ?_⟩
        rwa [List.append_assoc] at h''

/-- With the look at our own mount table the search is under way. -/
theorem start {found : List Identity} (hcalm : calm r.kernel) (hbeside : v.Beside r.survey)
    (hglean : W.Gleaned v.options W.own W.home (W.entries W.own) found v.graph r.survey.graph) :
    Touring W calm v [] ((v.graph.ids .mount).filter (· ≠ W.own) ++ found) r where
  calm := hcalm
  options := hbeside.options
  processes := hbeside.processes
  unreachable := by rw [hbeside.unreachable, List.filter_nil, List.append_nil]
  reachable s id hid := by
    rcases (hglean.known s id).1 hid with hid | ⟨m, hm, hgives⟩
    · exact .known hid
    · exact .home hm hgives
  recorded id n hn := by
    rcases hglean.record id n hn with hn | ⟨m, hm, hgives, hfound⟩
    · exact .known hn
    · exact .home hm hgives hfound
  known s id hid := (hglean.known s id).2 (Or.inl hid)
  home m hm s id hgives := (hglean.known s id).2 (Or.inr ⟨m, hm, hgives⟩)
  inside _ hplace := absurd hplace List.not_mem_nil
  nodup := List.nodup_singleton W.own
  here id hid := by
    rcases hid with hid | hid
    · cases hid
    · rcases List.mem_append.1 hid with hid | hid
      · have hknown := Graph.mem_ids_iff.1 (List.mem_of_mem_filter hid)
        exact (hglean.known .mount id).2 (Or.inl hknown)
      · exact ((hglean.new id).1 hid).2
  covered id hid := by
    by_cases hown : id = W.own
    · exact Or.inl hown
    · refine Or.inr (Or.inr (List.mem_append.2 ?_))
      cases hold : v.graph.contains .mount id with
      | false => exact Or.inr ((hglean.new id).2 ⟨hold, hid⟩)
      | true => exact Or.inl (List.mem_filter.2 ⟨Graph.mem_ids_iff.2 hold, by simpa using hown⟩)

end Touring

/-! ## Mount tables that are read later -/

/-- No mount namespace is listed twice as one that does not open. -/
def Survey.ListsOnce (v : Survey) : Prop := v.diagnostics.unreachable.Nodup

theorem Survey.ListsOnce.unreached {v : Survey} {id : Identity} (h : v.ListsOnce)
    (hid : id ∉ v.diagnostics.unreachable) : (v.unreached id).ListsOnce :=
  List.nodup_append.2 ⟨h, List.nodup_singleton id,
    fun _ hi _ hid' heq => hid (List.mem_singleton.1 hid' ▸ heq ▸ hi)⟩

theorem Kernel.keeps_listsOnce_readTables (k : Kernel σ φ) (ids : List Identity)
    (tables : Registry Identity (List Mount)) :
    Keeps (fun r : Run σ => r.survey.ListsOnce) (k.readTables ids tables).run := by
  induction ids generalizing tables with
  | nil => exact Keeps.run_pure
  | cons id rest ih =>
    refine Keeps.run_bind (Keeps.checkingTime _) fun _ => Keeps.run_bind Keeps.survey fun v => ?_
    split
    · exact ih tables
    · refine Keeps.run_bind Keeps.asking fun gate => ?_
      split
      · refine Keeps.run_bind (Keeps.changing ?_) fun _ => ih tables
        intro v h
        split
        · exact h
        · exact h.unreached ‹_›
      · refine Keeps.run_bind (Keeps.changing fun _ h => h) fun _ => ?_
        refine Keeps.run_bind Keeps.asking fun table => Keeps.run_bind Keeps.asking fun _ => ?_
        split
        · exact ih _
        · exact Keeps.run_bind (Keeps.changing fun _ h => h) fun _ => ih tables

theorem Kernel.keeps_listsOnce_keepMountTables (k : Kernel σ φ) :
    Keeps (fun r : Run σ => r.survey.ListsOnce) k.keepMountTables.run := by
  refine Keeps.run_bind Keeps.survey fun v => ?_
  refine Keeps.run_bind (k.keeps_listsOnce_readTables _ _) fun tables => ?_
  apply Keeps.changing
  exact fun _ h => h

/-! ## The law -/

theorem Kernel.Shows.ends_lookAtHome {k : Kernel σ φ} {W : MountWorld} {calm : σ → Prop}
    {shows : Gateway → Identity → σ → Prop} {v : Survey} {st : σ} (hk : k.Shows W calm shows)
    (hlimit : v.options.limit = none) (hst : calm st) :
    Ends (k.lookAtHome W.own) ⟨st, v⟩
      (W.Looked shows (.own W.home) W.own (W.entries W.own) v) := by
  unfold lookAtHome
  rw [ends_bind, ends_attempt]
  refine Ends.mono (hk.identity st hst) ?_
  rintro _ st₁ ⟨rfl, hst₁⟩
  obtain ⟨hreference, hst₂⟩ := hk.reference st₁ hst₁
  rw [andThen_ok, ends_bind, ends_sure, andThen_ok, hreference]
  refine hk.ends_findMountedIn ?_ (hk.home _ hst₂)
  exact hlimit

/-- What is found by mounts is all that is within reach. Our own mount table is looked at once, and
then each other mount namespace that is known in the end is visited, each once. Those that do not
open are put on the list of those out of reach, and where this is empty at first none is on it
twice, also when all mount tables are read after it. This holds however often a mount namespace is
met, and though mounts may lead back and forth between two of them. -/
theorem every_mount_namespace_is_visited_once (k : Kernel σ φ) (W : MountWorld) (calm : σ → Prop)
    (shows : Gateway → Identity → σ → Prop) (v : Survey) (st : σ) (hk : k.Shows W calm shows)
    (hadmits : k.Admits W calm shows v) (hlimit : v.options.limit = none) (hst : calm st) :
    ∃ visits r, k.findMounted.run ⟨st, v⟩ = (.ok (), r) ∧
      (∃ found r₁, (k.lookAtHome W.own).run ⟨st, v⟩ = (.ok found, r₁) ∧
        k.Visits W.opens visits r₁ r) ∧
      visits.Nodup ∧
      (∀ id, id ∈ visits ↔ r.survey.graph.contains .mount id = true ∧ id ≠ W.own) ∧
      (∀ s id, r.survey.graph.contains s id = true ↔ W.Reachable v s id) ∧
      r.survey.diagnostics.unreachable =
        v.diagnostics.unreachable ++ visits.filter (fun id => !W.opens id) ∧
      (v.diagnostics.unreachable = [] → r.survey.diagnostics.unreachable.Nodup ∧
        (k.keepMountTables.run r).2.survey.diagnostics.unreachable.Nodup) := by
  have hown : Ends (k.identityAt "/proc/self/ns/mnt") st fun outcome _ => outcome = .ok W.own :=
    (hk.identity st hst).mono fun _ _ h => h.1
  suffices hends : Ends k.findMounted ⟨st, v⟩ fun outcome r => outcome = .ok () ∧
      ∃ visits, (∃ found r₁, (k.lookAtHome W.own).run ⟨st, v⟩ = (.ok found, r₁) ∧
        k.Visits W.opens visits r₁ r) ∧ Touring W calm v visits [] r by
    obtain ⟨hok, visits, hvisits, h⟩ := hends
    have hnodup := (List.nodup_cons.1 h.nodup).2
    refine ⟨visits, _, Prod.ext hok rfl, hvisits, hnodup, fun id => h.mem_done_iff,
      fun s id => h.contains_iff s, h.unreachable, fun hnone => ?_⟩
    have hlisted : (k.findMounted.run ⟨st, v⟩).2.survey.diagnostics.unreachable.Nodup := by
      rw [h.unreachable, hnone]
      exact hnodup.filter _
    exact ⟨hlisted, k.keeps_listsOnce_keepMountTables _ hlisted⟩
  apply Kernel.ends_findMounted hown
  have hlook := hk.ends_lookAtHome hlimit hst
  rw [ends_iff_run] at hlook ⊢
  intro outcome r₁ hrun
  obtain ⟨found, rfl, hshows, hbeside, hglean⟩ := hlook _ _ hrun
  have hstart := Touring.start (hk.close _ _ _ hshows) hbeside hglean
  have hsteps := Nat.add_le_add_left (Nat.sub_le Identity.count
    (r₁.survey.graph.ids .mount).length) ((v.graph.ids .mount).filter (· ≠ W.own) ++ found).length
  rw [andThen_ok]
  refine Ends.mono (hstart.ends_visitAll hk hadmits hlimit _ _ _ _ hsteps) ?_
  rintro _ r ⟨rfl, visits, hvisits, h⟩
  exact ⟨rfl, visits, ⟨found, r₁, hrun, hvisits⟩, h⟩

/-- Two mount namespaces that are mounted in each other. The second lists a third, which does not
open. -/
def mutualMounts : MountWorld where
  own := ⟨4, 1⟩
  home := .empty
  opens id := id = ⟨4, 2⟩
  table id :=
    if id = ⟨4, 1⟩ then some (Bytes.ofText "36 35 0:4 mnt:[2] /run/b rw - nsfs nsfs rw")
    else if id = ⟨4, 2⟩ then some (Bytes.ofText
      "40 35 0:4 mnt:[1] /run/a rw - nsfs nsfs rw\n41 35 0:4 mnt:[3] /run/c rw - nsfs nsfs rw")
    else none
  found place p :=
    if place = ⟨4, 1⟩ then if p = "/run/b" then some ⟨4, 2⟩ else none
    else if p = "/run/a" then some ⟨4, 1⟩
    else if p = "/run/c" then some ⟨4, 3⟩
    else none

/-- A host with these mount namespaces. It has room for one sandbox, so the way through the second
ends there. -/
def mutualHost : Kernel (Option Pid) Path :=
  { Kernel.plain with
    contents := fun p => do
      let live ← get
      let table :=
        if p = "/proc/self/mountinfo" then mutualMounts.table ⟨4, 1⟩
        else if p = "/proc/100/mountinfo" then live.bind fun _ => mutualMounts.table ⟨4, 2⟩
        else none
      return table.elim (.error (.refused .noEntry)) .ok
    openFile := fun p => return .ok p
    identify := fun p =>
      let id :=
        if p = "/proc/100/root/run/a" then mutualMounts.found ⟨4, 2⟩ "/run/a"
        else if p = "/proc/100/root/run/c" then mutualMounts.found ⟨4, 2⟩ "/run/c"
        else mutualMounts.found ⟨4, 1⟩ p
      return id.elim (.error (.refused .noEntry)) .ok
    speciesFlag := fun _ => return .ok Species.mount.flag
    spawn := fun _ _ _ => do
      match ← get with
      | none =>
        set (some (Pid.mk 100))
        return .ok ⟨100⟩
      | some _ => return .error (.failed .leftEarly)
    release := fun _ => set (none : Option Pid) }

/-- The gateway into the second mount namespace. -/
def mutualGateway (reference : Reference) : Gateway where
  reference
  root := Gateway.rootOf ⟨100⟩
  pid := some ⟨100⟩
  sandbox := some ⟨100⟩
  spawned := 1

/-- What the host shows through a gateway while a sandbox is attached. -/
def MutualShown (g : Gateway) (place : Identity) (live : Option Pid) : Prop :=
  (g = .own .empty ∧ place = ⟨4, 1⟩ ∧ live = none) ∨
  (g = mutualGateway (.single "/run/b") ∧ place = ⟨4, 2⟩ ∧ live = some ⟨100⟩)

theorem point_of_mem_mutualMounts {place : Identity} {m : Mount}
    (hm : m ∈ mutualMounts.entries place) :
    (place = ⟨4, 1⟩ ∧ m.point = "/run/b") ∨
    (place = ⟨4, 2⟩ ∧ (m.point = "/run/a" ∨ m.point = "/run/c")) := by
  have hpoint : m.point ∈ (mutualMounts.entries place).map (·.point) := List.mem_map_of_mem hm
  have hhome : (mutualMounts.entries ⟨4, 1⟩).map (·.point) = [Path.ofText "/run/b"] := by
    decide +kernel
  have hinner : (mutualMounts.entries ⟨4, 2⟩).map (·.point) =
      [Path.ofText "/run/a", Path.ofText "/run/c"] := by
    decide +kernel
  by_cases hplace : place = ⟨4, 1⟩
  · rw [hplace, hhome, List.mem_singleton] at hpoint
    exact Or.inl ⟨hplace, hpoint⟩
  · by_cases hplace' : place = ⟨4, 2⟩
    · rw [hplace', hinner] at hpoint
      simp only [List.mem_cons, List.not_mem_nil, or_false] at hpoint
      exact Or.inr ⟨hplace', hpoint⟩
    · unfold MountWorld.entries mutualMounts at hm
      simp only [hplace, hplace', if_false] at hm
      cases hm

theorem shows_mutualHost : mutualHost.Shows mutualMounts (· = none) MutualShown where
  identity st h := ⟨rfl, h⟩
  reference st h := by
    subst h
    decide +kernel
  home st h := Or.inl ⟨rfl, rfl, h⟩
  table g place st h := by
    rcases h with ⟨rfl, rfl, rfl⟩ | ⟨rfl, rfl, rfl⟩
    · exact ⟨by decide +kernel, Or.inl ⟨rfl, rfl, rfl⟩⟩
    · exact ⟨by decide +kernel, Or.inr ⟨rfl, rfl, rfl⟩⟩
  found g place m st hm h := by
    have hresolve : ∀ p : Path, Path.parentName ∉ (Path.root.join p).steps →
        mutualHost.resolveThrough g p = pure (g.root.below (Path.root.join p).steps) :=
      fun _ h => mutualHost.resolveThrough_of_plain (fun _ => rfl) rfl h
    unfold Kernel.openedMountPoint
    rcases point_of_mem_mutualMounts hm with ⟨hplace, hpoint⟩ | ⟨hplace, hpoint | hpoint⟩
    · rw [hpoint, hresolve _ (by decide)]
      rcases h with ⟨rfl, rfl, rfl⟩ | ⟨rfl, rfl, rfl⟩
      · exact ⟨by decide +kernel, Or.inl ⟨rfl, rfl, rfl⟩⟩
      · cases hplace
    · rw [hpoint, hresolve _ (by decide)]
      rcases h with ⟨rfl, rfl, rfl⟩ | ⟨rfl, rfl, rfl⟩
      · cases hplace
      · exact ⟨by decide +kernel, Or.inr ⟨rfl, rfl, by decide +kernel⟩⟩
    · rw [hpoint, hresolve _ (by decide)]
      rcases h with ⟨rfl, rfl, rfl⟩ | ⟨rfl, rfl, rfl⟩
      · cases hplace
      · exact ⟨by decide +kernel, Or.inr ⟨rfl, rfl, by decide +kernel⟩⟩
  owner g place s f st h := by
    unfold Kernel.reportedOwner
    split
    · exact h
    · exact h
  close g place st h := by
    rcases h with ⟨rfl, rfl, rfl⟩ | ⟨rfl, rfl, rfl⟩
    · rfl
    · rfl

theorem recorded_mutualMounts {v : Survey} {id : Identity} {n : Namespace}
    (hv : v.graph = .empty) (h : mutualMounts.Recorded v id n) :
    id = ⟨4, 1⟩ ∨ (n.species = .mount ∧ n.leaders = []) ∧
      ((id = ⟨4, 2⟩ ∧ n.reference = .single "/run/b") ∨
       (id = ⟨4, 3⟩ ∧ n.reference = ⟨["/run/b", "/run/c"]⟩)) := by
  induction h with
  | known hn =>
    rw [hv, Graph.get?_empty] at hn
    cases hn
  | home hm hgives hfound =>
    obtain ⟨_, _, _, hid, _⟩ := hgives
    obtain ⟨owner, rfl⟩ := hfound
    rcases point_of_mem_mutualMounts hm with ⟨_, hpoint⟩ | ⟨hplace, _⟩
    · rw [hpoint] at hid ⊢
      cases hid
      exact Or.inr ⟨⟨rfl, rfl⟩, Or.inl ⟨rfl, rfl⟩⟩
    · cases hplace
  | inside _ _ hopens hm hgives hfound ih =>
    obtain ⟨_, _, _, hid, _⟩ := hgives
    obtain ⟨owner, rfl⟩ := hfound
    obtain rfl := of_decide_eq_true hopens
    rcases ih with hplace | ⟨_, ⟨_, hreference⟩ | ⟨hplace, _⟩⟩
    · cases hplace
    · rcases point_of_mem_mutualMounts hm with ⟨hplace, _⟩ | ⟨_, hpoint | hpoint⟩
      · cases hplace
      · rw [hpoint] at hid
        cases hid
        exact Or.inl rfl
      · rw [hpoint] at hid ⊢
        cases hid
        rw [hreference]
        exact Or.inr ⟨⟨rfl, rfl⟩, Or.inr ⟨rfl, rfl⟩⟩
    · cases hplace

theorem enterFirst_mutualHost (reference : Reference) (limit : Span) :
    (mutualHost.enterFirst (.own reference) limit "/run/b").run none =
      (.ok (mutualGateway reference), some ⟨100⟩) := by
  have hnone : mutualHost.processOfFirst? "/run/b" = none := by decide +kernel
  have hpath : mutualHost.initialPath "/run/b" = pure (Path.ofText "/run/b") := by
    unfold Kernel.initialPath
    exact mutualHost.resolveIn_of_plain (fun _ => rfl) (by decide)
  unfold Kernel.enterFirst
  rw [hnone, hpath]
  rfl

theorem admits_mutualHost (v : Survey) (hgraph : v.graph = .empty) :
    mutualHost.Admits mutualMounts (· = none) MutualShown v := by
  intro id n st hn hown hst
  subst hst
  obtain hid | ⟨⟨hspecies, hleaders⟩, ⟨rfl, hreference⟩ | ⟨rfl, hreference⟩⟩ :=
    recorded_mutualMounts hgraph hn
  · exact absurd hid hown
  · have hfault : n.reference.fault? = none := by
      rw [hreference]
      decide
    rw [Kernel.gatewayOf_of_leaderless hspecies hleaders hreference hfault, ends_bind,
      ends_iff_run, enterFirst_mutualHost, hreference]
    rintro _ _ ⟨⟩
    exact Or.inl ⟨_, rfl, by decide, Or.inr ⟨rfl, rfl, rfl⟩⟩
  · have hfault : n.reference.fault? = none := by
      rw [hreference]
      decide
    have hinner : mutualHost.resolveThrough (mutualGateway ⟨["/run/b", "/run/c"]⟩) "/run/c" =
        pure ((Gateway.rootOf ⟨100⟩).below (Path.root.join "/run/c").steps) :=
      mutualHost.resolveThrough_of_plain (fun _ => rfl) rfl (by decide)
    rw [Kernel.gatewayOf_of_leaderless hspecies hleaders hreference hfault, ends_bind,
      ends_iff_run, enterFirst_mutualHost, hreference]
    rintro _ _ ⟨⟩
    rw [andThen_ok]
    unfold Kernel.enterRest Kernel.enterNext
    rw [hinner]
    exact Or.inr ⟨⟨_, rfl⟩, by decide, rfl⟩

/-- The second mount namespace leads back to our own and on to the third. It is visited once, our
own is not visited again, and the third is listed. -/
theorem mutual_mounts_are_visited_once :
    mutualHost.Shows mutualMounts (· = none) MutualShown ∧
    mutualHost.Admits mutualMounts (· = none) MutualShown { options := .standard } ∧
    ∃ (visits : List Identity) (r₁ r : Run (Option Pid)),
      mutualHost.findMounted.run ⟨none, { options := .standard }⟩ = (.ok (), r) ∧
      mutualHost.Visits mutualMounts.opens visits r₁ r ∧
      visits.count ⟨4, 2⟩ = 1 ∧ visits.count ⟨4, 1⟩ = 0 ∧
      r.survey.graph.contains .mount ⟨4, 1⟩ = true ∧
      ⟨4, 3⟩ ∈ r.survey.diagnostics.unreachable := by
  let v : Survey := { options := .standard }
  obtain ⟨visits, r, hrun, ⟨_, r₁, _, htour⟩, hnodup, hvisits, hreachable, hunreachable, _⟩ :=
    every_mount_namespace_is_visited_once mutualHost mutualMounts (· = none) MutualShown v none
      shows_mutualHost (admits_mutualHost v rfl) rfl rfl
  have hgiven : ∀ place id, (∃ m ∈ mutualMounts.entries place,
      Species.parseText? m.root = some (.mount, id.inode) ∧ v.options.includes .mount = true ∧
      mutualMounts.found place m.point = some id ∧ id.hasInode id.inode = true) →
      ∃ m ∈ mutualMounts.entries place, mutualMounts.Gives v.options place m .mount id :=
    fun _ id ⟨m, hm, h⟩ => ⟨m, hm, id.inode, h⟩
  obtain ⟨m₂, hm₂, hgives₂⟩ := hgiven ⟨4, 1⟩ ⟨4, 2⟩ (by decide +kernel)
  obtain ⟨m₁, hm₁, hgives₁⟩ := hgiven ⟨4, 2⟩ ⟨4, 1⟩ (by decide +kernel)
  obtain ⟨m₃, hm₃, hgives₃⟩ := hgiven ⟨4, 2⟩ ⟨4, 3⟩ (by decide +kernel)
  have h₂ : mutualMounts.Reachable v .mount ⟨4, 2⟩ := .home hm₂ hgives₂
  have hinside : ∀ m id, m ∈ mutualMounts.entries ⟨4, 2⟩ →
      mutualMounts.Gives v.options ⟨4, 2⟩ m .mount id → mutualMounts.Reachable v .mount id :=
    fun _ _ hm hgives => .inside h₂ (by decide) (by decide) hm hgives
  refine ⟨shows_mutualHost, admits_mutualHost v rfl, visits, r₁, r, hrun, htour, ?_, ?_, ?_, ?_⟩
  · apply List.count_eq_one_of_mem hnodup
    exact (hvisits _).2 ⟨(hreachable _ _).2 h₂, by decide⟩
  · rw [List.count_eq_zero, hvisits]
    exact fun h => h.2 rfl
  · exact (hreachable _ _).2 (hinside m₁ _ hm₁ hgives₁)
  · rw [hunreachable]
    apply List.mem_append_right
    rw [List.mem_filter, hvisits]
    exact ⟨⟨(hreachable _ _).2 (hinside m₃ _ hm₃ hgives₃), by decide⟩, by decide⟩

end NamespaceAtlas
