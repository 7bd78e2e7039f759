-- What the search for mounts records. A mounted namespace gets the reference of
-- the mount namespace whose table lists it, and then the mount point; where a
-- reference may end there, some way along it leads to the namespace.
import NamespaceAtlas.Proofs.Discovery.Addressed
import NamespaceAtlas.Proofs.Discovery.Mounted

namespace NamespaceAtlas

variable {σ φ α : Type}

/-! ## References of views -/

/-- A reference may end in a mount point that is absolute. One below procfs has to be all there is of
the reference, and what our own view opens there procfs has to open too. -/
def StillWorld.MayEnd (W : StillWorld α) (base : Reference) (point : Path) : Prop :=
  point.isAbsolute = true ∧ (point.startsWith Path.proc = true →
    base = .empty ∧ ∀ a, W.home.opened point = some a → W.inProcfs point = some a)

namespace Kernel

variable (k : Kernel σ φ) (W : StillWorld α)

/-- Procfs at `/proc` shows the caller as what it is, and mount namespaces as what they are. Where
the first process is in our mount namespace it has our root. -/
structure HasProcfs (attached : σ → List (Pid × α)) : Prop where
  caller : W.home.SharedBy (W.ofProcess k.caller)
  callerMount : (W.inProcfs (Path.proc.ofNamespace k.caller .mount)).isSome
  mount : ∀ pid a, W.inProcfs (Path.proc.ofNamespace pid .mount) = some a → W.isMount a = true
  first : ∀ own st st', attached st = [] → attached st' = [] →
    ((k.identityAt "/proc/self/ns/mnt").run st).1 = .ok own →
    ((k.identityAt "/proc/1/ns/mnt").run st').1.toOption = some own →
      W.home.SharedBy (W.ofProcess ⟨1⟩)

/-- A reference reaches a view: some hops along it lead to a view that shares it. That without paths
reaches our own, where the initial one shares it. -/
def Reaches (base : Reference) (V : View α) : Prop :=
  (base = .empty ∧ V = W.home ∧ W.home.SharedBy W.initial) ∨
    base.fault? = none ∧ ∃ (hops : List Hop) (V' : View α),
      hops.map (·.1) = base.paths ∧ k.viewOf? W hops = some V' ∧ V.SharedBy V'

/-- A reference is made of one that is sound and of a mount point, and if it may end there, some hops
along it lead to a namespace. -/
def Recalls (r : Reference) (id : Identity) : Prop :=
  ∃ (base : Reference) (point : Path), r = base.join point ∧ (W.MayEnd base point →
    r.fault? = none ∧ ∃ (hops : List Hop) (a : α),
      hops.map (·.1) = r.paths ∧ k.fileOf? W hops = some a ∧ W.identity a = some id)

variable {k W}

/-- What is seen in a view that is addressed is found again. -/
theorem Reaches.recalls {base : Reference} {V : View α} {point : Path} {id : Identity}
    (h : k.Reaches W base V)
    (hopened : point.isAbsolute = true → ∃ a, V.opened point = some a ∧ W.identity a = some id) :
    k.Recalls W (base.join point) id := by
  refine ⟨base, point, rfl, fun ⟨habsolute, hproc⟩ => ?_⟩
  obtain ⟨a, ha, hid⟩ := hopened habsolute
  rcases h with ⟨rfl, rfl, hinitial⟩ | ⟨hfault, hops, V', hhops, hV', hshared⟩
  · have hfault : (Reference.empty.join point).fault? = none :=
      (Reference.fault?_eq_none_iff rfl).2 ⟨habsolute, nofun⟩
    refine ⟨hfault, [(point, ⟨0⟩)], a, rfl, ?_, hid⟩
    change W.ofFirst? point = some a
    unfold StillWorld.ofFirst?
    split
    · exact (hproc ‹_›).2 a ha
    · exact hinitial point a habsolute (Bool.eq_false_iff.2 ‹_›) ha
  · have hproc' : point.startsWith Path.proc = false := by
      rw [← Bool.not_eq_true]
      intro hbelow
      rw [(hproc hbelow).1] at hfault
      cases hfault
    have hnil : hops ≠ [] := by
      rintro rfl
      cases hV'
    refine ⟨Reference.fault?_join hfault habsolute hproc', hops ++ [(point, ⟨0⟩)], a, ?_, ?_, hid⟩
    · rw [List.map_append, hhops]
      rfl
    · rw [fileOf?_concat hnil, hV']
      exact hshared point a habsolute hproc' ha

namespace HasProcfs

variable {attached : σ → List (Pid × α)} (h : k.HasProcfs W attached)
include h

/-- What the root of a process shows is reached by the path of its mount namespace. -/
theorem reaches_process {pid : Pid} {V : View α}
    (hfile : (W.inProcfs (Path.proc.ofNamespace pid .mount)).isSome)
    (hshared : V.SharedBy (W.ofProcess pid)) :
    k.Reaches W (.single (Path.proc.ofNamespace pid .mount)) V := by
  have hin := Path.isInProcfs_ofNamespace pid .mount
  obtain ⟨a, ha⟩ := Option.isSome_iff_exists.1 hfile
  refine Or.inr ⟨(Reference.fault?_eq_none_iff rfl).2 ⟨hin.isAbsolute, nofun⟩,
    [(Path.proc.ofNamespace pid .mount, ⟨0⟩)], W.ofProcess pid, rfl, ?_, hshared⟩
  change (k.viewOfFirst? W (Path.proc.ofNamespace pid .mount, ⟨0⟩)).bind some = _
  unfold viewOfFirst? StillWorld.ofFirst?
  rw [if_pos hin.startsWith, ha, Option.filter_some, if_pos (h.mount pid a ha),
    processOfFirst?_mountOf]
  rfl

/-- Our own mount namespace is reached by its reference. -/
theorem reaches_ownReference {own : Identity} {st st' : σ} (hst : attached st = [])
    (hst' : attached st' = [])
    (hown : ((k.identityAt "/proc/self/ns/mnt").run st).1 = .ok own) :
    k.Reaches W (k.ownReference own st').1 W.home := by
  change k.Reaches W (if ((k.identityAt "/proc/1/ns/mnt").run st').1.toOption = some own then
    .empty else .single (Path.proc.ofNamespace k.caller .mount)) W.home
  split
  · rename_i hinitial
    refine Or.inl ⟨rfl, rfl, ?_⟩
    unfold StillWorld.initial
    split
    · exact h.first own st st' hst hst' hown hinitial
    · exact View.SharedBy.refl
  · exact h.reaches_process h.callerMount h.caller

end HasProcfs

end Kernel

/-! ## What is found -/

/-- `w` comes from `v` by looks at mount tables: each namespace that was not known is recorded under
a reference that leads to it. -/
structure Kernel.Finding (k : Kernel σ φ) (W : StillWorld α) (v w : Survey) : Prop where
  processes : w.processes = v.processes
  record : ∀ s id n, w.graph.get? s id = some n →
    v.graph.get? s id = some n ∨ n.leaders = [] ∧ k.Recalls W n.reference id

namespace Kernel.Finding

variable {k : Kernel σ φ} {W : StillWorld α} {v w : Survey} {s : Species} {id : Identity}
  {r : Reference}

theorem refl : k.Finding W v v where
  processes := rfl
  record _ _ _ hn := Or.inl hn

/-- What is put to the account changes nothing of this. -/
theorem account {w' : Survey} (h : k.Finding W v w) (hgraph : w'.graph = w.graph)
    (hprocesses : w'.processes = w.processes) : k.Finding W v w' where
  processes := hprocesses.trans h.processes
  record s id n hn := h.record s id n (hgraph ▸ hn)

theorem sighted (h : k.Finding W v w) (hnew : w.graph.contains s id = false)
    (hr : k.Recalls W r id) (owner : Option Identity) :
    k.Finding W v (w.sighted s id r owner) where
  processes := h.processes
  record t i n hn := by
    rw [Survey.get?_sighted_new hnew] at hn
    split at hn
    · rename_i heq
      obtain ⟨rfl, rfl⟩ := heq
      cases hn
      exact Or.inr ⟨rfl, hr⟩
    · exact h.record t i n hn

end Kernel.Finding

/-! ## Looking at one table -/

/-- A mount point is opened as any file in a mount namespace, and identified. -/
theorem Kernel.openedMountPoint_eq (k : Kernel σ φ) (g : Gateway) (m : Mount) :
    k.openedMountPoint g m = k.openThrough g m.point >>= fun f =>
      k.identityOf f >>= fun id => pure (id, f) := by
  unfold openedMountPoint openThrough openedNamespace
  rw [bind_assoc]

namespace Kernel.Presents

variable {k : Kernel σ φ} {W : StillWorld α} {of : φ → α} {attached : σ → List (Pid × α)}
  {g : Gateway} {V : View α} {l : List (Pid × α)} {v : Survey} {st : σ}
  (hk : k.Presents W of attached) (hprocfs : k.HasProcfs W attached)
include hk

theorem ends_openedMountPoint (hg : k.Through of attached g l V) (hst : attached st = l)
    (m : Mount) :
    Ends (k.openedMountPoint g m) st fun outcome st' => attached st' = l ∧
      ∀ id f, outcome = .ok (id, f) → m.point.isAbsolute = true →
        ∃ a, V.opened m.point = some a ∧ W.identity a = some id := by
  by_cases hpoint : m.point.isAbsolute = true
  swap
  · exact ⟨(hk.quiet l).openedMountPoint g m st hst, fun _ _ _ h => absurd h hpoint⟩
  rw [openedMountPoint_eq, ends_bind]
  refine (hk.ends_openThrough hg hst hpoint).mono ?_
  rintro (why | f) st₁ ⟨hf, hst₁⟩
  · exact ⟨hst₁, nofun⟩
  rw [andThen_ok, ends_bind]
  have hidentity : Ends (k.identityOf f) st₁ fun outcome st₂ =>
      outcome.toOption = W.identity (of f) ∧ attached st₂ = l := by
    refine ⟨Eq.trans ?_ (hk.identity f st₁), (hk.quiet l).identityOf f st₁ hst₁⟩
    change ((k.identify f st₁).1.mapError Error.file).toOption = _
    cases (k.identify f st₁).1 <;> rfl
  refine hidentity.mono ?_
  rintro (why | id) st₂ ⟨hid, hst₂⟩
  · exact ⟨hst₂, nofun⟩
  · refine ⟨hst₂, fun id' f' heq _ => ?_⟩
    cases heq
    exact ⟨of f, hf.symm, hid.symm⟩

variable (hg : k.Through of attached g l V) (hV : k.Reaches W g.reference V)
include hg hV

theorem keeps_findMountedAt (m : Mount) (s : Species) (inode : UInt64) :
    Keeps (fun r : Run σ => attached r.kernel = l ∧ k.Finding W v r.survey)
      (k.findMountedAt g m s inode).run := by
  apply Keeps.of_ends
  rintro r ⟨hst, hfound⟩
  unfold findMountedAt
  rw [ends_bind, ends_attempt]
  refine (hk.ends_openedMountPoint hg hst m).mono ?_
  rintro (why | ⟨id, f⟩) st' ⟨hst', hopened⟩
  · exact ⟨hst', hfound.account rfl rfl⟩
  have hid := hopened id f rfl
  rw [andThen_ok]
  dsimp only
  split
  · exact ⟨hst', hfound.account rfl rfl⟩
  · rw [ends_bind, ends_survey, andThen_ok]
    split
    · exact ⟨hst', hfound⟩
    · rename_i hnew
      have hst'' : attached (k.reportedOwner s f st').2 = l :=
        (hk.quiet l).reportedOwner s f st' hst'
      exact ⟨hst'', hfound.sighted (Bool.eq_false_iff.2 hnew) (hV.recalls hid) _⟩

theorem keeps_findMountedIn :
    Keeps (fun r : Run σ => attached r.kernel = l ∧ k.Finding W v r.survey)
      (k.findMountedIn g).run := by
  apply Keeps.findMountedIn ((Keeps.asks ((hk.quiet l).contents _)).and Keeps.asking)
  · exact fun _ => Keeps.change fun r h => ⟨h.1, h.2.account rfl rfl⟩
  · intro m
    apply Keeps.lookAtMount fun phase =>
      ((hk.quiet l).checkTime phase).and (Keeps.checkingTime phase)
    intro s inode r _ h
    exact hk.keeps_findMountedAt hg hV m s inode r h

/-! ## Looking at all tables -/

omit hg hV in
include hprocfs in
theorem ends_gatewayOf {n : Namespace} {t : ProcessTable} (limit : Span)
    (hled : ∀ p, n.ealdorman? t = some p →
      n.reference = .single (Path.proc.ofNamespace p.pid .mount) ∧
        (W.inProcfs (Path.proc.ofNamespace p.pid .mount)).isSome)
    (hst : attached st = []) :
    Ends (k.gatewayOf n t limit) st fun outcome st' =>
      match outcome with
      | .error _ => attached st' = []
      | .ok g => ∃ V, k.Reaches W g.reference V ∧ k.Through of attached g (attached st') V := by
  unfold gatewayOf
  by_cases hmount : n.species = .mount
  · simp only [hmount, ne_eq, not_true, if_false]
    cases hp : n.ealdorman? t with
    | some p =>
      obtain ⟨hreference, hopens⟩ := hled p hp
      refine ⟨W.ofProcess p.pid, ?_, ?_⟩
      · change k.Reaches W n.reference _
        rw [hreference]
        exact hprocfs.reaches_process hopens View.SharedBy.refl
      · change k.Through of attached _ (attached st) _
        rw [hst]
        exact ⟨rfl, hk.process p.pid⟩
    | none =>
      cases hfault : n.reference.fault? with
      | some why =>
        unfold gateway
        rw [hfault]
        exact hst
      | none =>
        have hboth : Ends (k.gateway n.reference limit) st fun outcome st' =>
            Leads n.reference outcome st' ∧ ∃ hops : List Hop, hops.map (·.1) = n.reference.paths ∧
              k.Arrives of attached (k.viewOf? W hops) [] outcome st' :=
          ⟨leads_gateway, hk.ends_gateway hfault hst⟩
        refine hboth.mono ?_
        rintro (why | g) st' ⟨hreference, hops, hhops, harrives⟩
        · exact harrives.2
        · obtain ⟨V, hV, hg⟩ := harrives
          refine ⟨V, ?_, hg⟩
          rw [show g.reference = n.reference from hreference]
          exact Or.inr ⟨hfault, hops, V, hhops, hV, View.SharedBy.refl⟩
  · simp only [hmount, ne_eq, not_false_eq_true, if_true]
    exact hst

variable (hled : v.LedBelow W)
omit hg hV
include hprocfs hled

theorem keeps_visit (id : Identity) :
    Keeps (fun r : Run σ => attached r.kernel = [] ∧ k.Finding W v r.survey) (k.visit id).run := by
  apply Keeps.of_ends
  rintro r ⟨hst, hfound⟩
  cases hn : r.survey.graph.get? .mount id with
  | none =>
    unfold visit
    rw [ends_bind, ends_survey, andThen_ok, hn]
    exact ⟨hst, hfound⟩
  | some n =>
    have hgate := hk.ends_gatewayOf hprocfs (n := n) (t := r.survey.processes)
      r.survey.options.attachLimit ?_ hst
    · rw [ends_iff_run] at hgate
      refine ends_visit hn (fun why st hrun => ?_) fun g st outcome r' hrun hlook => ?_
      · exact ⟨hgate _ _ hrun, hfound.account rfl rfl⟩
      · obtain ⟨V, hV, hg⟩ := hgate _ _ hrun
        have hkept := hk.keeps_findMountedIn (v := v) hg hV
          ⟨st, r.survey.countSandboxes g⟩ ⟨rfl, hfound.account rfl rfl⟩
        rw [show (k.findMountedIn g).run ⟨st, r.survey.countSandboxes g⟩ = (outcome, r') from hlook]
          at hkept
        exact ⟨hk.close hg hkept.1, hkept.2⟩
    · intro p hp
      rw [hfound.processes] at hp
      rcases hfound.record .mount id n hn with hold | ⟨hleaders, _⟩
      · exact hled id n p hold hp
      · unfold Namespace.ealdorman? at hp
        rw [hleaders] at hp
        cases hp

/-- Whatever becomes of the search, what it has found can be found again. -/
theorem keeps_findMounted :
    Keeps (fun r : Run σ => attached r.kernel = [] ∧ k.Finding W v r.survey) k.findMounted.run := by
  apply Keeps.of_ends
  rintro ⟨st, w⟩ ⟨hst, hfound⟩
  have hown : Ends (k.identityAt "/proc/self/ns/mnt") st fun outcome st₁ =>
      ((k.identityAt "/proc/self/ns/mnt").run st).1 = outcome ∧ attached st₁ = [] :=
    ⟨rfl, (hk.quiet []).identityAt _ st hst⟩
  unfold findMounted
  rw [ends_bind, ends_attempt]
  refine hown.mono ?_
  rintro (why | own) st₁ ⟨hanswer, hst₁⟩
  · exact ⟨hst₁, hfound.account rfl rfl⟩
  have hV := hprocfs.reaches_ownReference hst hst₁ hanswer
  have hst₂ := (hk.quiet []).ownReference own st₁ hst₁
  rw [andThen_ok, ends_bind, ends_sure, andThen_ok, ends_bind, ends_survey, andThen_ok]
  dsimp only
  revert hV hst₂
  rcases k.ownReference own st₁ with ⟨reference, st₂⟩
  intro hV hst₂
  apply Keeps.ends_bind (hk.keeps_findMountedIn hk.through_own hV)
    (show attached st₂ = [] ∧ k.Finding W v w from ⟨hst₂, hfound⟩)
  · exact fun _ _ h => h
  · intro found r h
    exact Keeps.visitAll
      (fun phase => ((hk.quiet []).checkTime phase).and (Keeps.checkingTime phase))
      (hk.keeps_visit hprocfs hled) _ _ _ r h

end Kernel.Presents

end NamespaceAtlas
