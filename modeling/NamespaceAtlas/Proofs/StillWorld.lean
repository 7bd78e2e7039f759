-- Hosts that stand still. A process shows the same files at all times, and so
-- does a sandbox with its number in a mount namespace; so a reference leads to
-- the same file whenever it is followed by way of the same sandboxes.
import NamespaceAtlas.Proofs.Gateway
import NamespaceAtlas.Proofs.View

namespace NamespaceAtlas

variable {σ φ α : Type}

/-! ## Worlds -/

/-- A host whose files stay what they are. -/
structure StillWorld (α : Type) where
  identity : α → Option Identity
  isMount : α → Bool
  /-- What is seen below the root of a sandbox that is attached to a mount namespace. Procfs may
  show files there that have its number. -/
  inside : Pid → α → View α
  /-- What we see ourselves. -/
  home : View α
  /-- What is seen below the root of a process. -/
  ofProcess : Pid → View α
  /-- The file that a path of procfs opens. -/
  inProcfs : Path → Option α
  /-- Whether we may look at the root of the first process. -/
  firstShown : Bool

/-- A path of a reference, and the number of the sandbox that is attached to what it leads to, where
that takes one. -/
abbrev Hop := Path × Pid

namespace StillWorld

variable (W : StillWorld α)

/-- What first paths are taken in. -/
def initial : View α := if W.firstShown then W.ofProcess ⟨1⟩ else W.home

/-- The file that a first path opens. -/
def ofFirst? (p : Path) : Option α :=
  if p.startsWith Path.proc then W.inProcfs p else W.initial.opened p

/-- The view into the mount namespace at a later path. -/
def viewOfNext? (V : View α) (hop : Hop) : Option (View α) :=
  ((V.opened hop.1).filter W.isMount).map (W.inside hop.2)

end StillWorld

namespace Kernel

variable (k : Kernel σ φ) (W : StillWorld α)

/-- The view into the mount namespace at a first path. -/
def viewOfFirst? (hop : Hop) : Option (View α) :=
  ((W.ofFirst? hop.1).filter W.isMount).map fun mount =>
    match k.processOfFirst? hop.1 with
    | some pid => W.ofProcess pid
    | none => W.inside hop.2 mount

/-- The view into the mount namespace that some hops lead to. -/
def viewOf? : List Hop → Option (View α)
  | [] => none
  | hop :: rest => (k.viewOfFirst? W hop).bind fun V => rest.foldlM W.viewOfNext? V

/-- The file that some hops lead to. -/
def fileOf? : List Hop → Option α
  | [] => none
  | [hop] => W.ofFirst? hop.1
  | hop :: next :: rest => (k.viewOf? W (hop :: (next :: rest).dropLast)).bind fun V =>
      V.opened ((next :: rest).getLast (List.cons_ne_nil next rest)).1

variable {k W} in
theorem fileOf?_concat {hops : List Hop} (hhops : hops ≠ []) (last : Hop) :
    k.fileOf? W (hops ++ [last]) = (k.viewOf? W hops).bind (·.opened last.1) := by
  obtain ⟨hop, rest, rfl⟩ := List.exists_cons_of_ne_nil hhops
  cases rest with
  | nil => rfl
  | cons next rest =>
    simp only [List.cons_append, fileOf?]
    simp only [← List.cons_append, List.dropLast_concat, List.getLast_concat]

/-- The answers of a kernel are those of a world that stands still. `of` is the file that an open
one is, and `attached` are the sandboxes with their mount namespaces; all else may change from one
question to the next. -/
structure Presents (of : φ → α) (attached : σ → List (Pid × α)) : Prop where
  quiet : ∀ l, k.Quiet fun st => attached st = l
  identity : ∀ f st, (k.identify f st).1.toOption = W.identity (of f)
  mount : ∀ f st, ((k.speciesOf f).run st).1 = .ok .mount ↔ W.isMount (of f) = true
  home : k.ShowsView of (fun st => attached st = []) .empty W.home
  process : ∀ pid,
    k.ShowsView of (fun st => attached st = []) (Gateway.rootOf pid) (W.ofProcess pid)
  sandbox : ∀ pid mount, k.ShowsView of (fun st => attached st = [(pid, mount)])
    (Gateway.rootOf pid) (W.inside pid mount)
  procfs : ∀ p st, p.startsWith Path.proc = true → attached st = [] →
    (k.openFile p st).1.toOption.map of = W.inProcfs p
  firstShown : ∀ st, attached st = [] →
    (k.linkTarget "/proc/1/root" st).1.toOption.isSome = W.firstShown
  spawn : ∀ f user limit st, W.isMount (of f) = true → (attached st).length ≤ 1 →
    ∃ pid, (k.spawn f user limit st).1 = .ok pid ∧
      attached (k.spawn f user limit st).2 = (pid, of f) :: attached st ∧
      ∀ mount, (pid, mount) ∉ attached st
  release : ∀ pid st, attached (k.release pid st).2 = (attached st).filter (·.1 ≠ pid)

/-- A question for a file comes out as it does in the world. -/
def Opens (of : φ → α) (attached : σ → List (Pid × α)) (a? : Option α) (l : List (Pid × α))
    (outcome : Except Error φ) (st : σ) : Prop :=
  outcome.toOption.map of = a? ∧ attached st = l

/-- Through a gateway a view is seen, while these sandboxes are attached. -/
def Through (of : φ → α) (attached : σ → List (Pid × α)) (g : Gateway) (l : List (Pid × α))
    (V : View α) : Prop :=
  l.map (·.1) = g.sandbox.toList ∧ k.ShowsView of (fun st => attached st = l) g.root V

/-- A gateway that comes out shows a view; where there is none to be seen, none comes out, and these
sandboxes are left. -/
def Arrives (of : φ → α) (attached : σ → List (Pid × α)) (V? : Option (View α))
    (l : List (Pid × α)) : Except Error Gateway → σ → Prop
  | .error _, st => V? = none ∧ attached st = l
  | .ok g, st => ∃ V, V? = some V ∧ k.Through of attached g (attached st) V

/-- The sandbox of a gateway is gone once it is closed. -/
theorem Through.filter_eq_nil {k : Kernel σ φ} {of : φ → α} {attached : σ → List (Pid × α)}
    {g : Gateway} {l : List (Pid × α)} {V : View α} (hg : k.Through of attached g l V) :
    (l.filter fun e => g.sandbox ≠ some e.1) = [] := by
  rw [List.filter_eq_nil_iff]
  intro e he
  have hmem : e.1 ∈ l.map (·.1) := List.mem_map_of_mem he
  rw [hg.1, Option.mem_toList] at hmem
  simp [hmem]

end Kernel

/-! ## Following a reference -/

namespace Kernel.Presents

variable {k : Kernel σ φ} {W : StillWorld α} {of : φ → α} {attached : σ → List (Pid × α)}
  {g : Gateway} {V : View α} {l : List (Pid × α)} {a? : Option α} {st : σ} {reference : Reference}
  {limit : Span} {p : Path}
  (hk : k.Presents W of attached)
include hk

theorem through_own : k.Through of attached (.own reference) [] W.home := ⟨rfl, hk.home⟩

theorem attached_close :
    attached (k.close g st).2 = (attached st).filter fun e => g.sandbox ≠ some e.1 := by
  unfold Kernel.close
  cases g.sandbox with
  | none =>
    rw [List.filter_eq_self.2 (by simp)]
    rfl
  | some pid =>
    change attached (k.release pid st).2 = _
    rw [hk.release]
    congr 1
    funext e
    simp [eq_comm]

theorem close (hg : k.Through of attached g l V) (hst : attached st = l) :
    attached (k.close g st).2 = [] := by
  rw [hk.attached_close, hst, hg.filter_eq_nil]

/-! ### Files -/

theorem ends_openThrough (hg : k.Through of attached g l V) (hst : attached st = l)
    (hp : p.isAbsolute = true) :
    Ends (k.openThrough g p) st (Opens of attached (V.opened p) l) := by
  have habsolute : k.absolute p = pure p := by
    unfold absolute
    rw [if_pos hp]
  unfold openThrough resolveThrough
  rw [habsolute, pure_bind]
  exact hg.2.ends_opened (hk.quiet l) p hst

theorem ends_initialRoot (hst : attached st = []) :
    Ends k.initialRoot st fun outcome st' =>
      (∃ root, outcome = .ok root ∧ k.ShowsView of (fun st => attached st = []) root W.initial) ∧
        attached st' = [] := by
  have hfirst : Gateway.rootOf ⟨1⟩ = "/proc/1/root" := by decide +kernel
  have hshown := hk.firstShown st hst
  have hst' := (hk.quiet []).linkTarget "/proc/1/root" st hst
  unfold initialRoot StillWorld.initial
  rw [ends_bind]
  change andThen _ _ (.ok (k.linkTarget "/proc/1/root" st).1) (k.linkTarget "/proc/1/root" st).2
  rw [andThen_ok, ← hshown]
  cases (k.linkTarget "/proc/1/root" st).1 with
  | ok target => exact ⟨⟨_, rfl, hfirst ▸ hk.process ⟨1⟩⟩, hst'⟩
  | error why => exact ⟨⟨_, rfl, hk.home⟩, hst'⟩

theorem ends_openedInProcfs (hp : p.startsWith Path.proc = true) (hst : attached st = []) :
    Ends (k.opened p) st (Opens of attached (W.inProcfs p) []) := by
  refine ⟨Eq.trans ?_ (hk.procfs p st hp hst), (hk.quiet []).opened p st hst⟩
  change ((k.openFile p st).1.mapError Error.file).toOption.map of = _
  cases (k.openFile p st).1 <;> rfl

theorem ends_initialPath (hst : attached st = []) :
    Ends (k.initialPath p >>= k.opened) st (Opens of attached (W.ofFirst? p) []) := by
  unfold initialPath StillWorld.ofFirst?
  split
  · rename_i hproc
    rw [pure_bind]
    exact hk.ends_openedInProcfs hproc hst
  · rw [bind_assoc, ends_bind]
    refine (hk.ends_initialRoot hst).mono ?_
    rintro _ st₁ ⟨⟨root, rfl, hroot⟩, hst₁⟩
    exact hroot.ends_opened (hk.quiet []) p hst₁

/-- A file that must be a mount namespace opens where it is one. -/
theorem ends_openedMount (reference : Reference) {m : Ask σ Path}
    (h : Ends (m >>= k.opened) st (Opens of attached a? l)) :
    Ends (m >>= k.openedMount reference) st (Opens of attached (a?.filter W.isMount) l) := by
  rw [ends_bind] at h ⊢
  refine h.mono ?_
  rintro (why | q) st₁ hopened
  · obtain ⟨rfl, hst₁⟩ := hopened
    exact ⟨rfl, hst₁⟩
  rw [andThen_ok] at hopened ⊢
  unfold openedMount
  rw [ends_bind]
  refine hopened.mono ?_
  rintro (why | f) st₂ ⟨rfl, hst₂⟩
  · exact ⟨rfl, hst₂⟩
  have hspecies : Ends (k.speciesOf f) st₂ fun species st₃ =>
      (species = .ok .mount ↔ W.isMount (of f) = true) ∧ attached st₃ = l :=
    ⟨hk.mount f st₂, (hk.quiet l).speciesOf f st₂ hst₂⟩
  rw [andThen_ok, ends_bind, ends_caught]
  refine hspecies.mono ?_
  rintro species st₃ ⟨hmount, hst₃⟩
  rw [andThen_ok]
  change Ends _ _ (Opens of attached ((some (of f)).filter W.isMount) l)
  split
  · rw [Option.filter_some, if_pos (hmount.1 rfl)]
    exact ⟨rfl, hst₃⟩
  · rename_i other hother
    rw [Option.filter_some, if_neg fun h => hother (Except.ok.inj (hmount.2 h))]
    exact ⟨rfl, hst₃⟩
  · rw [Option.filter_some, if_neg fun h => nomatch hmount.2 h]
    exact ⟨rfl, hst₃⟩

/-! ### Gateways -/

/-- A sandbox shows the mount namespace that it is attached to, and takes the place of the one
before. -/
theorem ends_enterFile (hg : k.Through of attached g l V) (hst : attached st = l) {f : φ}
    (hf : W.isMount (of f) = true) :
    Ends (k.enterFile g f limit) st fun outcome st' =>
      ∃ pid, k.Arrives of attached (some (W.inside pid (of f))) l outcome st' := by
  have hone : l.length ≤ 1 := by
    have hlength := congrArg List.length hg.1
    rw [List.length_map] at hlength
    rw [hlength]
    cases g.sandbox <;> simp
  have huser : Ends (Ask.sure (k.userToEnter f)) st fun outcome st₁ =>
      (∃ user, outcome = .ok user) ∧ attached st₁ = l :=
    ⟨⟨_, rfl⟩, (hk.quiet l).userToEnter f st hst⟩
  unfold enterFile
  rw [ends_bind]
  refine huser.mono ?_
  rintro _ st₁ ⟨⟨user, rfl⟩, hst₁⟩
  obtain ⟨pid, hpid, hspawned, hfresh⟩ := hk.spawn f user limit st₁ hf (hst₁ ▸ hone)
  have hsandboxed : Ends (k.sandboxed f user limit) st₁ fun outcome st₂ =>
      outcome = .ok pid ∧ attached st₂ = (pid, of f) :: l := by
    unfold sandboxed
    rw [ends_bind]
    change andThen _ _ (.ok (k.spawn f user limit st₁).1) (k.spawn f user limit st₁).2
    rw [andThen_ok, hpid]
    exact ⟨rfl, hspawned.trans (congrArg _ hst₁)⟩
  rw [andThen_ok, ends_bind]
  refine hsandboxed.mono ?_
  rintro _ st₂ ⟨rfl, hst₂⟩
  have hother : g.sandbox ≠ some pid := by
    intro hpid
    have hmem : pid ∈ l.map (·.1) := by
      rw [hg.1, Option.mem_toList]
      exact hpid
    obtain ⟨e, he, rfl⟩ := List.mem_map.1 hmem
    exact hfresh e.2 (hst₁ ▸ he)
  have hclosed : attached (k.close g st₂).2 = [(pid, of f)] := by
    rw [hk.attached_close, hst₂, List.filter_cons_of_pos (by simpa using hother),
      hg.filter_eq_nil]
  refine ⟨pid, W.inside pid (of f), rfl, ?_⟩
  change k.Through of attached _ (attached (k.close g st₂).2) _
  rw [hclosed]
  exact ⟨rfl, hk.sandbox pid (of f)⟩

theorem ends_enterNext (hg : k.Through of attached g l V) (hst : attached st = l)
    (hp : p.isAbsolute = true) :
    Ends (k.enterNext g limit p) st fun outcome st' =>
      ∃ pid, k.Arrives of attached (W.viewOfNext? V (p, pid)) l outcome st' := by
  have hopened : Ends (k.resolveThrough g p >>= k.openedMount g.reference) st
      (Opens of attached ((V.opened p).filter W.isMount) l) :=
    hk.ends_openedMount g.reference (hk.ends_openThrough hg hst hp)
  unfold enterNext StillWorld.viewOfNext?
  dsimp only
  rw [← bind_assoc, ends_bind]
  refine hopened.mono ?_
  rintro (why | f) st₁ ⟨hf, hst₁⟩
  · rw [← hf]
    exact ⟨⟨0⟩, rfl, hst₁⟩
  · obtain ⟨_, hmount⟩ := Option.filter_eq_some_iff.1 hf.symm
    rw [← hf]
    exact hk.ends_enterFile hg hst₁ hmount

theorem ends_enterFirst (hst : attached st = []) :
    Ends (k.enterFirst (.own reference) limit p) st fun outcome st' =>
      ∃ pid, k.Arrives of attached (k.viewOfFirst? W (p, pid)) [] outcome st' := by
  unfold enterFirst viewOfFirst?
  dsimp only
  cases hfirst : k.processOfFirst? p with
  | some pid =>
    have hproc : p.startsWith Path.proc = true :=
      ((k.processOfFirst?_isSome p).1 (hfirst ▸ rfl)).startsWith
    have hmount : Ends (k.openedMount reference p) st
        (Opens of attached ((W.ofFirst? p).filter W.isMount) []) := by
      have h := hk.ends_openedMount reference (hk.ends_initialPath (p := p) hst)
      unfold initialPath at h
      rw [if_pos hproc, pure_bind] at h
      exact h
    rw [ends_bind]
    refine hmount.mono ?_
    rintro (why | f) st₁ ⟨hf, hst₁⟩
    · rw [← hf]
      exact ⟨⟨0⟩, rfl, hst₁⟩
    · rw [← hf]
      refine ⟨⟨0⟩, W.ofProcess pid, rfl, ?_⟩
      change k.Through of attached _ (attached st₁) _
      rw [hst₁]
      exact ⟨rfl, hk.process pid⟩
  | none =>
    have hmount := hk.ends_openedMount reference (hk.ends_initialPath (p := p) hst)
    dsimp only
    change Ends (k.initialPath p >>= fun q => k.openedMount reference q >>= _) st _
    rw [← bind_assoc, ends_bind]
    refine hmount.mono ?_
    rintro (why | f) st₁ ⟨hf, hst₁⟩
    · rw [← hf]
      exact ⟨⟨0⟩, rfl, hst₁⟩
    · obtain ⟨_, hf'⟩ := Option.filter_eq_some_iff.1 hf.symm
      rw [← hf]
      exact hk.ends_enterFile hk.through_own hst₁ hf'

theorem ends_enterRest (hg : k.Through of attached g l V) (hst : attached st = l)
    {paths : List Path} (hpaths : ∀ p ∈ paths, p.isAbsolute = true) :
    Ends (k.enterRest g limit paths) st fun outcome st' =>
      ∃ hops : List Hop, hops.map (·.1) = paths ∧
        k.Arrives of attached (hops.foldlM W.viewOfNext? V) [] outcome st' := by
  induction paths generalizing g l V st with
  | nil => exact ⟨[], rfl, V, rfl, hst ▸ hg⟩
  | cons p rest ih =>
    obtain ⟨hp, hrest⟩ := List.forall_mem_cons.1 hpaths
    unfold enterRest
    rw [ends_bind, ends_caught]
    refine (hk.ends_enterNext hg hst hp).mono ?_
    rintro (why | g') st₁ ⟨pid, hnext⟩
    · obtain ⟨hnone, hst₁⟩ := hnext
      -- Which sandboxes would have come after this one makes no difference.
      refine ⟨(p, pid) :: rest.map (·, pid), by simp [Function.comp_def], ?_, hk.close hg hst₁⟩
      rw [List.foldlM_cons, hnone]
      rfl
    · obtain ⟨V', hV', hg'⟩ := hnext
      rw [andThen_ok]
      refine (ih hg' rfl hrest).mono ?_
      rintro outcome st₂ ⟨hops, hhops, harrives⟩
      refine ⟨(p, pid) :: hops, by rw [List.map_cons, hhops], ?_⟩
      rw [List.foldlM_cons, hV']
      exact harrives

/-- A reference in which nothing is wrong leads to the view that its paths lead to by way of some
sandboxes. -/
theorem ends_gateway (hfault : reference.fault? = none) (hst : attached st = []) :
    Ends (k.gateway reference limit) st fun outcome st' =>
      ∃ hops : List Hop, hops.map (·.1) = reference.paths ∧
        k.Arrives of attached (k.viewOf? W hops) [] outcome st' := by
  unfold gateway
  rw [hfault]
  cases hpaths : reference.paths with
  | nil =>
    unfold Reference.fault? at hfault
    rw [hpaths] at hfault
    cases hfault
  | cons p rest =>
    obtain ⟨-, hrest⟩ := (Reference.fault?_eq_none_iff hpaths).1 hfault
    dsimp only
    rw [ends_bind]
    refine (hk.ends_enterFirst hst).mono ?_
    rintro (why | g) st₁ ⟨pid, hfirst⟩
    · obtain ⟨hnone, hst₁⟩ := hfirst
      refine ⟨(p, pid) :: rest.map (·, pid), by simp [Function.comp_def], ?_, hst₁⟩
      rw [viewOf?, hnone]
      rfl
    · obtain ⟨V, hV, hg⟩ := hfirst
      rw [andThen_ok]
      refine (hk.ends_enterRest hg rfl fun q hq => (hrest q hq).1).mono ?_
      rintro outcome st₂ ⟨hops, hhops, harrives⟩
      refine ⟨(p, pid) :: hops, by rw [List.map_cons, hhops], ?_⟩
      rw [viewOf?, hV]
      exact harrives

/-- What a question opens through a gateway stays open when the gateway is closed. -/
theorem ends_through {m : Ask σ φ} (hg : k.Through of attached g l V)
    (hm : Ends m st (Opens of attached a? l)) :
    Ends (k.through g m) st (Opens of attached a? []) := by
  unfold through
  rw [ends_bind, ends_caught]
  refine hm.mono ?_
  rintro outcome st₁ ⟨ha, hst₁⟩
  exact ⟨ha, hk.close hg hst₁⟩

/-- A reference in which nothing is wrong opens the file that its paths lead to by way of some
sandboxes, and no sandbox is left. -/
theorem ends_openedReference (hfault : reference.fault? = none) (hst : attached st = []) :
    Ends (k.openedReference reference limit) st fun outcome st' =>
      ∃ hops : List Hop, hops.map (·.1) = reference.paths ∧
        Opens of attached (k.fileOf? W hops) [] outcome st' := by
  unfold openedReference
  cases hpaths : reference.paths with
  | nil =>
    unfold Reference.fault? at hfault
    rw [hpaths] at hfault
    cases hfault
  | cons p rest =>
    obtain ⟨hp, hrest⟩ := (Reference.fault?_eq_none_iff hpaths).1 hfault
    rw [hfault]
    cases rest with
    | nil =>
      refine (hk.ends_initialPath hst).mono ?_
      exact fun outcome st' hopens => ⟨[(p, ⟨0⟩)], rfl, hopens⟩
    | cons q rest =>
      have hfault' : (Reference.mk (p :: (q :: rest).dropLast)).fault? = none :=
        (Reference.fault?_eq_none_iff rfl).2
          ⟨hp, fun p hp => hrest p (List.dropLast_subset _ hp)⟩
      have hlast := hrest _ (List.getLast_mem (List.cons_ne_nil q rest))
      dsimp only
      rw [ends_bind]
      refine (hk.ends_gateway hfault' hst).mono ?_
      rintro outcome st₁ ⟨hops, hhops, hgate⟩
      let last : Hop := ((q :: rest).getLast (List.cons_ne_nil q rest), ⟨0⟩)
      have hall : (hops ++ [last]).map (·.1) = p :: q :: rest := by
        rw [List.map_append, hhops]
        exact congrArg (p :: ·) (List.dropLast_concat_getLast _)
      have hnil : hops ≠ [] := by
        rintro rfl
        cases hhops
      rcases outcome with why | g
      · obtain ⟨hnone, hst₁⟩ := hgate
        refine ⟨_, hall, ?_, hst₁⟩
        rw [fileOf?_concat hnil, hnone]
        rfl
      · obtain ⟨V, hV, hg⟩ := hgate
        rw [andThen_ok]
        refine (hk.ends_through hg (hk.ends_openThrough hg rfl hlast.1)).mono ?_
        rintro outcome st₂ hopens
        refine ⟨_, hall, ?_⟩
        rw [fileOf?_concat hnil, hV]
        exact hopens

end Kernel.Presents

end NamespaceAtlas
