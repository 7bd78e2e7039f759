-- Mounted namespaces are found again. On a host that stands still the reference
-- under which one is recorded opens the same file again, and there are mount
-- points where no reference leads.
import NamespaceAtlas.Proofs.Discovery.Recalled

namespace NamespaceAtlas

variable {σ φ α : Type}

/-! ## The law -/

/-- A reference opens a file with this identity, whenever no sandbox is attached and with any limit,
and leaves no sandbox behind. -/
def Kernel.Reopens (k : Kernel σ φ) (attached : σ → List (Pid × α)) (r : Reference)
    (id : Identity) : Prop :=
  ∀ limit st, attached st = [] → ∃ f st',
    (k.openedReference r limit).run st = (.ok f, st') ∧ attached st' = [] ∧
    ∀ later, (k.identify f later).1 = .ok id

/-- A reference leads to the same file, whichever sandboxes are taken on its way. -/
def Kernel.OpensAlike (k : Kernel σ φ) (W : StillWorld α) (r : Reference) : Prop :=
  ∀ hops hops' : List Hop, hops.map (·.1) = r.paths → hops'.map (·.1) = r.paths →
    k.fileOf? W hops = k.fileOf? W hops'

/-- A reference that leads to a file with an identity, by way of any sandboxes, reopens it. -/
theorem Kernel.Presents.reopens {k : Kernel σ φ} {W : StillWorld α} {of : φ → α}
    {attached : σ → List (Pid × α)} (hk : k.Presents W of attached) {r : Reference} {a : α}
    {id : Identity} {hops : List Hop} (hfault : r.fault? = none) (halike : k.OpensAlike W r)
    (hhops : hops.map (·.1) = r.paths) (ha : k.fileOf? W hops = some a)
    (hid : W.identity a = some id) : k.Reopens attached r id := by
  intro limit st hst
  have hopens : Ends (k.openedReference r limit) st
      (Kernel.Opens of attached (some a) []) := by
    refine (hk.ends_openedReference hfault hst).mono ?_
    rintro outcome st' ⟨hops', hhops', hopens⟩
    rwa [halike hops' hops hhops' hhops, ha] at hopens
  rw [ends_iff_run] at hopens
  rcases hrun : (k.openedReference r limit).run st with ⟨_ | f, st'⟩
  · cases (hopens _ _ hrun).1
  · obtain ⟨hf, hst'⟩ := hopens _ _ hrun
    obtain rfl : of f = a := Option.some.inj hf
    refine ⟨f, st', rfl, hst', fun later => ?_⟩
    have hidentity := (hk.identity f later).trans hid
    cases hanswer : (k.identify f later).1 with
    | error why =>
      rw [hanswer] at hidentity
      cases hidentity
    | ok id' =>
      rw [hanswer] at hidentity
      exact congrArg Except.ok (Option.some.inj hidentity)

/-- Where sandboxes see the same whatever their numbers are, every reference does so. -/
theorem Kernel.opensAlike_of_inside {k : Kernel σ φ} {W : StillWorld α}
    (h : ∀ pid pid' mount, W.inside pid mount = W.inside pid' mount) (r : Reference) :
    k.OpensAlike W r := by
  let plain (hop : Hop) : Hop := (hop.1, ⟨0⟩)
  have hinside : ∀ pid, W.inside ⟨0⟩ = W.inside pid := fun pid => funext fun mount => h ⟨0⟩ pid mount
  have hnext : (fun V hop => W.viewOfNext? V (plain hop)) = W.viewOfNext? := by
    funext V hop
    unfold StillWorld.viewOfNext?
    rw [← hinside hop.2]
  have hfirst : ∀ hop, k.viewOfFirst? W (plain hop) = k.viewOfFirst? W hop := by
    intro hop
    unfold Kernel.viewOfFirst?
    rw [← hinside hop.2]
  have hview : ∀ hops : List Hop, k.viewOf? W (hops.map plain) = k.viewOf? W hops := by
    rintro (_ | ⟨hop, rest⟩)
    · rfl
    · rw [List.map_cons, Kernel.viewOf?, Kernel.viewOf?, hfirst]
      simp only [List.foldlM_map, hnext]
  have hfile : ∀ hops : List Hop, k.fileOf? W (hops.map plain) = k.fileOf? W hops := by
    intro hops
    rcases List.eq_nil_or_concat hops with rfl | ⟨_ | ⟨hop, rest⟩, last, rfl⟩
    · rfl
    · rfl
    · rw [List.concat_eq_append, List.map_append, List.map_singleton,
        Kernel.fileOf?_concat (by simp), Kernel.fileOf?_concat (by simp), hview]
  -- Without the numbers there are only the paths of the reference.
  have hplain : ∀ hops : List Hop, hops.map (·.1) = r.paths → hops.map plain = r.paths.map (·, ⟨0⟩) :=
    fun hops hhops => by rw [← hhops, List.map_map]; rfl
  intro hops hops' hhops hhops'
  rw [← hfile hops, ← hfile hops', hplain hops hhops, hplain hops' hhops']

/-- Where no link and no `..` is on the way, our own view finds below procfs what procfs has there. -/
theorem Kernel.Presents.inProcfs_of_plain {k : Kernel σ φ} {W : StillWorld α} {of : φ → α}
    {attached : σ → List (Pid × α)} (hk : k.Presents W of attached) {point : Path} {st : σ}
    (hst : attached st = []) (hproc : point.startsWith Path.proc = true)
    (hpoint : Path.empty.below point.steps = point)
    (hplain : W.home.resolved point linkLimit [] point.steps = .ok point.steps) :
    W.home.opened point = W.inProcfs point := by
  have hfile := hk.home.file point.steps st (fun _ => Path.isStep_of_mem_steps) hst
  unfold View.opened
  rw [hplain, ← hk.procfs point st hproc hst, ← hpoint]
  rw [hpoint] at hfile ⊢
  exact hfile.symm

/-- The line of a mount table for a mounted namespace. -/
def boundLine (root point : String) : String :=
  "40 35 0:4 " ++ root ++ " " ++ point ++ " rw - nsfs nsfs rw"

/-- The mount of that line. -/
def boundMount (root point : String) : Mount :=
  ⟨40, 35, 0, 4, root, Path.ofText point, "rw", [], "nsfs", "nsfs", "rw"⟩

/-- The mount of a line is read from a table of this line, for each line that a host shows below. -/
theorem mounts_boundLine :
    ∀ mount ∈ [("mnt:[2]", "/run/b"), ("mnt:[2]", "/proc/b"), ("uts:[3]", "/run/c"),
      ("uts:[3]", "/proc/d"), ("uts:[3]", "run/c"), ("uts:[3]", "/proc/9/cwd/c"),
      ("user:[3]", "/x")],
      (Mount.ofTable (Bytes.ofText (boundLine mount.1 mount.2))).filter Mount.isNamespace =
        [boundMount mount.1 mount.2] := by
  decide +kernel

/-- The namespaces that the roots of those mounts name. -/
theorem parseText?_roots :
    ∀ root ∈ [("mnt:[2]", Species.mount, 2), ("uts:[3]", .uts, 3), ("user:[3]", .user, 3)],
      Species.parseText? root.1 = some root.2 := by
  decide +kernel

/-- A number for a sandbox while there is one other at most: 101 if 100 was given out before. -/
def freeNumber (given : Bool) (l : List (Pid × Identity)) : Pid :=
  if l.any (·.1 = ⟨101⟩) then ⟨100⟩
  else if given || l.any (·.1 = ⟨100⟩) then ⟨101⟩
  else ⟨100⟩

theorem notMem_freeNumber (given : Bool) {l : List (Pid × Identity)} (hl : l.length ≤ 1)
    (mount : Identity) : (freeNumber given l, mount) ∉ l := by
  intro hmem
  obtain ⟨⟨pid, other⟩, rfl⟩ :=
    List.length_eq_one_iff.1 (le_antisymm hl (List.length_pos_of_mem hmem))
  have hpid : freeNumber given [(pid, other)] = pid :=
    congrArg Prod.fst (List.mem_singleton.1 hmem)
  unfold freeNumber at hpid
  by_cases hlast : pid = ⟨101⟩
  · subst hlast
    cases hpid
  rw [if_neg (by simpa using hlast)] at hpid
  split at hpid
  · exact hlast hpid.symm
  · rename_i hfree
    subst hpid
    simp at hfree

/-- A host where a mount namespace is mounted in our own, and something else at a point inside that.
All that is opened outside is the one, and what is opened while a sandbox is attached depends on the
number of the sandbox alone. The state says whether there was a sandbox, and which are attached. -/
def boundHost (point : String) (inner : Pid → Identity) :
    Kernel (Bool × List (Pid × Identity)) Identity :=
  { Kernel.plain with
    contents := fun _ => do
      let line :=
        if (← get).2.isEmpty then boundLine "mnt:[2]" "/run/b" else boundLine "uts:[3]" point
      return .ok (Bytes.ofText line)
    openFile := fun _ => return .ok ((← get).2.head?.elim ⟨4, 2⟩ fun e => inner e.1)
    identify := fun f => return .ok f
    speciesFlag := fun f =>
      return .ok (if f = ⟨4, 2⟩ then Species.mount.flag else Species.uts.flag)
    spawn := fun f _ _ => do
      let (given, attached) ← get
      let pid := freeNumber given attached
      set (true, (pid, f) :: attached)
      return .ok pid
    release := fun pid => modify fun st => (st.1, st.2.filter (·.1 ≠ pid)) }

/-- What this host shows. -/
def boundWorld (inner : Pid → Identity) : StillWorld Identity where
  identity := some
  isMount id := id = ⟨4, 2⟩
  inside pid _ := ⟨fun _ => .ok .plain, fun _ => some (inner pid)⟩
  home := ⟨fun _ => .ok .plain, fun _ => some ⟨4, 2⟩⟩
  ofProcess _ := ⟨fun _ => .ok .plain, fun _ => some ⟨4, 2⟩⟩
  inProcfs _ := some ⟨4, 2⟩
  firstShown := false

/-- The gateway into the mounted mount namespace, by way of a sandbox with this number. -/
def boundGateway (pid : Pid) : Gateway where
  reference := .single "/run/b"
  root := Gateway.rootOf pid
  pid := some pid
  sandbox := some pid
  spawned := 1

/-- What is known of this host when our own mount table has been read. -/
def boundSurvey : Survey :=
  Survey.sighted { options := .standard } .mount ⟨4, 2⟩ (.single "/run/b") none

section

variable (point : String) (inner : Pid → Identity)

/-- A namespace has the species that its flag says. -/
theorem speciesOf_boundHost (f : Identity) (st : Bool × List (Pid × Identity)) :
    (((boundHost point inner).speciesOf f).run st).1 = .ok .mount ↔
      (boundWorld inner).isMount f = true := by
  by_cases hf : f = ⟨4, 2⟩
  · subst hf
    exact ⟨fun _ => rfl, fun _ => rfl⟩
  · have huts : (boundHost point inner).speciesFlag f = pure (.ok Species.uts.flag) :=
      congrArg (fun flag => pure (Except.ok flag)) (if_neg hf)
    unfold Kernel.speciesOf
    rw [huts]
    exact ⟨nofun, fun h => absurd (of_decide_eq_true h) hf⟩

/-- All that is opened is what the state says. -/
theorem openFile_boundHost {l : List (Pid × Identity)} (p : Path)
    {st : Bool × List (Pid × Identity)} (h : st.2 = l) :
    ((boundHost point inner).openFile p st).1.toOption.map id =
      some (l.head?.elim ⟨4, 2⟩ fun e => inner e.1) := by
  subst h
  rfl

theorem presents_boundHost : (boundHost point inner).Presents (boundWorld inner) id Prod.snd where
  quiet l := by constructor <;> first | exact fun _ h => h | exact fun _ _ h => h
  identity _ _ := rfl
  mount f st := speciesOf_boundHost point inner f st
  home := ⟨fun _ _ _ _ => rfl, fun _ _ _ h => openFile_boundHost point inner _ h⟩
  process _ := ⟨fun _ _ _ _ => rfl, fun _ _ _ h => openFile_boundHost point inner _ h⟩
  sandbox _ _ := ⟨fun _ _ _ _ => rfl, fun _ _ _ h => openFile_boundHost point inner _ h⟩
  procfs p _ _ h := openFile_boundHost point inner p h
  firstShown _ _ := rfl
  spawn _ _ _ st _ hone := ⟨_, rfl, rfl, notMem_freeNumber st.1 hone⟩
  release _ _ := rfl

theorem hasProcfs_boundHost : (boundHost point inner).HasProcfs (boundWorld inner) Prod.snd where
  caller := View.SharedBy.refl
  callerMount := rfl
  mount _ a h := by cases h; rfl
  first _ _ _ _ _ _ _ := View.SharedBy.refl

variable {point inner} {root place : String} {g : Gateway} {s : Species} {inode : UInt64}
  {id : Identity}

theorem ends_openedMountPoint_boundHost {st : Bool × List (Pid × Identity)}
    (hplain : Path.parentName ∉ (Path.root.join (Path.ofText place)).steps)
    (hid : ∀ p, Ends ((boundHost point inner).opened p) st fun outcome st' =>
      outcome = .ok id ∧ st' = st) :
    Ends ((boundHost point inner).openedMountPoint g (boundMount root place)) st
      fun outcome st' => outcome = .ok (id, id) ∧ st' = st := by
  have hresolved : (boundHost point inner).resolveThrough g (Path.ofText place) =
      pure (g.root.below (Path.root.join (Path.ofText place)).steps) :=
    (boundHost point inner).resolveThrough_of_plain (fun _ => rfl) rfl hplain
  unfold Kernel.openedMountPoint Kernel.openedNamespace
  rw [boundMount, hresolved, pure_bind, ends_bind]
  refine (hid _).mono ?_
  rintro _ st ⟨rfl, rfl⟩
  exact ⟨rfl, rfl⟩

theorem reportedOwner_boundHost (s : Species) (id : Identity)
    (st : Bool × List (Pid × Identity)) :
    (boundHost point inner).reportedOwner s id st = (none, st) := by
  unfold Kernel.reportedOwner
  split
  · rfl
  · rfl

/-- A look at a table with one new namespace records it. -/
theorem ends_findMountedIn_boundHost {r : Run (Bool × List (Pid × Identity))}
    (hcontents : (boundHost point inner).contents g.tablePath r.kernel =
      (.ok (Bytes.ofText (boundLine root place)), r.kernel))
    (hmounts : (Mount.ofTable (Bytes.ofText (boundLine root place))).filter Mount.isNamespace =
      [boundMount root place])
    (hroot : Species.parseText? root = some (s, inode))
    (hplain : Path.parentName ∉ (Path.root.join (Path.ofText place)).steps)
    (hid : ∀ p, Ends ((boundHost point inner).opened p) r.kernel fun outcome st =>
      outcome = .ok id ∧ st = r.kernel)
    (hinode : id.hasInode inode = true) (hlimit : r.survey.options.limit = none)
    (hs : r.survey.options.includes s = true) (hnew : r.survey.graph.contains s id = false) :
    Ends ((boundHost point inner).findMountedIn g) r fun outcome r' =>
      outcome = .ok (if s = .mount then [id] else []) ∧
        r' = ⟨r.kernel, r.survey.sighted s id (g.reference.join (Path.ofText place)) none⟩ :=
  Kernel.ends_findMountedIn_of_one hcontents hmounts hroot
    (ends_openedMountPoint_boundHost hplain hid) (reportedOwner_boundHost s id r.kernel) hinode
    hlimit hs hnew

theorem ends_lookAtHome_boundHost :
    Ends ((boundHost point inner).lookAtHome ⟨4, 1⟩) ⟨(false, []), { options := .standard }⟩
      fun outcome r => outcome = .ok [⟨4, 2⟩] ∧ r = ⟨(false, []), boundSurvey⟩ := by
  have hmounts := mounts_boundLine ("mnt:[2]", "/run/b") (by decide)
  have hroot := parseText?_roots ("mnt:[2]", .mount, 2) (by decide)
  have hid : ∀ p, Ends ((boundHost point inner).opened p) (false, []) fun outcome st =>
      outcome = .ok ⟨4, 2⟩ ∧ st = (false, []) := fun _ => ⟨rfl, rfl⟩
  have hreference : (boundHost point inner).ownReference ⟨4, 1⟩ (false, []) =
      (.empty, (false, [])) := rfl
  have hown : Ends ((boundHost point inner).identityAt "/proc/self/ns/mnt") (false, [])
      fun _ st => st = (false, []) := rfl
  have hlook : Ends ((boundHost point inner).findMountedIn (.own .empty))
      ⟨(false, []), { options := .standard }⟩ _ :=
    ends_findMountedIn_boundHost rfl hmounts hroot (by decide) hid rfl rfl rfl rfl
  exact Kernel.ends_lookAtHome hown hreference hlook

/-- The number of the sandbox is the first that is free. -/
theorem enterFirst_boundHost (given : Bool) (limit : Span) :
    ((boundHost point inner).enterFirst (.own (.single "/run/b")) limit "/run/b").run
        (given, []) =
      (.ok (boundGateway (freeNumber given [])),
        (true, [(freeNumber given [], ⟨4, 2⟩)])) := by
  have hprocess : Path.process? "/run/b" = none := by decide
  have hnone : (boundHost point inner).processOfFirst? "/run/b" = none := by
    unfold Kernel.processOfFirst?
    rw [hprocess]
  have hpath : (boundHost point inner).initialPath "/run/b" = pure (Path.ofText "/run/b") := by
    unfold Kernel.initialPath
    exact (boundHost point inner).resolveIn_of_plain (fun _ => rfl) (by decide)
  unfold Kernel.enterFirst
  rw [hnone, hpath]
  rfl

theorem ends_gateway_boundHost (given : Bool) (limit : Span) :
    Ends ((boundHost point inner).gateway (.single "/run/b") limit) (given, []) fun outcome st =>
      outcome = .ok (boundGateway (freeNumber given [])) ∧
        st = (true, [(freeNumber given [], ⟨4, 2⟩)]) := by
  have hfault : (Reference.single "/run/b").fault? = none := by decide
  unfold Kernel.gateway
  rw [hfault]
  change Ends ((boundHost point inner).enterFirst (.own (.single "/run/b")) limit "/run/b" >>= _) _ _
  rw [ends_bind, ends_iff_run]
  intro outcome st hrun
  cases (enterFirst_boundHost given limit).symm.trans hrun
  exact ⟨rfl, rfl⟩

/-- The search records what is mounted in the mounted mount namespace. -/
theorem ends_findMounted_boundHost (hinner : inner ⟨100⟩ = ⟨4, 3⟩)
    (hmounts : (Mount.ofTable (Bytes.ofText (boundLine "uts:[3]" point))).filter
      Mount.isNamespace = [boundMount "uts:[3]" point])
    (hplain : Path.parentName ∉ (Path.root.join (Path.ofText point)).steps) :
    Ends (boundHost point inner).findMounted ⟨(false, []), { options := .standard }⟩ fun _ r =>
      r.kernel = (true, []) ∧ ∃ n, r.survey.graph.get? .uts ⟨4, 3⟩ = some n ∧
        n.reference = ⟨["/run/b", Path.ofText point]⟩ := by
  have hown : Ends ((boundHost point inner).identityAt "/proc/self/ns/mnt") (false, [])
      fun outcome _ => outcome = .ok ⟨4, 1⟩ := rfl
  have hknown : boundSurvey.graph.get? .mount ⟨4, 2⟩ =
      some (.new .mount ⟨4, 2⟩ (.single "/run/b")) :=
    (Survey.get?_sighted_new rfl).trans (if_pos ⟨rfl, rfl⟩)
  have hgate : Ends ((boundHost point inner).gatewayOf (.new .mount ⟨4, 2⟩ (.single "/run/b"))
      boundSurvey.processes boundSurvey.options.attachLimit) (false, []) _ :=
    ends_gateway_boundHost false _
  have hroot := parseText?_roots ("uts:[3]", .uts, 3) (by decide)
  have hid : ∀ p, Ends ((boundHost point inner).opened p) (true, [(⟨100⟩, ⟨4, 2⟩)])
      fun outcome st => outcome = .ok ⟨4, 3⟩ ∧ st = (true, [(⟨100⟩, ⟨4, 2⟩)]) :=
    fun _ => ⟨congrArg Except.ok hinner, rfl⟩
  have hinside : Ends ((boundHost point inner).findMountedIn (boundGateway ⟨100⟩))
      ⟨(true, [(⟨100⟩, ⟨4, 2⟩)]), boundSurvey.countSandboxes (boundGateway ⟨100⟩)⟩ _ :=
    ends_findMountedIn_boundHost rfl hmounts hroot hplain hid rfl rfl rfl rfl
  refine (Kernel.ends_findMounted_of_one hown rfl ends_lookAtHome_boundHost rfl (by decide)
    hknown hgate hinside).mono ?_
  rintro _ _ ⟨-, rfl⟩
  exact ⟨rfl, _, (Survey.get?_sighted_new rfl).trans (if_pos ⟨rfl, rfl⟩), rfl⟩

theorem ledBelow_standard (W : StillWorld Identity) :
    Survey.LedBelow { options := .standard } W := by
  intro id n p hn
  rw [Graph.get?_empty] at hn
  cases hn

end

/-- A namespace is recorded under a reference that opens nothing. -/
def RefusedAt (point : String) (why : ReferenceFault) : Prop :=
  let k := boundHost point fun _ => ⟨4, 3⟩
  Ends k.findMounted ⟨(false, []), { options := .standard }⟩ fun _ r =>
    ∃ n, r.survey.graph.get? .uts ⟨4, 3⟩ = some n ∧ ∀ limit st,
      (k.openedReference n.reference limit).run st = (.error (n.reference.invalid why), st)

theorem refusedAt_of_fault {point : String} {why : ReferenceFault}
    (hmounts : (Mount.ofTable (Bytes.ofText (boundLine "uts:[3]" point))).filter
      Mount.isNamespace = [boundMount "uts:[3]" point])
    (hplain : Path.parentName ∉ (Path.root.join (Path.ofText point)).steps)
    (hfault : Reference.fault? ⟨["/run/b", Path.ofText point]⟩ = some why) :
    RefusedAt point why := by
  have hrecord := @ends_findMounted_boundHost point (fun _ => ⟨4, 3⟩) rfl hmounts hplain
  obtain ⟨-, n, hn, hreference⟩ := hrecord
  refine ⟨n, hn, fun limit st => ?_⟩
  rw [hreference]
  unfold Kernel.openedReference
  rw [hfault]
  rfl

/-- A namespace is recorded under a reference that opens another one. -/
def Kernel.Misleads (k : Kernel (Bool × List (Pid × Identity)) Identity) (r : Reference) : Prop :=
  Ends k.findMounted ⟨(false, []), { options := .standard }⟩ fun _ run =>
    ∃ n, run.survey.graph.get? .uts ⟨4, 3⟩ = some n ∧ n.reference = r ∧
      ∀ limit, ((k.openedReference r limit).run run.kernel).1 = .ok ⟨4, 5⟩

/-- The file that is open in the first sandbox, and the one that is open in those after it. -/
def innerByNumber (pid : Pid) : Identity := if pid = ⟨100⟩ then ⟨4, 3⟩ else ⟨4, 5⟩

/-- The sandbox that is taken to open the reference sees another file than the one before. -/
theorem misleads_boundHost :
    (boundHost "/run/c" innerByNumber).Misleads ⟨["/run/b", "/run/c"]⟩ := by
  have hrecord := @ends_findMounted_boundHost "/run/c" innerByNumber rfl
    (mounts_boundLine ("uts:[3]", "/run/c") (by decide)) (by decide)
  refine hrecord.mono ?_
  rintro _ ⟨_, _⟩ ⟨rfl, n, hn, hreference⟩
  refine ⟨n, hn, hreference, fun limit => ?_⟩
  have hfault : Reference.fault? ⟨["/run/b", "/run/c"]⟩ = none := by decide
  have hresolved : (boundHost "/run/c" innerByNumber).resolveThrough (boundGateway ⟨101⟩)
      "/run/c" = pure ((boundGateway ⟨101⟩).root.below (Path.root.join "/run/c").steps) :=
    Kernel.resolveThrough_of_plain _ (fun _ => rfl) rfl (by decide)
  change Ends ((boundHost "/run/c" innerByNumber).openedReference ⟨["/run/b", "/run/c"]⟩ limit)
    (true, []) fun outcome _ => outcome = .ok ⟨4, 5⟩
  unfold Kernel.openedReference
  rw [hfault]
  dsimp only
  rw [ends_bind]
  refine Ends.mono (ends_gateway_boundHost true limit) ?_
  rintro _ _ ⟨rfl, rfl⟩
  rw [andThen_ok]
  unfold Kernel.through Kernel.openThrough
  rw [ends_bind, ends_caught]
  change Ends ((boundHost "/run/c" innerByNumber).resolveThrough (boundGateway ⟨101⟩)
    "/run/c" >>= _) _ _
  rw [hresolved, pure_bind]
  rfl

/-! ### A link of procfs -/

/-- What stands at some names: `cwd` is a link to the root for each process. -/
def linkedSight (names : List Name) : Sight :=
  if names.getLast? = some (Bytes.ofText "cwd") then .link .root else .plain

/-- The files: mount namespaces under `mnt`, one UTS namespace behind those links, and another one
anywhere else. -/
def linkedFile (names : List Name) : Identity :=
  if names.getLast? = some (Bytes.ofText "mnt") then ⟨4, 2⟩
  else if Bytes.ofText "cwd" ∈ names then ⟨4, 5⟩
  else ⟨4, 3⟩

/-- A host where the links of procfs lead elsewhere than they say. Our own mount table lists a mount
point behind one. -/
def linkedHost : Kernel (Bool × List (Pid × Identity)) Identity :=
  { boundHost "/run/c" fun _ => ⟨4, 3⟩ with
    contents := fun _ => return .ok (Bytes.ofText (boundLine "uts:[3]" "/proc/9/cwd/c"))
    isLink := fun p => return .ok (linkedSight p.steps ≠ .plain)
    linkTarget := fun _ => return .ok .root
    openFile := fun p => return .ok (linkedFile p.steps) }

/-- What is seen below a root on this host. -/
def linkedView (root : Path) : View Identity where
  look names := .ok (linkedSight (root.below names).steps)
  file names := some (linkedFile (root.below names).steps)

/-- What this host shows. -/
def linkedWorld : StillWorld Identity where
  identity := some
  isMount id := id = ⟨4, 2⟩
  inside pid _ := linkedView (Gateway.rootOf pid)
  home := linkedView .empty
  ofProcess pid := linkedView (Gateway.rootOf pid)
  inProcfs p := some (linkedFile p.steps)
  firstShown := true

theorem look_linkedHost (p : Path) (st : Bool × List (Pid × Identity)) :
    linkedHost.look p st = (.ok (linkedSight p.steps), st) := by
  by_cases hlink : p.steps.getLast? = some (Bytes.ofText "cwd")
  · have hsight : linkedSight p.steps = .link .root := if_pos hlink
    have htold : linkedHost.isLink p = pure (.ok true) :=
      congrArg (fun b => pure (Except.ok b)) (decide_eq_true (hsight ▸ nofun))
    unfold Kernel.look
    rw [htold, hsight]
    rfl
  · have hsight : linkedSight p.steps = .plain := if_neg hlink
    have htold : linkedHost.isLink p = pure (.ok false) :=
      congrArg (fun b => pure (Except.ok b)) (decide_eq_false (not_not.2 hsight))
    unfold Kernel.look
    rw [htold, hsight]
    rfl

theorem showsView_linkedHost (root : Path) (holds : Bool × List (Pid × Identity) → Prop) :
    linkedHost.ShowsView id holds root (linkedView root) where
  look names st _ _ := by
    rw [look_linkedHost]
    rfl
  file _ _ _ _ := rfl

theorem presents_linkedHost : linkedHost.Presents linkedWorld id Prod.snd where
  quiet l := by constructor <;> first | exact fun _ h => h | exact fun _ _ h => h
  identity _ _ := rfl
  mount f st := speciesOf_boundHost "/run/c" (fun _ => ⟨4, 3⟩) f st
  home := showsView_linkedHost _ _
  process pid := showsView_linkedHost _ _
  sandbox pid _ := showsView_linkedHost _ _
  procfs _ _ _ _ := rfl
  firstShown _ _ := rfl
  spawn _ _ _ st _ hone := ⟨_, rfl, rfl, notMem_freeNumber st.1 hone⟩
  release _ _ := rfl

/-- Below the root of a process all is as we see it. -/
theorem sharedBy_linkedView {root : Path} (hroot : root.bytes ≠ [])
    (hlast : root.steps.getLast? = some (Bytes.ofText "root"))
    (hcwd : Bytes.ofText "cwd" ∉ root.steps) :
    (linkedView .empty).SharedBy (linkedView root) := by
  have hsteps : ∀ names : List Name, (∀ s ∈ names, Path.IsStep s) →
      (root.below names).steps = root.steps ++ names ∧ (Path.empty.below names).steps = names :=
    fun names hnames =>
      ⟨(Path.steps_below hnames).trans (by rw [if_neg hroot]), Path.steps_below hnames⟩
  have hend : ∀ (names : List Name) (name : Name), name ≠ Bytes.ofText "root" →
      ((root.steps ++ names).getLast? = some name ↔ names.getLast? = some name) := by
    intro names name hname
    rw [List.getLast?_append, hlast]
    cases names.getLast? with
    | none => simp [Ne.symm hname]
    | some _ => rfl
  refine View.SharedBy.of_agree (fun names hnames => ?_) fun names hnames => ?_
  · obtain ⟨hbelow, hown⟩ := hsteps names hnames
    simp only [linkedView, linkedSight, hbelow, hown, hend names (Bytes.ofText "cwd") (by decide)]
  · obtain ⟨hbelow, hown⟩ := hsteps names hnames
    simp only [linkedView, linkedFile, hbelow, hown, hend names (Bytes.ofText "mnt") (by decide),
      List.mem_append, hcwd, false_or]

theorem hasProcfs_linkedHost : linkedHost.HasProcfs linkedWorld Prod.snd where
  caller := sharedBy_linkedView (by decide +kernel) (by decide +kernel) (by decide +kernel)
  callerMount := rfl
  mount pid a h := by
    have hlast : (Path.proc.ofNamespace pid .mount).steps.getLast? = some (Bytes.ofText "mnt") := by
      unfold Path.steps
      rw [Path.parts_mountOf]
      rfl
    obtain rfl : (⟨4, 2⟩ : Identity) = a := (if_pos hlast).symm.trans (Option.some.inj h)
    rfl
  first _ _ _ _ _ _ _ :=
    sharedBy_linkedView (by decide +kernel) (by decide +kernel) (by decide +kernel)

/-- We follow the link by its text. -/
theorem opened_linkedWorld : linkedWorld.home.opened "/proc/9/cwd/c" = some ⟨4, 3⟩ := by
  have hlink : linkedWorld.home.look
      ([] ++ [Bytes.ofText "proc"] ++ [Bytes.ofText "9"] ++ [Bytes.ofText "cwd"]) =
        .ok (.link .root) := by
    decide
  have hsteps : Path.steps "/proc/9/cwd/c" =
      [Bytes.ofText "proc", Bytes.ofText "9", Bytes.ofText "cwd", Bytes.ofText "c"] := by
    decide
  have hresolved : linkedWorld.home.resolved "/proc/9/cwd/c" linkLimit []
      (Path.steps "/proc/9/cwd/c") = .ok [Bytes.ofText "c"] := by
    rw [hsteps, View.resolved_of_passes (by decide) (.inl (by decide)),
      View.resolved_of_passes (by decide) (.inl (by decide)),
      View.resolved_name (by decide), hlink]
    dsimp only
    rw [if_neg (by decide +kernel)]
    change linkedWorld.home.resolved "/proc/9/cwd/c" 39 [] [Bytes.ofText "c"] = _
    rw [View.resolved_of_passes (by decide) (.inl (by decide))]
    unfold View.resolved resolveNames
    rfl
  unfold View.opened
  rw [hresolved]
  decide

theorem ends_openedMountPoint_linkedHost :
    Ends (linkedHost.openedMountPoint (.own .empty) (boundMount "uts:[3]" "/proc/9/cwd/c"))
      (false, []) fun outcome st => outcome = .ok (⟨4, 3⟩, ⟨4, 3⟩) ∧ st = (false, []) := by
  have hquiet : linkedHost.Quiet (· = (false, [])) := by
    constructor <;> first | exact fun _ h => h | exact fun _ _ h => h
  have hopens : Ends (linkedHost.openThrough (.own .empty) "/proc/9/cwd/c") (false, [])
      (Kernel.Opens id Prod.snd (linkedWorld.home.opened "/proc/9/cwd/c") []) :=
    presents_linkedHost.ends_openThrough presents_linkedHost.through_own rfl (by decide)
  rw [opened_linkedWorld] at hopens
  refine ⟨?_, hquiet.openedMountPoint _ _ _ rfl⟩
  change Ends (linkedHost.openedMountPoint _ _) _ fun outcome _ => outcome = .ok (⟨4, 3⟩, ⟨4, 3⟩)
  rw [Kernel.openedMountPoint_eq, ends_bind]
  refine hopens.mono ?_
  rintro (why | f) st ⟨hf, -⟩
  · cases hf
  · cases hf
    rfl

theorem misleads_linkedHost : linkedHost.Misleads (.single "/proc/9/cwd/c") := by
  have hown : Ends (linkedHost.identityAt "/proc/self/ns/mnt") (false, [])
      fun outcome _ => outcome = .ok ⟨4, 1⟩ := rfl
  have hown' : Ends (linkedHost.identityAt "/proc/self/ns/mnt") (false, [])
      fun _ st => st = (false, []) := rfl
  have hmounts := mounts_boundLine ("uts:[3]", "/proc/9/cwd/c") (by decide)
  have hroot := parseText?_roots ("uts:[3]", .uts, 3) (by decide)
  have howner : linkedHost.reportedOwner .uts ⟨4, 3⟩ (false, []) = (none, (false, [])) := rfl
  have hlook : Ends (linkedHost.findMountedIn (.own .empty))
      ⟨(false, []), { options := .standard }⟩ _ :=
    Kernel.ends_findMountedIn_of_one rfl hmounts hroot ends_openedMountPoint_linkedHost howner rfl rfl
      rfl rfl
  apply Kernel.ends_findMounted hown
  refine (Kernel.ends_lookAtHome hown' rfl hlook).mono ?_
  rintro _ _ ⟨rfl, rfl⟩
  rw [andThen_ok]
  change Ends (linkedHost.visitAll _ _ []) _ _
  rw [Kernel.visitAll, ends_pure]
  exact ⟨_, (Survey.get?_sighted_new rfl).trans (if_pos ⟨rfl, rfl⟩), rfl, fun limit => rfl⟩

end NamespaceAtlas
