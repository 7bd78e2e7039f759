-- Open files of processes. A world says which names stand in each directory, in
-- no order, and what the files there lead to; it settles which namespaces a
-- search finds and what it counts, in whatever order the names are listed.
import Mathlib.Algebra.Order.Group.Multiset
import NamespaceAtlas.Host.Answers
import NamespaceAtlas.Proofs.Discovery.MountWorld

namespace NamespaceAtlas

variable {σ φ : Type}

/-- The open files of a host, and what they lead to. -/
structure FileWorld where
  /-- The names in a directory, where it can be read. -/
  listing : Path → Option (Multiset Name)
  /-- Where a link leads. -/
  target : Path → Option Path
  /-- What is found when a file is opened. -/
  found : Path → Option Identity
  /-- The owner that is reported of what is found there. -/
  owner : Path → Option Identity

namespace FileWorld

variable (W : FileWorld)

/-- The directory with the open files of a process. -/
def directory (o : Options) (pid : Pid) : Path := (o.procfs.ofProcess pid).join "fd"

/-- The open files of a process, if they can be listed. -/
def filesOf (o : Options) (pid : Pid) : Multiset Path :=
  ((W.listing (directory o pid)).getD 0).map (directory o pid).child

/-- The open files of the processes of a survey. -/
def files (v : Survey) : Multiset Path := (v.processes.pids.map (W.filesOf v.options)).sum

/-- How many processes of a survey have open files that cannot be listed. -/
def unlisted (v : Survey) : Nat :=
  v.processes.pids.countP fun pid => (W.listing (directory v.options pid)).isNone

/-- The species in scope that the link of a file names. -/
def species? (o : Options) (file : Path) : Option Species :=
  ((W.target file).bind Path.species?).filter o.includes

/-- A file holds a namespace: the link names a species in scope, and the file can be opened. -/
def Holds (o : Options) (file : Path) (s : Species) (id : Identity) : Prop :=
  W.species? o file = some s ∧ W.found file = some id

/-- A file cannot be opened though its link names a species in scope. -/
def Dangles (o : Options) (file : Path) : Prop :=
  (W.species? o file).isSome = true ∧ W.found file = none

instance (o : Options) : DecidablePred (W.Dangles o) := fun _ => inferInstanceAs (Decidable (_ ∧ _))

/-- The owner that is reported of a namespace that a file holds. -/
def reported (s : Species) (file : Path) : Option Identity :=
  if s = .user then none else W.owner file

/-- The owner that is reported belongs to the namespace: it is the same whichever file holds it. -/
def OneOwner : Prop :=
  ∀ file file', W.found file ≠ none → W.found file = W.found file' → W.owner file = W.owner file'

/-! ## What a search adds -/

/-- The account with so many more directories that cannot be listed, and with the files among these
that cannot be opened. -/
def counted (o : Options) (directories : Nat) (files : Multiset Path) (d : Diagnostics) :
    Diagnostics :=
  { d with
    skippedFileLists := d.skippedFileLists + directories
    skippedFiles := d.skippedFiles + files.countP (W.Dangles o) }

/-- `w` comes from `v` by a search of some files and of directories of which so many cannot be
listed. -/
structure Searched (directories : Nat) (files : Multiset Path) (v w : Survey) : Prop where
  rest : ∃ g, w =
    { v with graph := g, diagnostics := W.counted v.options directories files v.diagnostics }
  known : ∀ s id, w.graph.contains s id = true ↔
    v.graph.contains s id = true ∨ ∃ file ∈ files, W.Holds v.options file s id
  kept : ∀ s id n, v.graph.get? s id = some n → w.graph.get? s id = some n
  new : ∀ s id n, w.graph.get? s id = some n → v.graph.get? s id = some n ∨
    ∃ file ∈ files, W.Holds v.options file s id ∧
      n = { Namespace.new s id (.single file) with ownerId := W.reported s file }

variable {W} {directories directories' : Nat} {files files' : Multiset Path} {file : Path}
  {u v w : Survey} {s : Species} {id : Identity}

theorem Holds.not_dangles (h : W.Holds v.options file s id) : ¬ W.Dangles v.options file := by
  rintro ⟨_, hgone⟩
  rw [h.2] at hgone
  cases hgone

theorem countP_singleton_of_not (h : ¬ W.Dangles v.options file) :
    ({file} : Multiset Path).countP (W.Dangles v.options) = 0 :=
  Multiset.countP_eq_zero.2 fun _ hx => Multiset.mem_singleton.1 hx ▸ h

namespace Searched

/-- Where the files hold nothing but what is known, they are counted and nothing more. -/
theorem stay
    (h : ∀ file ∈ files, ∀ s id, W.Holds v.options file s id → v.graph.contains s id = true) :
    W.Searched directories files v (v.mapDiagnostics (W.counted v.options directories files)) where
  rest := ⟨v.graph, rfl⟩
  known s id := by
    constructor
    · exact Or.inl
    · rintro (hid | ⟨file, hfile, hholds⟩)
      · exact hid
      · exact h file hfile s id hholds
  kept _ _ _ hn := hn
  new _ _ _ hn := Or.inl hn

theorem nil : W.Searched 0 0 v v := stay fun _ h => absurd h (Multiset.notMem_zero _)

/-- A directory that cannot be listed. -/
theorem skipFileList : W.Searched 1 0 v v.skipFileList :=
  stay fun _ h => absurd h (Multiset.notMem_zero _)

theorem trans (h : W.Searched directories files u v) (h' : W.Searched directories' files' v w) :
    W.Searched (directories + directories') (files + files') u w := by
  obtain ⟨g, hv⟩ := h.rest
  have hoptions : v.options = u.options := by rw [hv]
  constructor
  · obtain ⟨g', hw⟩ := h'.rest
    refine ⟨g', ?_⟩
    rw [hw, hoptions, hv]
    unfold counted
    rw [Multiset.countP_add, ← Nat.add_assoc, ← Nat.add_assoc]
  · intro s id
    rw [h'.known, h.known, hoptions]
    simp only [Multiset.mem_add, or_and_right, exists_or, or_assoc]
  · exact fun s id n hn => h'.kept s id n (h.kept s id n hn)
  · intro s id n hn
    rcases h'.new s id n hn with hn | ⟨file, hfile, hholds, hrecord⟩
    · rcases h.new s id n hn with hn | ⟨file, hfile, hholds, hrecord⟩
      · exact Or.inl hn
      · exact Or.inr ⟨file, Multiset.mem_add.2 (Or.inl hfile), hholds, hrecord⟩
    · rw [hoptions] at hholds
      exact Or.inr ⟨file, Multiset.mem_add.2 (Or.inr hfile), hholds, hrecord⟩

/-- A file that holds nothing but what is known. -/
theorem pass (hgone : ¬ W.Dangles v.options file)
    (h : ∀ s id, W.Holds v.options file s id → v.graph.contains s id = true) :
    W.Searched 0 {file} v v := by
  have hcount : v.mapDiagnostics (W.counted v.options 0 {file}) = v := by
    unfold counted
    rw [countP_singleton_of_not hgone]
    rfl
  have hstay : W.Searched 0 {file} v (v.mapDiagnostics (W.counted v.options 0 {file})) :=
    stay fun x hx => Multiset.mem_singleton.1 hx ▸ h
  rwa [hcount] at hstay

/-- A file that cannot be opened. -/
theorem skipFile (hgone : W.Dangles v.options file) : W.Searched 0 {file} v v.skipFile := by
  have hcount : v.mapDiagnostics (W.counted v.options 0 {file}) = v.skipFile := by
    unfold counted
    rw [Multiset.countP_eq_card.2 fun x hx => Multiset.mem_singleton.1 hx ▸ hgone]
    rfl
  have hstay : W.Searched 0 {file} v (v.mapDiagnostics (W.counted v.options 0 {file})) := by
    refine stay fun x hx s id hholds => ?_
    rw [Multiset.mem_singleton.1 hx] at hholds
    exact absurd hgone hholds.not_dangles
  rwa [hcount] at hstay

/-- A file that holds a namespace that is not known. -/
theorem sighted (hholds : W.Holds v.options file s id) (hnew : v.graph.contains s id = false) :
    W.Searched 0 {file} v (v.sighted s id (.single file) (W.reported s file)) where
  rest := by
    refine ⟨(v.sighted s id (.single file) (W.reported s file)).graph, ?_⟩
    unfold counted
    rw [countP_singleton_of_not hholds.not_dangles]
    rfl
  known t i := by
    rw [Survey.contains_sighted, Graph.contains_insertNew, or_comm]
    refine or_congr_right ⟨?_, ?_⟩
    · rintro ⟨rfl, rfl⟩
      exact ⟨file, Multiset.mem_singleton_self file, hholds⟩
    · rintro ⟨x, hx, hspecies, hfound⟩
      rw [Multiset.mem_singleton.1 hx] at hspecies hfound
      exact ⟨Option.some.inj (hholds.1.symm.trans hspecies),
        Option.some.inj (hholds.2.symm.trans hfound)⟩
  kept t i n hn := by
    rw [Survey.get?_sighted_new hnew, if_neg]
    · exact hn
    · rintro ⟨rfl, rfl⟩
      rw [Graph.get?_of_contains_eq_false hnew] at hn
      cases hn
  new t i n hn := by
    rw [Survey.get?_sighted_new hnew] at hn
    split at hn
    · rename_i heq
      obtain ⟨rfl, rfl⟩ := heq
      exact Or.inr ⟨file, Multiset.mem_singleton_self file, hholds, (Option.some.inj hn).symm⟩
    · exact Or.inl hn

/-- A namespace that comes in is recorded at a file that holds it. -/
theorem exists_file {n : Namespace} (h : W.Searched directories files v w)
    (hnew : v.graph.contains s id = false) (hn : w.graph.get? s id = some n) :
    ∃ file ∈ files, W.Holds v.options file s id ∧
      n = { Namespace.new s id (.single file) with ownerId := W.reported s file } := by
  refine (h.new s id n hn).resolve_left fun hold => ?_
  rw [Graph.get?_of_contains_eq_false hnew] at hold
  cases hold

/-- The owner of a namespace that comes in is the one that is reported at any of its files. -/
theorem ownerId_eq_reported (hone : W.OneOwner) (h : W.Searched directories files v w)
    (hnew : v.graph.contains s id = false) (hfile : file ∈ files)
    (hholds : W.Holds v.options file s id) :
    (w.graph.get? s id).bind (·.ownerId) = W.reported s file := by
  obtain ⟨n, hn⟩ := Graph.contains_iff.1 ((h.known s id).2 (Or.inr ⟨file, hfile, hholds⟩))
  obtain ⟨file', _, hholds', rfl⟩ := h.exists_file hnew hn
  have hfound : W.found file' = W.found file := hholds'.2.trans hholds.2.symm
  rw [hn, Option.bind_some]
  unfold reported
  rw [hone file' file (by simp [hholds'.2]) hfound]

theorem diagnostics_eq (h : W.Searched directories files v w)
    (h' : W.Searched directories files v u) : u.diagnostics = w.diagnostics := by
  obtain ⟨g, rfl⟩ := h.rest
  obtain ⟨g', rfl⟩ := h'.rest
  rfl

theorem contains_eq (h : W.Searched directories files v w) (h' : W.Searched directories files v u)
    (s : Species) (id : Identity) : u.graph.contains s id = w.graph.contains s id := by
  rw [Bool.eq_iff_iff, h.known, h'.known]

/-- Where one namespace has one owner, two searches of the same files come to the same owners. -/
theorem ownerId_eq (hone : W.OneOwner) (h : W.Searched directories files v w)
    (h' : W.Searched directories files v u) (s : Species) (id : Identity) :
    (u.graph.get? s id).bind (·.ownerId) = (w.graph.get? s id).bind (·.ownerId) := by
  cases hold : v.graph.contains s id with
  | true =>
    obtain ⟨n, hn⟩ := Graph.contains_iff.1 hold
    rw [h.kept s id n hn, h'.kept s id n hn]
  | false =>
    cases hw : w.graph.contains s id with
    | true =>
      obtain ⟨file, hfile, hholds⟩ := ((h.known s id).1 hw).resolve_left (by simp [hold])
      rw [h.ownerId_eq_reported hone hold hfile hholds,
        h'.ownerId_eq_reported hone hold hfile hholds]
    | false =>
      have hu : u.graph.contains s id = false := (contains_eq h h' s id).trans hw
      rw [Graph.get?_of_contains_eq_false hw, Graph.get?_of_contains_eq_false hu]

end Searched

end FileWorld

/-! ## Kernels that show a world -/

/-- Wherever it is `calm`, the answers of a kernel are those of a world. It may list the names in a
directory in any order, and in another one each time. -/
structure Kernel.ShowsFiles (k : Kernel σ φ) (W : FileWorld) (calm : σ → Prop) : Prop where
  listing : ∀ dir st, calm st →
    (k.listing dir st).1.toOption.map Multiset.ofList = W.listing dir ∧ calm (k.listing dir st).2
  target : ∀ file st, calm st →
    (k.linkTarget file st).1.toOption = W.target file ∧ calm (k.linkTarget file st).2
  found : ∀ file st, calm st → Ends (k.openedNamespace file) st fun outcome st' =>
    outcome.toOption.map (·.1) = W.found file ∧ calm st' ∧
      ∀ id f, outcome = .ok (id, f) → Ends (k.ownerOf f) st' fun owner st'' =>
        owner.toOption = W.owner file ∧ calm st''

/-- How a search of some files ends. -/
def FileWorld.Ended (W : FileWorld) (calm : σ → Prop) (directories : Nat) (files : Multiset Path)
    (v : Survey) (outcome : Except Error Unit) (r : Run σ) : Prop :=
  outcome = .ok () ∧ calm r.kernel ∧ W.Searched directories files v r.survey

namespace Kernel.ShowsFiles

variable {k : Kernel σ φ} {W : FileWorld} {calm : σ → Prop} {r : Run σ} {s : Species}
  {file : Path} {pid : Pid}

theorem ends_sight {id : Identity} {f : φ} (howner : Ends (k.ownerOf f) r.kernel fun owner st =>
      owner.toOption = W.owner file ∧ calm st) (h : calm r.kernel)
    (hholds : W.Holds r.survey.options file s id) (hnew : r.survey.graph.contains s id = false) :
    Ends (k.sight s id f (.single file)) r (W.Ended calm 0 {file} r.survey) := by
  have hreported : (k.reportedOwner s f r.kernel).1 = W.reported s file ∧
      calm (k.reportedOwner s f r.kernel).2 := by
    unfold reportedOwner FileWorld.reported
    split
    · exact ⟨rfl, h⟩
    · exact howner
  unfold sight
  rw [ends_bind, ends_sure, andThen_ok, hreported.1]
  exact ⟨rfl, hreported.2, .sighted hholds hnew⟩

theorem ends_findHeldAt (hk : k.ShowsFiles W calm) (h : calm r.kernel)
    (hs : W.species? r.survey.options file = some s) :
    Ends (k.findHeldAt s file) r (W.Ended calm 0 {file} r.survey) := by
  unfold findHeldAt
  rw [ends_bind, ends_attempt]
  refine (hk.found file r.kernel h).mono ?_
  rintro outcome st ⟨hfound, hst, howner⟩
  rw [andThen_ok]
  cases outcome with
  | error why =>
    refine ⟨rfl, hst, .skipFile ⟨?_, hfound.symm⟩⟩
    rw [hs]
    rfl
  | ok x =>
    obtain ⟨id, f⟩ := x
    have hholds : W.Holds r.survey.options file s id := ⟨hs, hfound.symm⟩
    dsimp only
    rw [ends_bind, ends_survey, andThen_ok]
    split
    · rename_i hknown
      refine ⟨rfl, hst, .pass (fun hgone => ?_) fun t i hi => ?_⟩
      · rw [hgone.2] at hfound
        cases hfound
      · obtain rfl := Option.some.inj (hs.symm.trans hi.1)
        obtain rfl := Option.some.inj (hholds.2.symm.trans hi.2)
        exact hknown
    · rename_i hnew
      exact ends_sight (howner id f rfl) hst hholds (Bool.eq_false_iff.2 hnew)

theorem ends_lookAtFile (hk : k.ShowsFiles W calm) (file : Path) (h : calm r.kernel) :
    Ends (k.lookAtFile file) r (W.Ended calm 0 {file} r.survey) := by
  obtain ⟨htarget, hst⟩ := hk.target file r.kernel h
  -- A file that names no species in scope is passed over.
  have hpass (hnone : W.species? r.survey.options file = none) :
      W.Searched 0 {file} r.survey r.survey := by
    refine .pass (fun hgone => ?_) fun s id hholds => ?_
    · rw [FileWorld.Dangles, hnone] at hgone
      cases hgone.1
    · rw [FileWorld.Holds, hnone] at hholds
      cases hholds.1
  unfold lookAtFile
  rw [ends_bind, ends_sure, andThen_ok]
  cases hlink : (k.linkTarget file r.kernel).1 with
  | error why =>
    rw [hlink] at htarget
    refine ⟨rfl, hst, hpass ?_⟩
    rw [FileWorld.species?, ← htarget]
    rfl
  | ok target =>
    rw [hlink] at htarget
    have hspecies : W.species? r.survey.options file =
        target.species?.filter r.survey.options.includes := by
      rw [FileWorld.species?, ← htarget]
      rfl
    dsimp only
    cases hs : target.species? with
    | none =>
      rw [hs] at hspecies
      exact ⟨rfl, hst, hpass hspecies⟩
    | some s =>
      rw [hs] at hspecies
      dsimp only
      rw [ends_bind, ends_survey, andThen_ok]
      split
      · rename_i hscope
        refine hk.ends_findHeldAt hst ?_
        rw [hspecies]
        exact Option.filter_some_pos hscope
      · rename_i hscope
        refine ⟨rfl, hst, hpass ?_⟩
        rw [hspecies]
        exact Option.filter_some_neg (Bool.eq_false_iff.2 hscope)

theorem ends_findHeldBy (hk : k.ShowsFiles W calm) (pid : Pid) (h : calm r.kernel)
    (hlimit : r.survey.options.limit = none) :
    Ends (k.findHeldBy pid) r (W.Ended calm
      (if (W.listing (FileWorld.directory r.survey.options pid)).isNone then 1 else 0)
      (W.filesOf r.survey.options pid) r.survey) := by
  obtain ⟨hlisting, hst⟩ := hk.listing (FileWorld.directory r.survey.options pid) r.kernel h
  unfold FileWorld.directory at hlisting hst
  unfold findHeldBy FileWorld.filesOf FileWorld.directory
  rw [ends_bind]
  apply ends_checkTime hlimit
  rw [andThen_ok, ends_bind, ends_survey, andThen_ok, ends_bind, ends_sure, andThen_ok]
  rw [← hlisting]
  cases (k.listing ((r.survey.options.procfs.ofProcess pid).join "fd") r.kernel).1 with
  | error why => exact ⟨rfl, hst, .skipFileList⟩
  | ok names =>
    refine ends_forM (fun done (r' : Run σ) => calm r'.kernel ∧ W.Searched 0
      (done.map (FileWorld.directory r.survey.options pid).child) r.survey r'.survey) names ?_
      ⟨hst, .nil⟩
    rintro done name rest r' - ⟨hcalm, hdone⟩
    refine (hk.ends_lookAtFile _ hcalm).mono ?_
    rintro _ r'' ⟨rfl, hcalm', hfile⟩
    refine ⟨rfl, hcalm', ?_⟩
    rw [List.map_append, ← Multiset.coe_add]
    exact hdone.trans hfile

/-- A search without a limit of time goes through all files of all processes. -/
theorem ends_findHeld (hk : k.ShowsFiles W calm) (h : calm r.kernel)
    (hlimit : r.survey.options.limit = none) :
    Ends k.findHeld r (W.Ended calm (W.unlisted r.survey) (W.files r.survey) r.survey) := by
  unfold findHeld FileWorld.unlisted FileWorld.files
  rw [ends_bind, ends_survey, andThen_ok]
  refine ends_forM (fun done (r' : Run σ) => calm r'.kernel ∧ W.Searched
    (done.countP fun pid => (W.listing (FileWorld.directory r.survey.options pid)).isNone)
    (done.map (W.filesOf r.survey.options)).sum r.survey r'.survey) _ ?_ ⟨h, .nil⟩
  rintro done pid rest r' - ⟨hcalm, hdone⟩
  have hoptions : r'.survey.options = r.survey.options := by
    obtain ⟨g, hr'⟩ := hdone.rest
    rw [hr']
  refine (hk.ends_findHeldBy pid hcalm (hoptions ▸ hlimit)).mono ?_
  rintro _ r'' ⟨rfl, hcalm', hprocess⟩
  refine ⟨rfl, hcalm', ?_⟩
  rw [hoptions] at hprocess
  rw [List.countP_append, List.countP_singleton, List.map_append, List.sum_append,
    List.map_singleton, List.sum_singleton]
  exact hdone.trans hprocess

end Kernel.ShowsFiles

/-! ## Worlds that are shown -/

/-- A question that has this answer whenever it is asked. An error is none. -/
def AlwaysAnswers {ε α : Type} (calm : σ → Prop) (m : StateM σ (Except ε α))
    (answer : Option α) : Prop :=
  ∀ st, calm st → (m st).1.toOption = answer ∧ calm (m st).2

namespace AlwaysAnswers

variable {ε α β : Type} {calm : σ → Prop} {a : Option α} {b : α → Option β}

theorem run_pure {x : α} : AlwaysAnswers calm (pure x : ExceptT ε (StateM σ) α).run (some x) :=
  fun _ hst => ⟨rfl, hst⟩

theorem mapError {ε' : Type} {m : StateM σ (Except ε α)} (h : AlwaysAnswers calm m a) (f : ε → ε') :
    AlwaysAnswers calm (m >>= fun x => pure (x.mapError f)) a := by
  intro st hst
  obtain ⟨hanswer, hst'⟩ := h st hst
  refine ⟨Eq.trans ?_ hanswer, hst'⟩
  change ((m st).1.mapError f).toOption = _
  cases (m st).1 with
  | error why => rfl
  | ok x => rfl

theorem file {m : StateM σ (Except FileFault α)} (h : AlwaysAnswers calm m a) :
    AlwaysAnswers calm (Ask.file m).run a := h.mapError Error.file

theorem system {m : StateM σ (Except Errno α)} (h : AlwaysAnswers calm m a) :
    AlwaysAnswers calm (Ask.system m).run a := h.mapError Error.system

theorem run_bind {m : ExceptT ε (StateM σ) α} {f : α → ExceptT ε (StateM σ) β}
    (hm : AlwaysAnswers calm m.run a) (hf : ∀ x, AlwaysAnswers calm (f x).run (b x)) :
    AlwaysAnswers calm (m >>= f).run (a.bind b) := by
  intro st hst
  obtain ⟨hanswer, hst'⟩ := hm st hst
  change Ends (m >>= f) st fun outcome st' => outcome.toOption = a.bind b ∧ calm st'
  rw [ends_bind]
  change andThen _ _ (m.run st).1 (m.run st).2
  rw [← hanswer]
  cases (m.run st).1 with
  | error why => exact ⟨rfl, hst'⟩
  | ok x => exact hf x _ hst'

end AlwaysAnswers

/-- A world is shown where each question has the same answer whenever it is asked. -/
theorem Kernel.showsFiles_of_answers {k : Kernel σ φ} {W : FileWorld} {calm : σ → Prop}
    (opens : Path → Option φ) (identity : φ → Option Identity) (owner : φ → Option φ)
    (hlisting : ∀ dir st, calm st →
      (k.listing dir st).1.toOption.map Multiset.ofList = W.listing dir ∧
        calm (k.listing dir st).2)
    (htarget : ∀ file, AlwaysAnswers calm (k.linkTarget file) (W.target file))
    (hopens : ∀ file, AlwaysAnswers calm (k.openFile file) (opens file))
    (hidentity : ∀ f, AlwaysAnswers calm (k.identify f) (identity f))
    (howner : ∀ f, AlwaysAnswers calm (k.owner f) (owner f))
    (hfound : ∀ file, W.found file = (opens file).bind identity)
    (howned : ∀ file f, opens file = some f → W.owner file = (owner f).bind identity) :
    k.ShowsFiles W calm where
  listing := hlisting
  target := htarget
  found file st hst := by
    have hopened : AlwaysAnswers calm (k.openedNamespace file).run
        ((opens file).bind fun f => (identity f).bind fun id => some (id, f)) :=
      (hopens file).file.run_bind fun f => (hidentity f).file.run_bind fun _ => .run_pure
    have hownerOf : ∀ f, AlwaysAnswers calm (k.ownerOf f).run ((owner f).bind identity) :=
      fun f => (howner f).system.run_bind fun o => (hidentity o).file
    obtain ⟨hanswer, hst'⟩ := hopened st hst
    refine ⟨?_, hst', fun id f hok => ?_⟩
    · rw [hfound, hanswer]
      simp [Option.map_bind]
    · rw [hok] at hanswer
      obtain ⟨f', hf', hid⟩ := Option.bind_eq_some_iff.1 hanswer.symm
      obtain ⟨_, _, hsame⟩ := Option.bind_eq_some_iff.1 hid
      cases hsame
      rw [howned file f hf']
      exact hownerOf f _ hst'

/-- A kernel that shows a world, and lists these names in the directories. An open file is what is
found there, with its owner. -/
def FileWorld.kernel (W : FileWorld) (names : Path → Option (List Name)) :
    Kernel Unit (Identity × Option Identity) :=
  { Kernel.bare with
    isLink := fun p => return .ok (W.target p).isSome
    linkTarget := fun p => return (W.target p).elim (.error (.refused .noEntry)) .ok
    listing := fun dir => return (names dir).elim (.error (.refused .noEntry)) .ok
    openFile := fun p =>
      return (W.found p).elim (.error (.refused .noEntry)) fun id => .ok (id, W.owner p)
    identify := fun f => return .ok f.1
    identifyAt := fun p => return (W.found p).elim (.error (.refused .noEntry)) .ok
    owner := fun f => return f.2.elim (.error .permission) fun id => .ok (id, none) }

theorem FileWorld.showsFiles_kernel (W : FileWorld) {names : Path → Option (List Name)}
    (h : ∀ dir, (names dir).map Multiset.ofList = W.listing dir) :
    (W.kernel names).ShowsFiles W fun _ => True := by
  -- What a world lacks, the kernel answers with an error.
  have helim : ∀ {ε α β : Type} (why : ε) (f : α → β) (x : Option α),
      (x.elim (Except.error why) fun a => .ok (f a)).toOption = x.map f := by
    rintro ε α β why f (_ | a) <;> rfl
  refine Kernel.showsFiles_of_answers (fun p => (W.found p).map fun id => (id, W.owner p))
    (fun f => some f.1) (fun f => f.2.map fun id => (id, none)) ?_ ?_ ?_ ?_ ?_ ?_ ?_
  · intro dir st _
    refine ⟨?_, trivial⟩
    rw [← h dir]
    refine congrArg (Option.map Multiset.ofList) ((helim _ id (names dir)).trans ?_)
    exact Option.map_id' ..
  · intro file st _
    refine ⟨(helim _ id (W.target file)).trans ?_, trivial⟩
    exact Option.map_id' ..
  · exact fun file st _ => ⟨helim _ _ _, trivial⟩
  · exact fun f st _ => ⟨rfl, trivial⟩
  · exact fun f st _ => ⟨helim _ _ _, trivial⟩
  · intro file
    rw [Option.bind_map]
    exact (Option.bind_fun_some _).symm
  · intro file f hf
    obtain ⟨id, _, rfl⟩ := Option.map_eq_some_iff.1 hf
    rw [Option.bind_map]
    exact (Option.bind_fun_some _).symm

/-- What the open files of a host lead to. -/
def Host.fileWorld (h : Host) (top : FileTree) : FileWorld where
  listing dir := (h.kernel.listing dir { files := top }).1.toOption.map Multiset.ofList
  target file := (h.kernel.linkTarget file { files := top }).1.toOption
  found file := (h.kernel.openFile file { files := top }).1.toOption.bind fun f =>
    (h.identityOf f).toOption
  owner file := (h.kernel.openFile file { files := top }).1.toOption.bind fun f =>
    (h.ofSpace f fun space => related space.owner).toOption.bind fun owner =>
      (h.identityOf owner).toOption

/-- A host shows where its files lead, as long as no sandbox comes or goes. -/
theorem Host.showsFiles (h : Host) (top : FileTree) :
    h.kernel.ShowsFiles (h.fileWorld top) fun m => m.files = top := by
  refine Kernel.showsFiles_of_answers
    (fun file => (h.kernel.openFile file { files := top }).1.toOption)
    (fun f => (h.identityOf f).toOption)
    (fun f => (h.ofSpace f fun space => related space.owner).toOption) ?_ ?_ ?_ ?_ ?_ ?_ ?_
  · rintro dir m rfl
    exact ⟨rfl, rfl⟩
  · rintro file m rfl
    exact ⟨rfl, rfl⟩
  · rintro file m rfl
    exact ⟨rfl, rfl⟩
  · rintro f m rfl
    exact ⟨rfl, rfl⟩
  · rintro f m rfl
    exact ⟨rfl, rfl⟩
  · exact fun _ => rfl
  · intro file f hf
    change Option.bind (h.kernel.openFile file { files := top }).1.toOption _ = _
    rw [hf]
    rfl

/-! ## The law -/

/-- Without a limit of time, a search of the open files ends, whatever was known before. Of each
species in scope those namespaces are known then that were known, and those that a file of a process
in the table holds: its link names the species, and it can be opened. What was known stays as it
was. A new namespace has no leaders, is addressed by one path, which is a file that holds it, and
has the owner that is reported there, if it is no user namespace. Counted are the directories that
cannot be listed and the files that cannot be opened though their links name species in scope; all
else stays the same. Another kernel that shows the same world, in whatever order it lists the names
in the directories, finds the same namespaces and counts the same. The owners are the same too, as
the owner that a kernel reports is that of the namespace and not of the file. -/
theorem open_files_are_searched_in_whatever_order (k : Kernel σ φ) (W : FileWorld)
    (calm : σ → Prop) (hk : k.ShowsFiles W calm) (v : Survey) (st : σ) (hst : calm st)
    (hlimit : v.options.limit = none) :
    ∃ st' w, k.findHeld.run ⟨st, v⟩ = (.ok (), ⟨st', w⟩) ∧ calm st' ∧
      (∃ g, w = { v with
        graph := g
        diagnostics := { v.diagnostics with
          skippedFileLists := v.diagnostics.skippedFileLists + W.unlisted v
          skippedFiles :=
            v.diagnostics.skippedFiles + (W.files v).countP (W.Dangles v.options) } }) ∧
      (∀ s id, w.graph.contains s id = true ↔
        v.graph.contains s id = true ∨ ∃ file ∈ W.files v, W.Holds v.options file s id) ∧
      (∀ s id n, v.graph.get? s id = some n → w.graph.get? s id = some n) ∧
      (∀ s id n, v.graph.contains s id = false → w.graph.get? s id = some n →
        ∃ file ∈ W.files v, W.Holds v.options file s id ∧
          n = {
            id, species := s, reference := .single file, leaders := []
            ownerId := if s = .user then none else W.owner file
            kind := .ofSpecies s }) ∧
      ∀ {σ' φ' : Type} (k' : Kernel σ' φ') (calm' : σ' → Prop) (t : σ'),
        k'.ShowsFiles W calm' → calm' t →
        ∃ t' w', k'.findHeld.run ⟨t, v⟩ = (.ok (), ⟨t', w'⟩) ∧ w'.diagnostics = w.diagnostics ∧
          (∀ s id, w'.graph.contains s id = w.graph.contains s id) ∧
          (W.OneOwner → ∀ s id, (w'.graph.get? s id).bind (·.ownerId) =
            (w.graph.get? s id).bind (·.ownerId)) := by
  obtain ⟨hok, hst', hsearched⟩ := hk.ends_findHeld (r := ⟨st, v⟩) hst hlimit
  refine ⟨_, _, Prod.ext hok rfl, hst', hsearched.rest, hsearched.known, hsearched.kept,
    fun s id n hnew hn => hsearched.exists_file hnew hn, fun k' calm' t hk' ht => ?_⟩
  obtain ⟨hok', _, hsearched'⟩ := hk'.ends_findHeld (r := ⟨t, v⟩) ht hlimit
  exact ⟨_, _, Prod.ext hok' rfl, hsearched.diagnostics_eq hsearched',
    hsearched.contains_eq hsearched', fun hone => hsearched.ownerId_eq hone hsearched'⟩

/-- The files of a process that holds one namespace twice. One more of its files is gone, and one is
no namespace; the files of other processes cannot be listed. -/
def heldWorld : FileWorld where
  listing dir :=
    if dir = "/proc/5/fd" then some ↑[Host.name "3", Host.name "4", Host.name "7", Host.name "8"]
    else none
  target file :=
    if file = "/proc/5/fd/3" ∨ file = "/proc/5/fd/4" then some "net:[9]"
    else if file = "/proc/5/fd/7" then some "uts:[2]"
    else if file = "/proc/5/fd/8" then some "/dev/null"
    else none
  found file := if file = "/proc/5/fd/3" ∨ file = "/proc/5/fd/4" then some ⟨4, 9⟩ else none
  owner file := if file = "/proc/5/fd/3" ∨ file = "/proc/5/fd/4" then some ⟨4, 1⟩ else none

/-- A survey of two processes, before anything is found. -/
def heldSurvey : Survey where
  options := .standard
  processes := .ofList [
    { pid := ⟨5⟩, parentPid := ⟨1⟩, name := "a", started := 0 },
    { pid := ⟨6⟩, parentPid := ⟨1⟩, name := "b", started := 0 }]

/-- The names in the directory that can be listed, in the order that they are put into. -/
def heldNames (order : List Name → List Name) (dir : Path) : Option (List Name) :=
  if dir = "/proc/5/fd" then
    some (order [Host.name "3", Host.name "4", Host.name "7", Host.name "8"])
  else none

theorem showsFiles_heldWorld {order : List Name → List Name} (h : ∀ l, (order l).Perm l) :
    (heldWorld.kernel (heldNames order)).ShowsFiles heldWorld fun _ => True := by
  refine heldWorld.showsFiles_kernel fun dir => ?_
  unfold heldNames heldWorld
  dsimp only
  split
  · exact congrArg some (Multiset.coe_eq_coe.2 (h _))
  · rfl

/-- Whether the directory is listed forwards or backwards, one namespace is found, with its owner;
one file and one directory are counted. -/
theorem one_namespace_is_found_from_either_end :
    ∃ w w', (heldWorld.kernel (heldNames id)).findHeld.run ⟨(), heldSurvey⟩ = (.ok (), ⟨(), w⟩) ∧
      (heldWorld.kernel (heldNames List.reverse)).findHeld.run ⟨(), heldSurvey⟩ =
        (.ok (), ⟨(), w'⟩) ∧
      (∀ s id, w.graph.contains s id = true ↔ s = .net ∧ id = ⟨4, 9⟩) ∧
      (∀ s id, w'.graph.contains s id = w.graph.contains s id) ∧
      (w'.graph.get? .net ⟨4, 9⟩).bind (·.ownerId) = some ⟨4, 1⟩ ∧
      w'.diagnostics = { skippedFileLists := 1, skippedFiles := 1 } := by
  have hreported : ∀ file, heldWorld.owner file = (heldWorld.found file).map fun _ => ⟨4, 1⟩ := by
    intro file
    unfold heldWorld
    dsimp only
    split
    · rfl
    · rfl
  have hone : heldWorld.OneOwner := fun file file' _ h => by rw [hreported, hreported, h]
  have hheld : ∀ file s id, heldWorld.Holds heldSurvey.options file s id →
      s = .net ∧ id = ⟨4, 9⟩ := by
    rintro file s id ⟨hs, hid⟩
    change (if file = "/proc/5/fd/3" ∨ file = "/proc/5/fd/4" then some _ else none) = _ at hid
    split at hid
    · rename_i hfile
      cases hid
      have hspecies : heldWorld.species? heldSurvey.options file = some .net := by
        rcases hfile with rfl | rfl
        · decide +kernel
        · decide +kernel
      exact ⟨Option.some.inj (hs.symm.trans hspecies), rfl⟩
    · cases hid
  have hfirst : heldWorld.Holds heldSurvey.options "/proc/5/fd/3" .net ⟨4, 9⟩ :=
    ⟨by decide +kernel, by decide +kernel⟩
  have hfile : Path.ofText "/proc/5/fd/3" ∈ heldWorld.files heldSurvey := by decide +kernel
  have hunlisted : heldWorld.unlisted heldSurvey = 1 := by decide +kernel
  have hgone : (heldWorld.files heldSurvey).countP (heldWorld.Dangles heldSurvey.options) = 1 := by
    decide +kernel
  have hnone : ∀ s id, heldSurvey.graph.contains s id = false := by
    intro s id
    change (Graph.empty.get? s id).isSome = false
    rw [Graph.get?_empty]
    rfl
  obtain ⟨_, w, hrun, _, ⟨_, hw⟩, hknown, _, hnew, hagain⟩ :=
    open_files_are_searched_in_whatever_order (heldWorld.kernel (heldNames id)) heldWorld
      (fun _ => True) (showsFiles_heldWorld fun _ => .refl _) heldSurvey () trivial rfl
  obtain ⟨_, w', hrun', hsame, hcontains, howner⟩ :=
    hagain (heldWorld.kernel (heldNames List.reverse)) (fun _ => True) ()
      (showsFiles_heldWorld fun _ => List.reverse_perm _) trivial
  have hfound : w.graph.contains .net ⟨4, 9⟩ = true :=
    (hknown _ _).2 (Or.inr ⟨_, hfile, hfirst⟩)
  refine ⟨w, w', hrun, hrun', fun s id => ⟨fun hid => ?_, ?_⟩, hcontains, ?_, ?_⟩
  · rcases (hknown s id).1 hid with hold | ⟨file, _, hholds⟩
    · rw [hnone] at hold
      cases hold
    · exact hheld file s id hholds
  · rintro ⟨rfl, rfl⟩
    exact hfound
  · obtain ⟨n, hn⟩ := Graph.contains_iff.1 hfound
    obtain ⟨file, _, hholds, rfl⟩ := hnew _ _ n (hnone _ _) hn
    rw [howner hone, hn]
    change heldWorld.owner file = _
    rw [hreported, hholds.2]
    rfl
  · rw [hsame, hw, hunlisted, hgone]
    rfl

end NamespaceAtlas
