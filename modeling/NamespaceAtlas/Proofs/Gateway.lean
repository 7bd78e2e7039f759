-- References and gateways. The files of a process lie below procfs, and a
-- reference of one such path opens the file that stands there; a gateway
-- keeps the reference that it was opened by.
import NamespaceAtlas.Gateway
import NamespaceAtlas.Proofs.Kept
import NamespaceAtlas.Proofs.Number.Decimal
import NamespaceAtlas.Proofs.Text.Utf8
import NamespaceAtlas.Proofs.Path

namespace NamespaceAtlas

/-! ## Paths of procfs -/

namespace Path

variable {p q : Path}

theorem isAbsolute_of_isStep {n : Name} (h : IsStep n) : (Path.mk n).isAbsolute = false := by
  have hnames : (ofNames [n]).isAbsolute = false := isAbsolute_ofNames h.1 h.2
  exact hnames

/-- A name proper adds one part to a path. -/
theorem parts_child {n : Name} (hp : p.bytes ≠ []) (h : IsStep n) :
    (p.child n).parts = p.parts ++ [partOf n] := by
  have hsegments : (Path.mk n).segments = [n] :=
    segments_ofNames (l := [n]) (List.cons_ne_nil _ _) fun s hs => List.mem_singleton.1 hs ▸ h.2
  unfold child
  rw [parts_join hp (isAbsolute_of_isStep h), hsegments, List.filterMap_cons_some
    (part?_eq_partOf h.1), List.filterMap_nil]

/-- The text of a process number is a name proper. -/
theorem isStep_pid (pid : Pid) : IsStep (Bytes.ofText pid.text) ∧
    Bytes.ofText pid.text ≠ parentName := by
  have hchar : ∀ c, (c = '-' ∨ ∃ d < 10, c = Decimal.digitChar d) →
      slash ∉ String.utf8EncodeChar c ∧ 0x2E ∉ String.utf8EncodeChar c := by
    rintro c (rfl | ⟨d, hd, rfl⟩)
    · decide
    · revert d
      decide
  have hbytes : ∀ b ∈ Bytes.ofText pid.text, b ≠ slash ∧ b ≠ 0x2E := by
    intro b hb
    obtain ⟨c, hc, hb⟩ := List.mem_flatMap.1 hb
    obtain ⟨hslash, hdot⟩ := hchar c (Decimal.signedText_of_mem hc)
    exact ⟨fun h => hslash (h ▸ hb), fun h => hdot (h ▸ hb)⟩
  have hne : Bytes.ofText pid.text ≠ [] := by
    intro hnil
    have htext := Bytes.text?_ofText pid.text
    have hempty : Bytes.text? (Bytes.ofText "") = some "" := Bytes.text?_ofText ""
    have hread := Pid.read_text pid
    rw [hnil] at htext
    have hnone : pid.text = "" := Option.some.inj (htext.symm.trans hempty)
    rw [hnone] at hread
    cases hread
  have hdots : ∀ rest, Bytes.ofText pid.text ≠ 0x2E :: rest := by
    intro rest hrest
    exact (hbytes 0x2E (hrest ▸ List.mem_cons_self)).2 rfl
  refine ⟨⟨?_, fun h => (hbytes slash h).1 rfl⟩, hdots _⟩
  unfold isVoid part?
  have hhere : Bytes.ofText pid.text ≠ hereName := hdots []
  have hparent : Bytes.ofText pid.text ≠ parentName := hdots [0x2E]
  rw [if_neg (not_or.2 ⟨hne, hhere⟩), if_neg hparent]
  rfl

theorem isAbsolute_pid (pid : Pid) : (ofText pid.text).isAbsolute = false :=
  isAbsolute_of_isStep (isStep_pid pid).1

/-- A path below procfs. -/
def IsInProcfs (p : Path) : Prop := ∃ rest, p.bytes = proc.bytes ++ slash :: rest

theorem isInProcfs_join_proc (hq : q.isAbsolute = false) : (proc.join q).IsInProcfs := by
  have hlast : proc.bytes.getLast? = some 0x63 := by decide
  refine ⟨q.bytes, ?_⟩
  unfold join
  rw [hq, hlast]
  rfl

theorem IsInProcfs.join (h : p.IsInProcfs) (hq : q.isAbsolute = false) :
    (p.join q).IsInProcfs := by
  obtain ⟨rest, hp⟩ := h
  unfold Path.join
  rw [hq]
  cases hlast : p.bytes.getLast? with
  | none =>
    rw [List.getLast?_eq_none_iff.1 hlast] at hp
    simp at hp
  | some b =>
    simp only [Bool.false_eq_true, if_false]
    split
    · exact ⟨rest ++ q.bytes, by simp [hp]⟩
    · exact ⟨rest ++ slash :: q.bytes, by simp [hp]⟩

/-- The file that stands for a namespace of a process lies below procfs. -/
theorem isInProcfs_ofNamespace (pid : Pid) (s : Species) : (ofNamespace proc pid s).IsInProcfs := by
  have hname : (ofText s.name).isAbsolute = false := by
    cases s <;> decide
  exact ((isInProcfs_join_proc (isAbsolute_pid pid)).join (by decide)).join hname

theorem IsInProcfs.isAbsolute (h : p.IsInProcfs) : p.isAbsolute = true := by
  obtain ⟨rest, hp⟩ := h
  unfold Path.isAbsolute
  rw [hp]
  rfl

theorem startsWith_proc_iff :
    p.startsWith proc = true ↔ ∃ rest, p.parts = .root :: .name (Bytes.ofText "proc") :: rest := by
  have hproc : proc.parts = [.root, .name (Bytes.ofText "proc")] := by decide
  unfold startsWith
  rw [hproc, List.isPrefixOf_iff_prefix]
  constructor
  · rintro ⟨rest, hrest⟩
    exact ⟨rest, hrest.symm⟩
  · rintro ⟨rest, hrest⟩
    exact ⟨rest, hrest.symm⟩

theorem IsInProcfs.startsWith (h : p.IsInProcfs) : p.startsWith proc = true := by
  obtain ⟨rest, hp⟩ := h
  have hparts : p.parts = proc.parts ++ (Path.mk rest).segments.filterMap part? := by
    rw [show p = ⟨proc.bytes ++ slash :: rest⟩ from congrArg Path.mk hp, parts_slash,
      parts_append_slash (by decide)]
  unfold Path.startsWith
  rw [hparts, List.isPrefixOf_iff_prefix]
  exact List.prefix_append _ _

theorem IsMountOfProcess.startsWith (h : p.IsMountOfProcess) : p.startsWith proc = true := by
  obtain ⟨who, hparts, _⟩ := h
  exact startsWith_proc_iff.2 ⟨_, hparts⟩

theorem alike_mount : p.alike "ns/mnt" = true ↔
    p.parts = [.name (Bytes.ofText "ns"), .name (Bytes.ofText "mnt")] := by
  have hmount : (ofText "ns/mnt").parts =
      [.name (Bytes.ofText "ns"), .name (Bytes.ofText "mnt")] := by decide
  rw [← hmount]
  exact beq_iff_eq

/-- The parts of the file that stands for the mount namespace of a process. -/
theorem parts_mountOf (pid : Pid) : (ofNamespace proc pid .mount).parts =
    [.root, .name (Bytes.ofText "proc"), .name (Bytes.ofText pid.text), .name (Bytes.ofText "ns"),
      .name (Bytes.ofText "mnt")] := by
  obtain ⟨hstep, hparent⟩ := isStep_pid pid
  have hpid : partOf (Bytes.ofText pid.text) = .name (Bytes.ofText pid.text) := if_neg hparent
  have hne : ∀ {p : Path} {rest}, p.parts = .root :: rest → p.bytes ≠ [] := by
    intro p rest hp hnil
    have habsolute := isAbsolute_of_parts hp
    unfold isAbsolute at habsolute
    rw [hnil] at habsolute
    cases habsolute
  have hproc : proc.parts = [.root, .name (Bytes.ofText "proc")] := by decide
  have hdir := parts_child (hne hproc) hstep
  rw [hproc, hpid] at hdir
  have hns := parts_child (hne hdir) (n := Bytes.ofText "ns") (by decide)
  rw [hdir] at hns
  have hmnt := parts_child (hne hns) (n := Bytes.ofText "mnt") (by decide)
  rw [hns] at hmnt
  exact hmnt

/-- That file is named by the process. -/
theorem process?_mountOf (pid : Pid) : (ofNamespace proc pid .mount).process? =
    some (.process pid, (ofNamespace proc pid .mount).afterParts 2) := by
  have htext := Bytes.text?_ofText pid.text
  have hself : Bytes.ofText pid.text ≠ Bytes.ofText "self" := by
    intro heq
    have hread := Pid.read_text pid
    have hbad : Pid.read "self".toList = .error .badDigit := by decide
    rw [heq, Bytes.text?_ofText] at htext
    rw [← Option.some.inj htext, hbad] at hread
    cases hread
  unfold process?
  rw [parts_mountOf]
  dsimp only
  rw [if_pos rfl, if_neg hself, htext]
  simp [Pid.read_text, Except.toOption]

end Path

/-! ## References that may be followed -/

namespace Reference

theorem innerFault?_eq_none_iff {l : List Path} :
    innerFault? l = none ↔ ∀ p ∈ l, p.isAbsolute = true ∧ p.startsWith Path.proc = false := by
  induction l with
  | nil => simp [innerFault?]
  | cons p rest ih =>
    rw [List.forall_mem_cons, ← ih, innerFault?]
    cases p.isAbsolute <;> cases p.startsWith Path.proc <;> simp

/-- Nothing is wrong with a reference whose paths are absolute, and of which only the first may lie
below procfs. -/
theorem fault?_eq_none_iff {r : Reference} {p : Path} {l : List Path} (h : r.paths = p :: l) :
    r.fault? = none ↔
      p.isAbsolute = true ∧ ∀ q ∈ l, q.isAbsolute = true ∧ q.startsWith Path.proc = false := by
  unfold fault?
  rw [h, ← innerFault?_eq_none_iff]
  dsimp only
  cases p.isAbsolute <;> simp

/-- A sound reference may go on to a path that is absolute and not below procfs. -/
theorem fault?_join {r : Reference} {p : Path} (h : r.fault? = none)
    (habsolute : p.isAbsolute = true) (hproc : p.startsWith Path.proc = false) :
    (r.join p).fault? = none := by
  cases hpaths : r.paths with
  | nil =>
    unfold fault? at h
    rw [hpaths] at h
    cases h
  | cons first rest =>
    obtain ⟨hfirst, hrest⟩ := (fault?_eq_none_iff hpaths).1 h
    have hjoined : (r.join p).paths = first :: (rest ++ [p]) := by
      unfold join
      rw [hpaths]
      rfl
    refine (fault?_eq_none_iff hjoined).2 ⟨hfirst, fun q hq => ?_⟩
    rcases List.mem_append.1 hq with hq | hq
    · exact hrest q hq
    · rw [List.mem_singleton.1 hq]
      exact ⟨habsolute, hproc⟩

end Reference

/-! ## Paths in another root -/

variable {σ φ : Type}

/-- Where no link stands in the way, and no name is `..`, the names are kept as they are. -/
theorem resolveNames_of_plain {look : List Name → StateM σ (Except FileFault Sight)}
    (hlook : ∀ names, look names = pure (.ok .plain)) (path : Path) (links : Nat)
    (done pending : List Name) (h : Path.parentName ∉ pending) :
    resolveNames look path links done pending = pure (.ok (done ++ pending)) := by
  induction pending generalizing done with
  | nil =>
    unfold resolveNames
    rw [List.append_nil]
  | cons name rest ih =>
    rw [List.mem_cons, not_or] at h
    unfold resolveNames
    rw [if_neg (Ne.symm h.1)]
    dsimp only
    rw [hlook, pure_bind]
    have hrest := ih (done ++ [name]) h.2
    rw [List.append_assoc] at hrest
    exact hrest

namespace Kernel

variable (k : Kernel σ φ)

/-- On a host without links a path without `..` leads where it says. -/
theorem resolveIn_of_plain (hplain : ∀ p, k.isLink p = pure (.ok false)) {root path : Path}
    (h : Path.parentName ∉ path.steps) :
    k.resolveIn root path = pure (root.below path.steps) := by
  have hlook : ∀ p, k.look p = pure (.ok .plain) := by
    intro p
    unfold look
    rw [hplain]
    rfl
  unfold resolveIn
  rw [resolveNames_of_plain (fun names => hlook _) path linkLimit [] path.steps h]
  rfl

/-- In the root of such a host this holds of relative paths too, in each gateway. -/
theorem resolveThrough_of_plain (hplain : ∀ p, k.isLink p = pure (.ok false))
    (hdirectory : k.directory = pure (.ok .root)) {g : Gateway} {p : Path}
    (h : Path.parentName ∉ (Path.root.join p).steps) :
    k.resolveThrough g p = pure (g.root.below (Path.root.join p).steps) := by
  have habsolute : k.absolute p = pure (Path.root.join p) := by
    unfold absolute
    split
    · rw [Path.join, if_pos ‹_›]
    · rw [hdirectory]
      rfl
  unfold resolveThrough
  rw [habsolute, pure_bind, k.resolveIn_of_plain hplain h]

/-! ## References -/

/-- A reference of one path below procfs opens the file at that path. -/
theorem openedReference_single {p : Path} (h : p.IsInProcfs) (limit : Span) :
    k.openedReference (.single p) limit = k.opened p := by
  have hfault : (Reference.single p).fault? = none := by
    unfold Reference.fault? Reference.single
    simp [h.isAbsolute, Reference.innerFault?]
  unfold openedReference
  rw [hfault]
  unfold Reference.single initialPath
  simp [h.startsWith]

/-- These are the first paths that are entered through the root of a process. -/
theorem processOfFirst?_isSome (p : Path) :
    (k.processOfFirst? p).isSome ↔ p.IsMountOfProcess := by
  unfold processOfFirst?
  constructor
  · intro h
    cases hprocess : p.process? with
    | none =>
      rw [hprocess] at h
      cases h
    | some found =>
      obtain ⟨who, rest⟩ := found
      obtain ⟨name, more, hparts, hrest, hname⟩ := Path.of_process?_eq_some hprocess
      rw [hprocess] at h
      dsimp only at h
      split at h
      · rename_i h'
        exact ⟨name, by rw [hparts, ← hrest, Path.alike_mount.1 h'], hname⟩
      · cases h
  · rintro ⟨name, hparts, hname⟩
    obtain ⟨who, hprocess, hrest⟩ := Path.process?_of_parts hparts hname
    rw [hprocess]
    dsimp only
    rw [if_pos (Path.alike_mount.2 hrest)]
    cases who <;> rfl

/-- The mount namespace of a process is reached through the root of that process. -/
theorem processOfFirst?_mountOf (pid : Pid) :
    k.processOfFirst? (Path.proc.ofNamespace pid .mount) = some pid := by
  have hrest : ((Path.proc.ofNamespace pid .mount).afterParts 2).alike "ns/mnt" = true := by
    have habsolute := Path.isAbsolute_of_parts (Path.parts_mountOf pid)
    rw [Path.alike_mount, Path.parts_afterParts habsolute, Path.parts_mountOf]
    rfl
  unfold processOfFirst?
  rw [Path.process?_mountOf]
  dsimp only
  rw [if_pos hrest]

/-! ## Gateways -/

/-- A gateway that comes out has a reference. -/
def Leads (reference : Reference) : Except Error Gateway → σ → Prop
  | .error _, _ => True
  | .ok g, _ => g.reference = reference

variable {k} {g : Gateway} {reference : Reference} {st : σ} {limit : Span}

theorem leads_bind {α : Type} {m : Ask σ α} {f : α → Ask σ Gateway}
    (hf : ∀ a st, Ends (f a) st (Leads reference)) : Ends (m >>= f) st (Leads reference) :=
  Keeps.ends_bind (P := fun _ => True) (fun _ h => h) trivial (fun _ _ _ => trivial)
    fun a st _ => hf a st

theorem leads_enterFile (mount : φ) :
    Ends (k.enterFile g mount limit) st (Leads g.reference) := by
  refine leads_bind fun user st => leads_bind fun pid st => leads_bind fun _ st => ?_
  rfl

theorem leads_enterFirst (p : Path) :
    Ends (k.enterFirst g limit p) st (Leads g.reference) := by
  unfold enterFirst
  split
  · refine leads_bind fun mount st => ?_
    rfl
  · exact leads_bind fun path st => leads_bind fun mount st => leads_enterFile mount

theorem leads_enterRest (l : List Path) (hg : g.reference = reference) :
    Ends (k.enterRest g limit l) st (Leads reference) := by
  induction l generalizing g st with
  | nil => exact hg
  | cons p rest ih =>
    unfold enterRest
    rw [ends_bind, ends_caught]
    have hnext : Ends (k.enterNext g limit p) st (Leads g.reference) :=
      leads_bind fun path st => leads_bind fun mount st => leads_enterFile mount
    refine hnext.mono ?_
    rintro (why | g') st' hg'
    · exact leads_bind fun _ st => trivial
    · exact ih (hg'.trans hg)

theorem leads_gateway : Ends (k.gateway reference limit) st (Leads reference) := by
  unfold gateway
  split
  · exact trivial
  · exact rfl
  · rw [ends_bind]
    refine Ends.mono (leads_enterFirst _) ?_
    rintro (why | g) st' hg
    · exact trivial
    · exact leads_enterRest _ hg

/-- The gateway into a namespace has its reference. -/
theorem leads_gatewayOf (n : Namespace) (t : ProcessTable) :
    Ends (k.gatewayOf n t limit) st (Leads n.reference) := by
  unfold gatewayOf
  by_cases hmount : n.species = .mount
  · simp only [hmount, ne_eq, not_true, if_false]
    split
    · exact rfl
    · exact leads_gateway
  · simp only [hmount, ne_eq, not_false_eq_true, if_true]
    exact trivial

/-- A mount namespace without leaders is entered by the paths of its reference. -/
theorem gatewayOf_of_leaderless {n : Namespace} {t : ProcessTable} {p : Path} {l : List Path}
    (hspecies : n.species = .mount) (hleaders : n.leaders = [])
    (hreference : n.reference = ⟨p :: l⟩) (hfault : n.reference.fault? = none) :
    k.gatewayOf n t limit =
      k.enterFirst (.own n.reference) limit p >>= fun g => k.enterRest g limit l := by
  unfold gatewayOf Namespace.ealdorman? gateway
  rw [hspecies, hleaders, hfault, hreference]
  rfl

end Kernel

end NamespaceAtlas
