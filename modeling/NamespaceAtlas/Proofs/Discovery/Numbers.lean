-- The command for the numbers of a process, from end to end. The scan gives
-- every PID namespace a reference through a process that has joined it, the way
-- up starts from these references and finds the namespaces above, and the map
-- pairs them with the numbers that the kernel gives.
import NamespaceAtlas.Command
import NamespaceAtlas.Proofs.PidMap
import NamespaceAtlas.Proofs.Discovery.Ascent
import NamespaceAtlas.Proofs.Discovery.Joined
import NamespaceAtlas.Proofs.Discovery.Plan

namespace NamespaceAtlas

/-- The numbers of a process: those that procfs lists, each in its namespace, from the outermost
above the one that the process has joined down to that one. -/
def Numbered (t : ProcessTable) (read : Pid → Species → Option Identity) (L : Lineage) (pid : Pid)
    (c : List LocalPid) : Prop :=
  ∃ p id way, t.get? pid = some p ∧ read pid .pid = some id ∧ Way L.up id way ∧
    c = PidMap.paired (way.reverse ++ [id]) p.innerPids

section Numbers

variable {σ φ : Type} {k : Kernel σ φ} {stands : φ → Identity → Prop}
  {read : Pid → Species → Option Identity} {L : Lineage} {l : List Process} {v u w : Survey}
  {pid : Pid} {id : Identity} {way : List Identity} {c d : List LocalPid}

theorem Numbered.unique {t : ProcessTable} (h : Numbered t read L pid c)
    (h' : Numbered t read L pid d) : c = d := by
  obtain ⟨p, id, way, hp, hid, hway, rfl⟩ := h
  obtain ⟨p', id', way', hp', hid', hway', rfl⟩ := h'
  rw [hp] at hp'
  cases hp'
  rw [hid] at hid'
  cases hid'
  rw [hway.unique hway']

/-! ## Both phases -/

theorem plan_pidOptions : k.plan Command.pidOptions =
    [⟨"processes", k.findJoined .pid⟩, ⟨"hierarchy", k.findAncestors .pid⟩] := by
  have hordered : Command.pidOptions.ordered = [.pid] := by decide
  unfold Kernel.plan
  rw [hordered]
  rfl

/-- The scan and the way up, one after the other. -/
theorem ends_pidPlan (hk : k.Follows stands .pid L) (hup : Acyclic L.up)
    (hl : ∀ p ∈ l, p.Fresh) (hac : Acyclic (ProcessTable.ofList l).up)
    (hv : v.processes = .ofList l) (hgraph : v.graph = .empty) (hlimit : v.options.limit = none)
    (hprocfs : v.options.procfs = Path.proc)
    (hread : ∀ pid ∈ v.processes.pids, k.Reads stands Path.proc read pid .pid) (st : σ) :
    Ends (Step.performAll (k.plan Command.pidOptions)) ⟨st, v⟩ fun outcome r => outcome = .ok () ∧
      ∃ u, Settled read l v [.pid] u ∧
        Climbed L .pid u (Met L.up (u.Opened .pid fun _ => True)) none r.survey := by
  rw [plan_pidOptions]
  refine ends_performAll_cons ?_
  refine (ends_findJoined (fun p hp => (hl p hp).1) hv hac hlimit List.not_mem_nil
    (hprocfs ▸ hread) (Settled.start hl hv hgraph) st).mono ?_
  rintro _ ⟨st, u⟩ ⟨rfl, hu : Settled read l v [.pid] u⟩
  refine ⟨rfl, ends_performAll_cons ?_⟩
  have hoptions : u.options = v.options := by
    obtain ⟨g, hrest⟩ := hu.rest
    rw [hrest]
  have hopens : ∀ id n, u.graph.get? .pid id = some n → n.isHidden = false →
      k.Addresses stands u.options.attachLimit n.reference id True := by
    intro id n hn _
    obtain ⟨pid, hpid, hid, hreference⟩ := hu.reference .pid id n hn
    rw [hreference, hprocfs]
    exact (hread pid hpid).addresses hid _
  refine (ends_findAncestors hk hup rfl (by rw [hoptions, hlimit]) (fun _ _ => hu.fits)
    (fun _ => hu.parent?_eq_none) hopens st).mono ?_
  rintro _ r ⟨rfl, h⟩
  exact ⟨rfl, rfl, u, hu, h⟩

/-! ## What the phases leave -/

theorem processes_climbed {asked : Identity → Prop} {next : Option Identity} {s : Species}
    (h : Climbed L s u asked next w) : w.processes = u.processes := by
  obtain ⟨g, hidden, hrest⟩ := h.rest
  rw [hrest]
  rfl

/-- The namespace that a process has joined has all those above it as its ancestors. -/
theorem spacesOf_joined (hu : Settled read l v [.pid] u)
    (h : Climbed L .pid u (Met L.up (u.Opened .pid fun _ => True)) none w)
    (hpid : pid ∈ v.processes.pids) (hid : read pid .pid = some id) (hway : Way L.up id way) :
    PidMap.spacesOf w.graph id = way.reverse ++ [id] := by
  have hknown : u.graph.contains .pid id = true :=
    (hu.known .pid id).2 ⟨List.mem_singleton.2 rfl, pid, hpid, rfl, hid⟩
  obtain ⟨n, hn⟩ := Graph.contains_iff.1 hknown
  have hopened : u.Opened .pid (fun _ => True) id := by
    obtain ⟨_, _, _, hreference⟩ := hu.reference .pid id n hn
    refine ⟨n, hn, ?_, trivial⟩
    unfold Namespace.isHidden
    rw [hreference]
    rfl
  have hancestors := (h.way_ancestors ⟨id, hopened, Or.inl rfl⟩ hway).unique hway
  unfold PidMap.spacesOf
  rw [hancestors]

/-- What a process that is left adds to the map are its numbers. -/
theorem entryOf_eq_numbered (hl : ∀ p ∈ l, p.Unlinked) (hv : v.processes = .ofList l)
    (hup : Acyclic L.up) (hu : Settled read l v [.pid] u)
    (h : Climbed L .pid u (Met L.up (u.Opened .pid fun _ => True)) none w)
    (hlength : ∀ pid p id way, v.processes.get? pid = some p → read pid .pid = some id →
      Way L.up id way → p.innerPids.length = way.length + 1)
    {q : Process} (hq : w.processes.get? pid = some q) :
    ∃ c, PidMap.entryOf w.graph q = .chain c ∧ Numbered v.processes read L pid c := by
  rw [processes_climbed h, hu.processes_eq] at hq
  have hinner := innerPids_survivors hl read [.pid] pid
  rw [hq, Option.map_some] at hinner
  split at hinner
  swap
  · cases hinner
  rename_i hreadable
  obtain ⟨p, hp, hpq⟩ := Option.map_eq_some_iff.1 hinner.symm
  rw [← hv] at hp
  have hsome : (read pid .pid).isSome = true := by simpa [readable] using hreadable
  obtain ⟨id, hid⟩ := Option.isSome_iff_exists.1 hsome
  obtain ⟨way, hway⟩ := hup.exists_way id
  have hjoined : q.joined.get .pid = some id := by
    rw [joined_survivors hl hq]
    exact hid
  have hspaces := spacesOf_joined hu h (ProcessTable.mem_pids_iff.2 ⟨p, hp⟩) hid hway
  have hfit : (PidMap.spacesOf w.graph id).length = q.innerPids.length := by
    rw [hspaces, ← hpq, hlength pid p id way hp hid hway]
    simp
  refine ⟨_, PidMap.entryOf_eq_chain hjoined hfit, p, id, way, hp, hid, hway, ?_⟩
  rw [hspaces, hpq]

/-- A process that can be read is left, and its numbers are in the map. -/
theorem exists_process (hl : ∀ p ∈ l, p.Unlinked) (hv : v.processes = .ofList l)
    (hu : Settled read l v [.pid] u)
    (h : Climbed L .pid u (Met L.up (u.Opened .pid fun _ => True)) none w) {p : Process}
    (hp : v.processes.get? pid = some p) (hid : read pid .pid = some id) :
    ∃ q, w.processes.get? pid = some q := by
  have hreadable : readable read [.pid] pid = true := by simp [readable, hid]
  have hinner := innerPids_survivors hl read [.pid] pid
  rw [if_pos hreadable, ← hv, hp, ← hu.processes_eq, ← processes_climbed h] at hinner
  obtain ⟨q, hq, _⟩ := Option.map_eq_some_iff.1 hinner
  exact ⟨q, hq⟩

/-! ## The map -/

/-- Where no two processes share a number, each number leads to all the numbers of its
process. -/
theorem numbers?_of_numbered {t : ProcessTable} (hw : w.processes.Sound)
    (hentry : ∀ pid q, w.processes.get? pid = some q →
      ∃ c, PidMap.entryOf w.graph q = .chain c ∧ Numbered t read L pid c)
    (hown : ∀ pid pid' c c', Numbered t read L pid c → Numbered t read L pid' c' →
      ∀ x ∈ c, x ∈ c' → pid = pid')
    {q : Process} (hq : w.processes.get? pid = some q) (hc : PidMap.entryOf w.graph q = .chain c)
    (hnumbered : Numbered t read L pid c) :
    ∀ x ∈ c, (PidMap.ofTable w.graph w.processes).numbers? x.pid x.space = some c := by
  have hmem : q ∈ w.processes.toList := by
    rw [ProcessTable.mem_toList_iff hw, hw.filed pid q hq]
    exact hq
  intro x hx
  refine PidMap.numbers?_ofTable (fun q' hq' d hd hxd => ?_) hmem hc hx
  obtain ⟨d', hd', hnumbered'⟩ := hentry _ q' ((ProcessTable.mem_toList_iff hw).1 hq')
  rw [hd] at hd'
  cases hd'
  rw [hown _ _ _ _ hnumbered' hnumbered x hxd hx] at hnumbered'
  exact hnumbered'.unique hnumbered

theorem skipped_of_numbered {t : ProcessTable} (hw : w.processes.Sound)
    (hentry : ∀ pid q, w.processes.get? pid = some q →
      ∃ c, PidMap.entryOf w.graph q = .chain c ∧ Numbered t read L pid c) :
    (PidMap.ofTable w.graph w.processes).skipped = 0 := by
  refine PidMap.skipped_foldl_add _ (fun q hq hmismatch => ?_) PidMap.empty
  obtain ⟨c, hc, _⟩ := hentry _ q ((ProcessTable.mem_toList_iff hw).1 hq)
  rw [hmismatch] at hc
  cases hc

end Numbers

/-! ## The law -/

/-- Where every process has as many numbers as there are PID namespaces above it and its own, and
no two processes share one, the command comes through: no process is left out of the map. Each
number of a process leads to all its numbers, from the outermost to the innermost, and to the
one that it has in any other of its namespaces. -/
theorem every_number_is_mapped {σ φ : Type} (k : Kernel σ φ) (stands : φ → Identity → Prop)
    (read : Pid → Species → Option Identity) (L : Lineage) (st : σ)
    (hk : k.Follows stands .pid L) (hup : Acyclic L.up)
    (hac : Acyclic (k.processTable Path.proc st).1.up)
    (hread : ∀ pid ∈ (k.processTable Path.proc st).1.pids,
      k.Reads stands Path.proc read pid .pid)
    (hlength : ∀ pid p id way, (k.processTable Path.proc st).1.get? pid = some p →
      read pid .pid = some id → Way L.up id way → p.innerPids.length = way.length + 1)
    (hown : ∀ pid pid' c c', Numbered (k.processTable Path.proc st).1 read L pid c →
      Numbered (k.processTable Path.proc st).1 read L pid' c' → ∀ x ∈ c, x ∈ c' → pid = pid') :
    ∃ v m, ((k.discover Command.pidOptions).run st).1 = .ok v ∧
      v.diagnostics.pidMismatches = 0 ∧ v.pidMap = some m ∧
      ∀ pid p id, (k.processTable Path.proc st).1.get? pid = some p → read pid .pid = some id →
        ∃ way, Way L.up id way ∧
          let c := PidMap.paired (way.reverse ++ [id]) p.innerPids
          c.length = p.innerPids.length ∧
          (∀ x ∈ c, m.numbers? x.pid x.space = some c) ∧
          ∀ x ∈ c, ∀ y ∈ c, m.numberIn? x.pid x.space y.space = some y.pid := by
  obtain ⟨l, ht, hl⟩ := exists_processTable (k := k) Path.proc st
  have hunlinked : ∀ p ∈ l, p.Unlinked := fun p hp => (hl p hp).1
  obtain ⟨w, hrun, own, u, hu, h⟩ := exists_survey k Command.pidOptions st
    (fun w => ∃ own u,
      Settled read l { options := Command.pidOptions
                       processes := (k.processTable Path.proc st).1
                       own } [.pid] u ∧
      Climbed L .pid u (Met L.up (u.Opened .pid fun _ => True)) none w)
    fun st' own => (ends_pidPlan hk hup hl (ht ▸ hac) ht rfl rfl rfl hread st').mono
      fun _ r ⟨hok, u, hu, h⟩ => ⟨hok, own, u, hu, h⟩
  have hentry : ∀ pid q, w.processes.get? pid = some q →
      ∃ c, PidMap.entryOf w.graph q = .chain c ∧
        Numbered (k.processTable Path.proc st).1 read L pid c :=
    fun pid q hq => entryOf_eq_numbered hunlinked ht hup hu h hlength hq
  have hsound : w.processes.Sound := by
    rw [processes_climbed h, hu.processes_eq]
    exact ProcessTable.sound_ofList (unlinked_survivors hunlinked)
  refine ⟨_, PidMap.ofTable w.graph w.processes, hrun, skipped_of_numbered hsound hentry, rfl,
    fun pid p id hp hid => ?_⟩
  obtain ⟨q, hq⟩ := exists_process hunlinked ht hu h hp hid
  obtain ⟨c, hc, hnumbered⟩ := hentry pid q hq
  have hmap := numbers?_of_numbered hsound hentry hown hq hc hnumbered
  obtain ⟨p', id', way, hp', hid', hway, rfl⟩ := hnumbered
  rw [hp] at hp'
  cases hp'
  rw [hid] at hid'
  cases hid'
  have hfit : (way.reverse ++ [id]).length = p.innerPids.length := by
    rw [hlength pid p id way hp hid hway]
    simp
  have hspaces : ((PidMap.paired (way.reverse ++ [id]) p.innerPids).map (·.space)).Nodup := by
    rw [PidMap.spaces_paired (Nat.le_of_eq hfit), ← List.reverse_cons]
    exact List.nodup_reverse.2 hway.nodup
  refine ⟨way, hway, ?_, hmap, fun x hx y hy => PidMap.numberIn?_eq (hmap x hx) hspaces hy⟩
  unfold PidMap.paired
  rw [List.length_map, List.length_zip, hfit, Nat.min_self]

/-! ## A nested process -/

namespace Tableau

/-- The processes of a host with one process three PID namespaces deep. -/
theorem processes_nested :
    (nested.kernel.processTable Path.proc ()).1.toList.map (fun p =>
      (p.pid, p.parent, p.innerPids, nested.joined Path.proc p.pid .pid)) =
    [(⟨1⟩, none, [⟨1⟩], some ⟨4, 1⟩),
      (⟨7⟩, some ⟨1⟩, [⟨7⟩, ⟨2⟩, ⟨1⟩], some ⟨4, 3⟩)] := by
  decide +kernel

theorem sound_nested : (nested.kernel.processTable Path.proc ()).1.Sound := by
  obtain ⟨l, ht, hl⟩ := exists_processTable (k := nested.kernel) Path.proc ()
  rw [ht]
  exact ProcessTable.sound_ofList fun p hp => (hl p hp).1

theorem of_get?_nested {pid : Pid} {p : Process}
    (h : (nested.kernel.processTable Path.proc ()).1.get? pid = some p) :
    (pid = ⟨1⟩ ∧ p.parent = none ∧ p.innerPids = [⟨1⟩] ∧
      nested.joined Path.proc pid .pid = some ⟨4, 1⟩) ∨
    (pid = ⟨7⟩ ∧ p.parent = some ⟨1⟩ ∧ p.innerPids = [⟨7⟩, ⟨2⟩, ⟨1⟩] ∧
      nested.joined Path.proc pid .pid = some ⟨4, 3⟩) := by
  obtain rfl := sound_nested.filed pid p h
  have hmem := List.mem_map_of_mem
    (f := fun p => (p.pid, p.parent, p.innerPids, nested.joined Path.proc p.pid .pid))
    ((ProcessTable.mem_toList_iff sound_nested).2 h)
  rw [processes_nested] at hmem
  simpa using hmem

theorem acyclic_processes_nested : Acyclic (nested.kernel.processTable Path.proc ()).1.up := by
  refine acyclic_of_rank (fun pid => pid.number.toInt.toNat) fun a b hab => ?_
  obtain ⟨p, hp, hparent⟩ := Option.bind_eq_some_iff.1 hab
  rcases of_get?_nested hp with ⟨rfl, htop, _⟩ | ⟨rfl, htop, _⟩
  · rw [hparent] at htop
    cases htop
  · rw [hparent] at htop
    cases htop
    decide

theorem numbered_nested {pid : Pid} {c : List LocalPid}
    (h : Numbered (nested.kernel.processTable Path.proc ()).1 (nested.joined Path.proc)
      nested.lineage pid c) :
    (pid = ⟨1⟩ ∧ c = [⟨⟨4, 1⟩, ⟨1⟩⟩]) ∨
      (pid = ⟨7⟩ ∧ c = [⟨⟨4, 1⟩, ⟨7⟩⟩, ⟨⟨4, 2⟩, ⟨2⟩⟩, ⟨⟨4, 3⟩, ⟨1⟩⟩]) := by
  obtain ⟨hway₁, hway₃⟩ := way_nested
  obtain ⟨p, id, way, hp, hid, hway, rfl⟩ := h
  rcases of_get?_nested hp with ⟨rfl, _, hinner, hjoined⟩ | ⟨rfl, _, hinner, hjoined⟩
  · rw [hid] at hjoined
    cases hjoined
    rw [hway.unique hway₁, hinner]
    exact Or.inl ⟨rfl, rfl⟩
  · rw [hid] at hjoined
    cases hjoined
    rw [hway.unique hway₃, hinner]
    exact Or.inr ⟨rfl, rfl⟩

end Tableau

/-- A process three namespaces deep has its number found in the innermost by the outermost. -/
theorem a_nested_number_is_mapped :
    ∃ v m, ((Tableau.nested.kernel.discover Command.pidOptions).run ()).1 = .ok v ∧
      v.diagnostics.pidMismatches = 0 ∧ v.pidMap = some m ∧
      m.numberIn? ⟨7⟩ ⟨4, 1⟩ ⟨4, 3⟩ = some ⟨1⟩ := by
  obtain ⟨hway₁, hway₃⟩ := Tableau.way_nested
  have hlength : ∀ pid p id way,
      (Tableau.nested.kernel.processTable Path.proc ()).1.get? pid = some p →
      Tableau.nested.joined Path.proc pid .pid = some id → Way Tableau.nested.lineage.up id way →
      p.innerPids.length = way.length + 1 := by
    intro pid p id way hp hid hway
    rcases Tableau.of_get?_nested hp with ⟨rfl, _, hinner, hjoined⟩ | ⟨rfl, _, hinner, hjoined⟩
    · rw [hid] at hjoined
      cases hjoined
      rw [hinner, hway.unique hway₁]
      rfl
    · rw [hid] at hjoined
      cases hjoined
      rw [hinner, hway.unique hway₃]
      rfl
  have hown : ∀ pid pid' c c',
      Numbered (Tableau.nested.kernel.processTable Path.proc ()).1
        (Tableau.nested.joined Path.proc) Tableau.nested.lineage pid c →
      Numbered (Tableau.nested.kernel.processTable Path.proc ()).1
        (Tableau.nested.joined Path.proc) Tableau.nested.lineage pid' c' →
      ∀ x ∈ c, x ∈ c' → pid = pid' := by
    intro pid pid' c c' h h' x hx hx'
    rcases Tableau.numbered_nested h with ⟨rfl, rfl⟩ | ⟨rfl, rfl⟩
    · rcases Tableau.numbered_nested h' with ⟨rfl, rfl⟩ | ⟨rfl, rfl⟩
      · rfl
      · revert x
        decide
    · rcases Tableau.numbered_nested h' with ⟨rfl, rfl⟩ | ⟨rfl, rfl⟩
      · revert x
        decide
      · rfl
  obtain ⟨v, m, hrun, hmismatches, hm, hall⟩ := every_number_is_mapped Tableau.nested.kernel Eq
    (Tableau.nested.joined Path.proc) Tableau.nested.lineage () (Tableau.nested.follows .pid)
    Tableau.acyclic_nested Tableau.acyclic_processes_nested
    (fun pid _ => Tableau.nested.reads Path.proc pid .pid) hlength hown
  refine ⟨v, m, hrun, hmismatches, hm, ?_⟩
  have hid : Tableau.nested.joined Path.proc ⟨7⟩ .pid = some ⟨4, 3⟩ := by
    decide +kernel
  have hthere : (Tableau.nested.kernel.processTable Path.proc ()).1.contains ⟨7⟩ = true := by
    decide +kernel
  obtain ⟨p, hp⟩ := Option.isSome_iff_exists.1 hthere
  obtain ⟨way, hway, _, _, hin⟩ := hall ⟨7⟩ p ⟨4, 3⟩ hp hid
  rcases Tableau.of_get?_nested hp with ⟨hpid, _⟩ | ⟨_, _, hinner, _⟩
  · cases hpid
  · rw [hway.unique hway₃, hinner] at hin
    exact hin ⟨⟨4, 1⟩, ⟨7⟩⟩ (by decide) ⟨⟨4, 3⟩, ⟨1⟩⟩ (by decide)

end NamespaceAtlas
