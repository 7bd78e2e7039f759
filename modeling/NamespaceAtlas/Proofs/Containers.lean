-- Containers and their processes. A link that is made stands on both sides at
-- once, so such links agree. None that was there before is taken back. Where
-- there was none, it is settled for each container and each process.
import NamespaceAtlas.Survey
import NamespaceAtlas.Proofs.ProcessTable
import NamespaceAtlas.Proofs.Graph.Forest

namespace NamespaceAtlas

namespace Survey

variable {v : Survey} {c : Container} {pid : Pid} {l : List Container}

/-! ## The process of a container -/

/-- A container that runs stands for a process: by the number that the engine reports, if that is
one of the PID namespace of the caller, and otherwise by what the map makes of it there. -/
inductive Resolves (v : Survey) (c : Container) : Pid → Prop
  | unspaced (hruns : c.pid.toInt ≠ 0) (hspace : c.pidSpace = none) : Resolves v c c.pid
  | own {id : Identity} (hruns : c.pid.toInt ≠ 0) (hspace : c.pidSpace = some id)
      (hown : v.own.pid = some id) : Resolves v c c.pid
  | translated {source target : Identity} {map : PidMap} {pid : Pid} (hruns : c.pid.toInt ≠ 0)
      (hspace : c.pidSpace = some source) (hown : v.own.pid = some target)
      (hne : source ≠ target) (hmap : v.pidMap = some map)
      (hnumber : map.numberIn? c.pid source target = some pid) : Resolves v c pid

theorem pidOf?_eq_some_iff (hruns : c.pid.toInt ≠ 0) :
    v.pidOf? c = some pid ↔ v.Resolves c pid := by
  constructor
  · intro h
    unfold pidOf? at h
    split at h
    · rename_i hspace
      cases h
      exact .unspaced hruns hspace
    · rename_i source hspace
      split at h
      · cases h
      · rename_i target hown
        split at h
        · rename_i heq
          cases h
          exact .own hruns (heq ▸ hspace) hown
        · rename_i hne
          obtain ⟨map, hmap, hnumber⟩ := Option.bind_eq_some_iff.1 h
          exact .translated hruns hspace hown hne hmap hnumber
  · intro h
    unfold pidOf?
    cases h with
    | unspaced _ hspace => rw [hspace]
    | own _ hspace hown => simp only [hspace, hown, if_true]
    | translated _ hspace hown hne hmap hnumber =>
      simp only [hspace, hown, if_neg hne, hmap, Option.bind_some, hnumber]

theorem Resolves.runs (h : v.Resolves c pid) : c.pid.toInt ≠ 0 := by
  cases h <;> assumption

theorem processOf?_eq_some_iff :
    v.processOf? c = some pid ↔ v.Resolves c pid ∧ v.processes.contains pid = true := by
  unfold processOf?
  split
  · rename_i hstopped
    exact iff_of_false nofun fun h => h.1.runs hstopped
  · rename_i hruns
    rw [Option.filter_eq_some_iff, pidOf?_eq_some_iff hruns]

theorem processOf?_eq_none_iff : v.processOf? c = none ↔
    ∀ pid, v.Resolves c pid → v.processes.contains pid = false := by
  rw [Option.eq_none_iff_forall_ne_some]
  simp only [ne_eq, processOf?_eq_some_iff, not_and, Bool.not_eq_true]

/-- Which process it is that a container came with does not matter. -/
theorem Resolves.withProcess (h : v.Resolves c pid) (process : Option Pid) :
    v.Resolves { c with process } pid := by
  cases h with
  | unspaced hruns hspace => exact .unspaced hruns hspace
  | own hruns hspace hown => exact .own hruns hspace hown
  | translated hruns hspace hown hne hmap hnumber =>
    exact .translated hruns hspace hown hne hmap hnumber

/-! ## Linking as a whole -/

/-- The last of a list of containers that stand for a process. -/
def lastFor? (v : Survey) (l : List Container) (pid : Pid) : Option Container :=
  l.reverse.find? fun c => v.processOf? c = some pid

/-- The processes, each with the name of the last container that stands for it. The others keep
the container they had. -/
def labelled (v : Survey) (l : List Container) : ProcessTable :=
  ⟨v.processes.registry.mapWithKey fun pid p =>
    { p with container := ((v.lastFor? l pid).map (·.name)).or p.container }⟩

/-- A container with the process it stands for. Where there is none it keeps what it came with. -/
def attached (v : Survey) (c : Container) : Container :=
  { c with process := (v.processOf? c).or c.process }

/-- A survey after linkings: all the containers that were linked, and those that were kept. -/
def withLinks (v : Survey) (l kept : List Container) : Survey :=
  { v with processes := v.labelled l, containers := kept }

variable {kept : List Container}

theorem lastFor?_append {m : List Container} :
    v.lastFor? (l ++ m) pid = (v.lastFor? m pid).or (v.lastFor? l pid) := by
  unfold lastFor?
  rw [List.reverse_append, List.find?_append]

theorem lastFor?_singleton :
    v.lastFor? [c] pid = if v.processOf? c = some pid then some c else none := by
  simp [lastFor?, List.find?_singleton]

theorem lastFor?_eq_some (h : v.lastFor? l pid = some c) :
    c ∈ l ∧ v.processOf? c = some pid := by
  have hfor : decide (v.processOf? c = some pid) = true :=
    List.find?_some (p := fun c => decide (v.processOf? c = some pid)) h
  exact ⟨List.mem_reverse.1 (List.mem_of_find?_eq_some h), of_decide_eq_true hfor⟩

theorem lastFor?_eq_none (h : v.lastFor? l pid = none) (hc : c ∈ l) :
    v.processOf? c ≠ some pid :=
  fun hfor => List.find?_eq_none.1 h c (List.mem_reverse.2 hc) (decide_eq_true hfor)

theorem get?_labelled : (v.labelled l).get? pid = (v.processes.get? pid).map fun p =>
    { p with container := ((v.lastFor? l pid).map (·.name)).or p.container } :=
  Registry.get?_mapWithKey ..

/-- Containers that stand for no process give no labels. -/
theorem labelled_eq_self (h : ∀ pid, v.lastFor? l pid = none) : v.labelled l = v.processes := by
  refine ProcessTable.ext_get? fun pid => ?_
  rw [get?_labelled, h]
  exact Option.map_id'

theorem withLinks_nil : v.withLinks [] v.containers = v := by
  unfold withLinks
  rw [labelled_eq_self fun _ => rfl]

/-- A linking does not change which process a container stands for. -/
@[simp] theorem processOf?_withLinks : (v.withLinks l kept).processOf? c = v.processOf? c := by
  unfold processOf?
  congr 2
  exact funext fun pid => Registry.contains_mapWithKey

@[simp] theorem attached_withLinks : (v.withLinks l kept).attached = v.attached := by
  funext c
  simp only [attached, processOf?_withLinks]

/-- Of two linkings one after the other the second prevails where both give a name. -/
theorem withLinks_withLinks (m kept' : List Container) :
    (v.withLinks l kept).withLinks m kept' = v.withLinks (l ++ m) kept' := by
  have hlast (pid : Pid) : (v.withLinks l kept).lastFor? m pid = v.lastFor? m pid := by
    simp only [lastFor?, processOf?_withLinks]
  have hlabelled : (v.withLinks l kept).labelled m = v.labelled (l ++ m) := by
    refine ProcessTable.ext_get? fun pid => ?_
    have hbefore : (v.withLinks l kept).processes.get? pid = _ := get?_labelled
    rw [get?_labelled, hbefore, get?_labelled, Option.map_map, hlast, lastFor?_append]
    refine congrArg (Option.map · _) (funext fun p => ?_)
    cases v.lastFor? m pid <;> rfl
  unfold withLinks at hlabelled ⊢
  rw [hlabelled]

theorem linkContainer_eq (v : Survey) (c : Container) :
    v.linkContainer c = (v.withLinks [c] v.containers, v.attached c) := by
  unfold linkContainer withLinks attached
  split
  · rename_i hnone
    have hsame : v.labelled [c] = v.processes := by
      refine labelled_eq_self fun pid => ?_
      rw [lastFor?_singleton, hnone]
      rfl
    rw [hsame, hnone, Option.none_or]
  · rename_i pid hpid
    have hlabelled : v.labelled [c] =
        v.processes.modify pid fun p => { p with container := some c.name } := by
      refine ProcessTable.ext_get? fun x => ?_
      rw [get?_labelled, lastFor?_singleton, hpid]
      refine Eq.trans ?_ (Registry.get?_modify ..).symm
      by_cases hx : pid = x
      · subst hx
        rw [if_pos rfl, if_pos rfl]
        rfl
      · rw [if_neg (mt Option.some.inj hx), if_neg (mt Registry.rank_inj.1 hx)]
        exact Option.map_id'
    rw [hlabelled, hpid, Option.some_or]

theorem linkAll_eq (l : List Container) : ∀ v : Survey,
    v.linkAll l = (v.withLinks l v.containers, l.map v.attached) := by
  induction l with
  | nil =>
    intro v
    rw [withLinks_nil]
    rfl
  | cons c rest ih =>
    intro v
    -- The first is linked by now, which does not change what the others stand for.
    simp only [linkAll, linkContainer_eq, ih, attached_withLinks, withLinks_withLinks]
    rfl

theorem linkContainers_eq (v : Survey) (l : List Container) :
    v.linkContainers l = v.withLinks l (l.map v.attached) := by
  unfold linkContainers
  rw [linkAll_eq]
  rfl

/-- Linkings one after the other are one linking of all their containers. -/
theorem foldl_linkContainers (lists : List (List Container)) : ∀ v : Survey,
    ∃ kept, lists.foldl linkContainers v = v.withLinks lists.flatten kept := by
  induction lists with
  | nil =>
    intro v
    refine ⟨v.containers, ?_⟩
    rw [List.flatten_nil, withLinks_nil]
    rfl
  | cons l rest ih =>
    intro v
    obtain ⟨kept, hrest⟩ := ih (v.linkContainers l)
    refine ⟨kept, ?_⟩
    rw [List.foldl_cons, hrest, linkContainers_eq, withLinks_withLinks, List.flatten_cons]

/-! ## Both sides of a link -/

theorem process_attached : (v.attached c).process = some pid ↔
    v.Resolves c pid ∧ v.processes.contains pid = true ∨
      c.process = some pid ∧ ∀ x, v.Resolves c x → v.processes.contains x = false := by
  rw [← processOf?_eq_some_iff, ← processOf?_eq_none_iff, and_comm (a := c.process = some pid)]
  exact Option.or_eq_some_iff

/-- What a process has after linkings of some containers and then of others. -/
theorem container_withLinks {m : List Container} {q : Process}
    (hq : (v.withLinks (l ++ m) kept).processes.get? pid = some q) :
    ∃ p, v.processes.get? pid = some p ∧ q = { p with container := q.container } ∧
      ((∃ c ∈ m.map v.attached, q.container = some c.name ∧ c.process = some pid ∧
          v.Resolves c pid) ∨
        (∀ c ∈ m, ¬ v.Resolves c pid) ∧
          ((∃ c ∈ l, q.container = some c.name ∧ v.Resolves c pid) ∨
            q.container = p.container)) := by
  have hlabelled : (v.labelled (l ++ m)).get? pid = some q := hq
  rw [get?_labelled, lastFor?_append] at hlabelled
  obtain ⟨p, hp, rfl⟩ := Option.map_eq_some_iff.1 hlabelled
  have hknown : v.processes.contains pid = true := Registry.contains_iff.2 ⟨p, hp⟩
  refine ⟨p, hp, rfl, ?_⟩
  cases hlast : v.lastFor? m pid with
  | some c =>
    obtain ⟨hc, hfor⟩ := lastFor?_eq_some hlast
    have hresolves := processOf?_eq_some_iff.1 hfor
    exact Or.inl ⟨v.attached c, List.mem_map_of_mem hc, rfl,
      process_attached.2 (Or.inl hresolves), hresolves.1.withProcess _⟩
  | none =>
    refine Or.inr ⟨fun c hc hresolves => ?_, ?_⟩
    · exact lastFor?_eq_none hlast hc (processOf?_eq_some_iff.2 ⟨hresolves, hknown⟩)
    · cases hbefore : v.lastFor? l pid with
      | some c =>
        obtain ⟨hc, hfor⟩ := lastFor?_eq_some hbefore
        exact Or.inl ⟨c, hc, rfl, (processOf?_eq_some_iff.1 hfor).1⟩
      | none => exact Or.inr rfl

/-! ## The first linking -/

/-- The name of the last of a list of containers that are linked with a process. -/
def nameFor? (l : List Container) (pid : Pid) : Option String :=
  ((l.filter fun c => c.process = some pid).getLast?).map (·.name)

theorem process_attached_of_none (h : c.process = none) :
    (v.attached c).process = v.processOf? c := by
  simp [attached, h]

theorem lastFor?_eq_getLast? :
    v.lastFor? l pid = (l.filter fun c => v.processOf? c = some pid).getLast? :=
  List.getLast?_filter.symm

/-- Where containers come without processes, the last that stands for a process is the last that is
linked with it. -/
theorem nameFor?_attached (hnew : ∀ c ∈ l, c.process = none) :
    nameFor? (l.map v.attached) pid = (v.lastFor? l pid).map (·.name) := by
  have hsame : l.filter ((fun c => decide (c.process = some pid)) ∘ v.attached) =
      l.filter fun c => v.processOf? c = some pid :=
    List.filter_congr fun c hc => by simp [process_attached_of_none (hnew c hc)]
  unfold nameFor?
  rw [List.filter_map, hsame, List.getLast?_map, ← lastFor?_eq_getLast?, Option.map_map]
  rfl

/-- Of a table without containers the processes have those of the list only. -/
theorem get?_linkContainers
    (hfree : ∀ pid p, v.processes.get? pid = some p → p.container = none)
    (hnew : ∀ c ∈ l, c.process = none) :
    (v.linkContainers l).processes.get? pid = (v.processes.get? pid).map fun p =>
      { p with container := nameFor? (v.linkContainers l).containers pid } := by
  rw [linkContainers_eq]
  change (v.labelled l).get? pid = (v.processes.get? pid).map fun p =>
    { p with container := nameFor? (l.map v.attached) pid }
  rw [get?_labelled, nameFor?_attached hnew]
  refine Option.map_congr fun p hp => ?_
  rw [hfree pid p hp, Option.or_none]

end Survey

/-! ## The laws -/

/-- A container that is linked has the process it stands for in the table; one that stands for none
there keeps the process it came with. A process for which containers of the list stand has the name
of one that is linked with it; any other keeps its container, which is one of an earlier linking or
the one it had at first. So both sides agree in full if containers come without processes and
every process that had a container has one in the list. -/
theorem links_agree_where_they_are_made (v : Survey) (earlier : List (List Container))
    (l : List Container) :
    let u := (earlier.foldl Survey.linkContainers v).linkContainers l
    l.Forall₂ (fun c c' => c' = { c with process := c'.process } ∧
      ∀ pid, c'.process = some pid ↔
        v.Resolves c pid ∧ v.processes.contains pid = true ∨
        c.process = some pid ∧ ∀ x, v.Resolves c x → v.processes.contains x = false)
      u.containers ∧
    (∀ pid q, u.processes.get? pid = some q → ∃ p, v.processes.get? pid = some p ∧
      q = { p with container := q.container } ∧
      ((∃ c ∈ u.containers, q.container = some c.name ∧ c.process = some pid ∧
          v.Resolves c pid) ∨
        (∀ c ∈ l, ¬ v.Resolves c pid) ∧
          ((∃ c ∈ earlier.flatten, q.container = some c.name ∧ v.Resolves c pid) ∨
            q.container = p.container))) ∧
    ((∀ c ∈ l, c.process = none) →
      (∀ pid p, v.processes.get? pid = some p →
        p.container ≠ none ∨ (∃ c ∈ earlier.flatten, v.Resolves c pid) →
        ∃ c ∈ l, v.Resolves c pid) →
      (∀ c ∈ u.containers, ∀ pid, c.process = some pid →
        v.Resolves c pid ∧ v.processes.contains pid = true) ∧
      ∀ pid q n, u.processes.get? pid = some q → q.container = some n →
        ∃ c ∈ u.containers, c.name = n ∧ c.process = some pid) := by
  intro u
  obtain ⟨kept, hearlier⟩ := Survey.foldl_linkContainers earlier v
  have hu : u = v.withLinks (earlier.flatten ++ l) (l.map v.attached) := by
    simp only [u, hearlier, Survey.linkContainers_eq, Survey.attached_withLinks,
      Survey.withLinks_withLinks]
  have hcontainers : u.containers = l.map v.attached := congrArg Survey.containers hu
  have hside := fun pid q (hq : u.processes.get? pid = some q) =>
    Survey.container_withLinks (hu ▸ hq)
  rw [hcontainers]
  refine ⟨?_, hside, fun hnew hreplaced => ⟨?_, fun pid q n hq hn => ?_⟩⟩
  · rw [List.forall₂_map_right_iff]
    exact List.forall₂_same.2 fun c _ => ⟨rfl, fun pid => Survey.process_attached⟩
  · intro c' hc' pid hpid
    obtain ⟨c, hc, rfl⟩ := List.mem_map.1 hc'
    rcases Survey.process_attached.1 hpid with ⟨hresolves, hknown⟩ | ⟨hcame, _⟩
    · exact ⟨hresolves.withProcess _, hknown⟩
    · rw [hnew c hc] at hcame
      cases hcame
  · obtain ⟨p, hp, _, ⟨c, hc, hname, hprocess, _⟩ | ⟨hnone, hbefore⟩⟩ := hside pid q hq
    · exact ⟨c, hc, Option.some.inj (hname.symm.trans hn), hprocess⟩
    · -- A container of before, which one of the list would have replaced.
      have hhad : p.container ≠ none ∨ ∃ c ∈ earlier.flatten, v.Resolves c pid := by
        rcases hbefore with ⟨c, hc, _, hresolves⟩ | hsame
        · exact Or.inr ⟨c, hc, hresolves⟩
        · left
          rw [← hsame, hn]
          exact Option.some_ne_none n
      obtain ⟨c, hc, hresolves⟩ := hreplaced pid p hp hhad
      exact absurd hresolves (hnone c hc)

/-- A container that has stopped keeps the process it came with, and the process keeps the container
of an earlier linking, which is not in the list any more. -/
theorem a_link_outlives_its_container :
    let web : Container := { id := "c0", name := "web", engine := "mock", pid := ⟨1⟩ }
    let stopped : Container :=
      { id := "c1", name := "stopped", engine := "mock", pid := ⟨0⟩, process := some ⟨1⟩ }
    let first : Process := { pid := ⟨1⟩, parentPid := ⟨0⟩, name := "p", started := 0 }
    let v : Survey := { options := .full, processes := .ofList [first] }
    let u := (v.linkContainers [web]).linkContainers [stopped]
    (∃ c ∈ u.containers, c.process = some ⟨1⟩ ∧ c.pid.toInt = 0 ∧ ∀ pid, ¬ v.Resolves c pid) ∧
    ∃ q, u.processes.get? ⟨1⟩ = some q ∧ q.container = some "web" ∧
      ¬ ∃ c ∈ u.containers, c.name = "web" := by
  intro web stopped first v u
  have hcontainers : u.containers = [stopped] := by decide +kernel
  have hprocess : (u.processes.get? ⟨1⟩).map (·.container) = some (some "web") := by
    decide +kernel
  obtain ⟨q, hq, hcontainer⟩ := Option.map_eq_some_iff.1 hprocess
  refine ⟨⟨stopped, ?_, rfl, rfl, fun pid h => h.runs rfl⟩, q, hq, hcontainer, ?_⟩
  · rw [hcontainers]
    exact List.mem_singleton_self _
  · rw [hcontainers]
    decide

/-- Where no process has a container and no container a process: each container is linked with the
process it stands for, if that is in the table, and with none otherwise. Each process has the name
of the last container that is linked with it, if there is one. Nothing else changes. -/
theorem containers_are_linked_with_their_processes (v : Survey) (l : List Container)
    (hfree : ∀ pid p, v.processes.get? pid = some p → p.container = none)
    (hnew : ∀ c ∈ l, c.process = none) :
    let u := v.linkContainers l
    l.Forall₂ (fun c c' => c' = { c with process := c'.process } ∧
      ∀ pid, c'.process = some pid ↔
        v.Resolves c pid ∧ v.processes.contains pid = true) u.containers ∧
    (∀ pid, u.processes.get? pid = (v.processes.get? pid).map fun p =>
      { p with container := Survey.nameFor? u.containers pid }) ∧
    u = { v with processes := u.processes, containers := u.containers } := by
  intro u
  have hu : u = v.withLinks l (l.map v.attached) := Survey.linkContainers_eq v l
  refine ⟨?_, fun pid => Survey.get?_linkContainers hfree hnew, ?_⟩
  · rw [hu]
    change l.Forall₂ _ (l.map v.attached)
    rw [List.forall₂_map_right_iff]
    refine List.forall₂_same.2 fun c hc => ⟨rfl, fun pid => ?_⟩
    rw [Survey.process_attached_of_none (hnew c hc), Survey.processOf?_eq_some_iff]
  · rw [hu]
    rfl

/-- A container is reported by its number in a nested PID namespace, after another one for the same
process. One has stopped, one is numbered in a namespace that is not known, and one has no process
in the table. -/
theorem the_last_container_names_its_process :
    let g := Graph.after [.insertNew .pid ⟨4, 1⟩ .empty, .insertNew .pid ⟨4, 2⟩ .empty,
      .addChild .pid ⟨4, 1⟩ ⟨4, 2⟩]
    let first : Process := { pid := ⟨1⟩, parentPid := ⟨0⟩, name := "init", started := 0 }
    let inner : Process := {
      pid := ⟨500⟩, parentPid := ⟨1⟩, name := "sh", started := 7, innerPids := [⟨500⟩, ⟨1⟩]
      joined := (BySpecies.same none).set .pid (some ⟨4, 2⟩) }
    let t := ProcessTable.ofList [first, inner]
    let v : Survey := {
      options := .full, graph := g, processes := t, pidMap := some (PidMap.ofTable g t)
      own := (BySpecies.same none).set .pid (some ⟨4, 1⟩) }
    let container (name : String) (pid : Pid) (pidSpace : Option Identity) : Container :=
      { id := name, name, engine := "mock", pid, pidSpace }
    let l := [container "host" ⟨1⟩ (some ⟨4, 1⟩), container "outer" ⟨500⟩ none,
      container "inner" ⟨1⟩ (some ⟨4, 2⟩), container "stopped" ⟨0⟩ none,
      container "elsewhere" ⟨1⟩ (some ⟨4, 9⟩), container "gone" ⟨77⟩ none]
    let u := v.linkContainers l
    (∀ pid p, v.processes.get? pid = some p → p.container = none) ∧
    (∀ c ∈ l, c.process = none) ∧
    u.containers.map (·.process) = [some ⟨1⟩, some ⟨500⟩, some ⟨500⟩, none, none, none] ∧
    u.processes.get? ⟨500⟩ = some { inner with parent := some ⟨1⟩, container := some "inner" } := by
  intro g first inner t v container l u
  have hfree : ∀ e ∈ t.registry.entries, e.2.container = none := by decide +kernel
  have hfree : ∀ pid p, v.processes.get? pid = some p → p.container = none :=
    fun pid p hp => hfree (pid, p) (Registry.mem_entries_iff.2 hp)
  have hnew : ∀ c ∈ l, c.process = none := by decide +kernel
  obtain ⟨_, hnamed, _⟩ := containers_are_linked_with_their_processes v l hfree hnew
  have hlinks : u.containers.map (·.process) =
      [some ⟨1⟩, some ⟨500⟩, some ⟨500⟩, none, none, none] := by
    decide +kernel
  refine ⟨hfree, hnew, hlinks, ?_⟩
  rw [hnamed ⟨500⟩]
  decide +kernel

end NamespaceAtlas
