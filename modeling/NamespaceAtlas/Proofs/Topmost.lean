-- Topmost processes. An election goes up from each process for as long as the
-- parent has joined the namespace too. The way up ends, and in fewer steps than
-- there are processes, unless the parents that the kernel named go round.
import NamespaceAtlas.Proofs.Leadership

namespace NamespaceAtlas

namespace ProcessTable

/-- The parent of the process of a number, if it has joined the namespace. -/
def upWithin (t : ProcessTable) (s : Species) (id : Identity) (pid : Pid) : Option Pid :=
  (t.get? pid).bind fun p =>
    ((t.parentOf? p).filter fun q => q.joined.get s = some id).map (·.pid)

variable {t : ProcessTable} {s : Species} {id : Identity} {pid x : Pid} {p q : Process}

/-! ## One step up -/

theorem upWithin_eq_some (hp : t.get? pid = some p) : t.upWithin s id pid = some x ↔
    ∃ q, t.parentOf? p = some q ∧ q.joined.get s = some id ∧ q.pid = x := by
  unfold upWithin
  rw [hp, Option.bind_some, Option.map_eq_some_iff]
  simp only [Option.filter_eq_some_iff, decide_eq_true_eq, and_assoc]

theorem upWithin_eq_none (hp : t.get? pid = some p) : t.upWithin s id pid = none ↔
    ∀ q, t.parentOf? p = some q → q.joined.get s ≠ some id := by
  rw [Option.eq_none_iff_forall_ne_some]
  simp only [ne_eq, upWithin_eq_some hp]
  constructor
  · intro h q hq hjoined
    exact h q.pid ⟨q, hq, hjoined, rfl⟩
  · rintro h x ⟨q, hq, hjoined, _⟩
    exact h q hq hjoined

theorem Filed.get?_of_parentOf? (ht : Filed t.registry) (hq : t.parentOf? p = some q) :
    t.get? q.pid = some q := by
  obtain ⟨x, _, hx⟩ := Option.bind_eq_some_iff.1 hq
  rwa [ht x q hx]

/-- The way within a namespace goes from parents to parents. -/
theorem Filed.up_of_upWithin (ht : Filed t.registry) (h : t.upWithin s id pid = some x) :
    t.up pid = some x := by
  obtain ⟨p, hp, _⟩ := Option.bind_eq_some_iff.1 h
  obtain ⟨q, hq, _, rfl⟩ := (upWithin_eq_some hp).1 h
  obtain ⟨y, hy, hq⟩ := Option.bind_eq_some_iff.1 hq
  unfold up
  rw [hp, Option.bind_some, hy, ht y q hq]

/-- What is met on the way within a namespace has joined it and is in the table. -/
theorem Filed.get?_of_upWithin (ht : Filed t.registry) (h : t.upWithin s id pid = some x) :
    ∃ q, t.get? x = some q ∧ q.joined.get s = some id := by
  obtain ⟨p, hp, _⟩ := Option.bind_eq_some_iff.1 h
  obtain ⟨q, hq, hjoined, rfl⟩ := (upWithin_eq_some hp).1 h
  exact ⟨q, ht.get?_of_parentOf? hq, hjoined⟩

theorem topFrom_succ_of_upWithin (hp : t.get? pid = some p) (h : t.upWithin s id pid = some x)
    (steps : Nat) : ∃ q, t.parentOf? p = some q ∧ q.pid = x ∧
      t.topFrom s id (steps + 1) p = t.topFrom s id steps q := by
  obtain ⟨q, hq, hjoined, hx⟩ := (upWithin_eq_some hp).1 h
  refine ⟨q, hq, hx, ?_⟩
  rw [topFrom, hq]
  exact if_pos hjoined

/-! ## Whole ways -/

/-- With steps enough for its way one gets from a process to the last on the way, and no
further. -/
theorem Filed.topFrom_of_way (ht : Filed t.registry) {way : List Pid}
    (hway : Way (t.upWithin s id) pid way) : ∀ steps p, way.length ≤ steps →
      t.get? pid = some p →
        t.get? ((pid :: way).getLast (by simp)) = some (t.topFrom s id steps p) ∧
        ∀ q, t.parentOf? (t.topFrom s id steps p) = some q → q.joined.get s ≠ some id := by
  induction hway with
  | top hnone =>
    intro steps p _ hp
    have htop := (upWithin_eq_none hp).1 hnone
    rw [topFrom_of_no_parent htop]
    exact ⟨hp, htop⟩
  | @step pid x way hx _ ih =>
    intro steps p hsteps hp
    rw [List.length_cons] at hsteps
    obtain ⟨n, rfl⟩ := Nat.exists_eq_succ_of_ne_zero (show steps ≠ 0 by omega)
    obtain ⟨q, hq, rfl, htop⟩ := topFrom_succ_of_upWithin hp hx n
    rw [htop, List.getLast_cons (by simp)]
    exact ih n q (by omega) (ht.get?_of_parentOf? hq)

/-- A way within a namespace is shorter than the table. -/
theorem Filed.length_way_lt (ht : Filed t.registry) {way : List Pid}
    (hway : Way (t.upWithin s id) pid way) (hp : t.get? pid = some p) :
    way.length < t.size := by
  have hlength : way.length < t.pids.length := by
    refine hway.length_lt fun x hx => mem_pids_iff.2 ?_
    rcases List.mem_cons.1 hx with rfl | hx
    · exact ⟨p, hp⟩
    · obtain ⟨q, hq, _⟩ :=
        hway.forall_mem (fun a b hab => ht.get?_of_upWithin hab) x hx
      exact ⟨q, hq⟩
  rwa [pids, Registry.length_keys] at hlength

/-! ## Sound tables -/

theorem Sound.up_of_upWithin (ht : t.Sound) (h : t.upWithin s id pid = some x) :
    t.up pid = some x := Filed.up_of_upWithin ht.filed h

theorem Sound.topFrom_of_way (ht : t.Sound) {way : List Pid}
    (hway : Way (t.upWithin s id) pid way) : ∀ steps p, way.length ≤ steps →
      t.get? pid = some p →
        t.get? ((pid :: way).getLast (by simp)) = some (t.topFrom s id steps p) ∧
        ∀ q, t.parentOf? (t.topFrom s id steps p) = some q → q.joined.get s ≠ some id :=
  Filed.topFrom_of_way ht.filed hway

theorem Sound.length_way_lt (ht : t.Sound) {way : List Pid}
    (hway : Way (t.upWithin s id) pid way) (hp : t.get? pid = some p) :
    way.length < t.size := Filed.length_way_lt ht.filed hway hp

/-- Before a circle and on it there is one more step, however many were made. -/
theorem Sound.topFrom_of_goesRound (ht : t.Sound) (steps : Nat) : ∀ pid p,
    GoesRound (t.upWithin s id) pid → t.get? pid = some p →
      ∃ q, t.parentOf? (t.topFrom s id steps p) = some q ∧ q.joined.get s = some id := by
  induction steps with
  | zero =>
    intro pid p hround hp
    obtain ⟨x, hx, _⟩ := hround.next
    obtain ⟨q, hq, hjoined, _⟩ := (upWithin_eq_some hp).1 hx
    exact ⟨q, hq, hjoined⟩
  | succ steps ih =>
    intro pid p hround hp
    obtain ⟨x, hx, hround⟩ := hround.next
    obtain ⟨q, hq, rfl, htop⟩ := topFrom_succ_of_upWithin hp hx steps
    rw [htop]
    exact ih q.pid q hround (Filed.get?_of_parentOf? ht.filed hq)

/-! ## The links of a table -/

/-- A process is linked with the parent that the kernel named, if that is in the table and another
process. -/
theorem up_ofList_iff {l : List Process} (hl : ∀ p ∈ l, p.Unlinked) :
    (ofList l).up pid = some x ↔
      ∃ p, (ofList l).get? pid = some p ∧ p.parentPid = x ∧ x ≠ pid ∧
        (ofList l).contains x = true := by
  have hcontains : (ofList l).contains x = (register l).contains x := by
    change ((ofList l).get? x).isSome = _
    rw [get?_ofList hl, Option.isSome_map]
    rfl
  rw [up_ofList hl, get?_ofList hl, hcontains, Option.bind_eq_some_iff]
  constructor
  · rintro ⟨p, hp, hparent⟩
    obtain ⟨hne, hknown, hx⟩ := linkedParent?_eq_some.1 hparent
    rw [hp, Option.map_some]
    exact ⟨_, rfl, hx, filed_register l pid p hp ▸ hne, hknown⟩
  · rintro ⟨q, hq, hx, hne, hknown⟩
    obtain ⟨p, hp, rfl⟩ := Option.map_eq_some_iff.1 hq
    refine ⟨p, hp, linkedParent?_eq_some.2 ⟨?_, hknown, hx⟩⟩
    rwa [filed_register l pid p hp]

end ProcessTable

/-! ## The law -/

/-- Take the table of any processes, and some of them out again. Each is linked with the parent that
the kernel named, if that is there and another process, and taking out makes no new link. From a
process that has joined a namespace the way up ends, in fewer steps than there are processes, at one
whose parent is gone or has joined another, unless it comes to processes of the namespace that stand
above themselves. There it never ends. -/
theorem a_way_up_ends_or_goes_round (l : List Process) (hl : ∀ p ∈ l, p.Unlinked)
    (gone : List Pid) :
    let t := gone.foldl ProcessTable.erase (.ofList l)
    (∀ pid x, t.up pid = some x ↔ ∃ p, t.get? pid = some p ∧ p.parentPid = x ∧ x ≠ pid ∧
      t.contains x = true) ∧
    (∀ pid x, t.up pid = some x → (ProcessTable.ofList l).up pid = some x) ∧
    ∀ s id pid p, t.get? pid = some p → p.joined.get s = some id →
      (¬ GoesRound (t.upWithin s id) pid →
        ∃ way, Way (t.upWithin s id) pid way ∧ way.length < t.size ∧
          ∀ steps, way.length ≤ steps →
            t.get? ((pid :: way).getLast (by simp)) = some (t.topFrom s id steps p) ∧
            (t.topFrom s id steps p).joined.get s = some id ∧
            ∀ q, t.parentOf? (t.topFrom s id steps p) = some q → q.joined.get s ≠ some id) ∧
      (GoesRound (t.upWithin s id) pid → GoesRound t.up pid ∧ ∀ steps, ∃ q,
        t.parentOf? (t.topFrom s id steps p) = some q ∧ q.joined.get s = some id) := by
  intro t
  have hleft : ∀ p ∈ l.filter (·.pid ∉ gone), p.Unlinked :=
    fun p hp => hl p (List.mem_filter.1 hp).1
  have ht : t = .ofList (l.filter (·.pid ∉ gone)) := ProcessTable.foldl_erase_ofList gone l hl
  have hsound : t.Sound := ht ▸ ProcessTable.sound_ofList hleft
  refine ⟨fun pid x => ?_, fun pid x hx => ?_, fun s id pid p hp hjoined => ⟨fun hends => ?_, ?_⟩⟩
  · rw [ht]
    exact ProcessTable.up_ofList_iff hleft
  · rw [ht] at hx
    exact ProcessTable.up_ofList_filter hl (· ∉ gone) hx
  · obtain ⟨way, hway⟩ := exists_way_iff.2 hends
    refine ⟨way, hway, hsound.length_way_lt hway hp, fun steps hsteps => ?_⟩
    obtain ⟨hlast, htop⟩ := hsound.topFrom_of_way hway steps p hsteps hp
    have hlinked : t.Linked := ht ▸ ProcessTable.Linked.ofList hleft
    obtain ⟨q, hq, hqjoined⟩ := ProcessTable.joined_topFrom hlinked steps pid p hp hjoined
    rw [hsound.filed _ _ hlast, hlast] at hq
    cases hq
    exact ⟨hlast, hqjoined, htop⟩
  · intro hround
    exact ⟨hround.mono fun _ _ => hsound.up_of_upWithin,
      fun steps => hsound.topFrom_of_goesRound steps pid p hround hp⟩

/-- Four processes in one namespace. The last two name each other as parents. -/
def entangled : List Process :=
  let process (pid parentPid : Int) : Process := {
    pid := .ofInt pid
    parentPid := .ofInt parentPid
    name := "sh"
    started := 1
    joined := { BySpecies.same none with net := some ⟨4, 5⟩ } }
  [process 1 0, process 2 1, process 7 8, process 8 7]

/-- The last two go up to each other. -/
theorem above_entangled : Above ((ProcessTable.ofList entangled).upWithin .net ⟨4, 5⟩) ⟨7⟩ ⟨7⟩ := by
  have hseven : (ProcessTable.ofList entangled).upWithin .net ⟨4, 5⟩ ⟨7⟩ = some ⟨8⟩ := by
    decide +kernel
  have height : (ProcessTable.ofList entangled).upWithin .net ⟨4, 5⟩ ⟨8⟩ = some ⟨7⟩ := by
    decide +kernel
  exact (Above.single hseven).trans (Above.single height)

/-- One of the processes finds its leader, and from another the way up never ends. -/
theorem a_leader_is_found_beside_a_circle :
    (∀ p ∈ entangled, p.Unlinked) ∧
    let t := ProcessTable.ofList entangled
    (∃ p, t.get? ⟨2⟩ = some p ∧ t.get? ⟨1⟩ = some (t.topFrom .net ⟨4, 5⟩ t.size p)) ∧
    ∃ p, t.get? ⟨7⟩ = some p ∧ ∀ steps, ∃ q,
      t.parentOf? (t.topFrom .net ⟨4, 5⟩ steps p) = some q ∧ q.joined.net = some ⟨4, 5⟩ := by
  have hunlinked : ∀ p ∈ entangled, p.Unlinked := by simp [entangled, Process.Unlinked]
  obtain ⟨_, _, hwalk⟩ := a_way_up_ends_or_goes_round entangled hunlinked []
  let t := ProcessTable.ofList entangled
  let two := (t.get? ⟨2⟩).get (by decide +kernel)
  let seven := (t.get? ⟨7⟩).get (by decide +kernel)
  have htwo : t.get? ⟨2⟩ = some two := (Option.some_get _).symm
  have hseven : t.get? ⟨7⟩ = some seven := (Option.some_get _).symm
  have hway : Way (t.upWithin .net ⟨4, 5⟩) ⟨2⟩ [⟨1⟩] :=
    .step (by decide +kernel) (.top (by decide +kernel))
  refine ⟨hunlinked, ⟨two, htwo, ?_⟩, seven, hseven, ?_⟩
  · obtain ⟨way, hway', hlength, htop⟩ :=
      (hwalk .net ⟨4, 5⟩ ⟨2⟩ two htwo (by decide +kernel)).1 hway.not_goesRound
    obtain rfl := hway.unique hway'
    exact (htop t.size (Nat.le_of_lt hlength)).1
  · exact ((hwalk .net ⟨4, 5⟩ ⟨7⟩ seven hseven (by decide +kernel)).2
      ⟨⟨7⟩, Or.inl rfl, above_entangled⟩).2

/-- A table in which two processes stand above each other, so that no way up leads from them to a
leader. -/
theorem two_processes_are_above_each_other :
    Above (ProcessTable.ofList entangled).up ⟨7⟩ ⟨7⟩ ∧
      ¬ ∃ way, Way ((ProcessTable.ofList entangled).upWithin .net ⟨4, 5⟩) ⟨7⟩ way := by
  have hunlinked : ∀ p ∈ entangled, p.Unlinked := by simp [entangled, Process.Unlinked]
  refine ⟨above_entangled.mono fun _ _ => (ProcessTable.sound_ofList hunlinked).up_of_upWithin, ?_⟩
  rw [exists_way_iff, not_not]
  exact ⟨⟨7⟩, Or.inl rfl, above_entangled⟩

end NamespaceAtlas
