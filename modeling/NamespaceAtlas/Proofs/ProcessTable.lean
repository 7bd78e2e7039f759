-- Process tables as lists. The table of a list links each process with those
-- of its relatives that the list holds too. To take a process out of the
-- table is to take it out of the list.
import NamespaceAtlas.ProcessTable
import NamespaceAtlas.Registry.Lookup
import NamespaceAtlas.Proofs.Way

namespace NamespaceAtlas

namespace Process

/-- A process of which no relatives are recorded. -/
def Unlinked (p : Process) : Prop := p.parent = none ∧ p.children = []

/-- The process with these relatives. -/
def withRelatives (p : Process) (parent : Option Pid) (children : List Pid) : Process :=
  { p with parent, children }

/-- The process with a change of the namespaces it has joined. -/
def mapJoined (f : Pid → BySpecies (Option Identity) → BySpecies (Option Identity))
    (p : Process) : Process := { p with joined := f p.pid p.joined }

end Process

namespace ProcessTable

/-- The processes of a list under their numbers, without any links. -/
def register (l : List Process) : Registry Pid Process :=
  Registry.ofList (l.map fun p => (p.pid, p))

/-- The processes that are linked to one as their parent, by ascending numbers. -/
def childrenOf (r : Registry Pid Process) (pid : Pid) : List Pid :=
  (r.values.filter fun c => linkedParent? r c = some pid).map (·.pid)

/-- The links of the processes with their parents, children first. -/
def linksOf (r : Registry Pid Process) : List (Pid × Pid) :=
  r.values.filterMap fun p => (linkedParent? r p).map fun parent => (p.pid, parent)

/-- The table in which each process has the relatives that the registry gives it. -/
def wired (r : Registry Pid Process) : ProcessTable :=
  ⟨r.mapWithKey fun _ p => p.withRelatives (linkedParent? r p) (childrenOf r p.pid)⟩

/-- Every process stands under its own number. -/
def Filed (r : Registry Pid Process) : Prop := ∀ pid p, r.get? pid = some p → p.pid = pid

variable {r : Registry Pid Process} {l : List Process} {p q : Process} {pid x : Pid}

theorem get?_wired : (wired r).get? pid =
    (r.get? pid).map fun p => p.withRelatives (linkedParent? r p) (childrenOf r p.pid) :=
  Registry.get?_mapWithKey ..

theorem mem_of_get?_register (h : (register l).get? pid = some p) : p ∈ l ∧ p.pid = pid := by
  obtain ⟨q, hq, heq⟩ := List.mem_map.1 (Registry.mem_of_get?_ofList h)
  obtain ⟨hpid, rfl⟩ := Prod.mk.inj heq
  exact ⟨hq, hpid⟩

theorem filed_register (l : List Process) : Filed (register l) :=
  fun _ _ h => (mem_of_get?_register h).2

theorem linkedParent?_eq_some : linkedParent? r p = some x ↔
    x ≠ p.pid ∧ r.contains x = true ∧ p.parentPid = x := by
  unfold linkedParent?
  split
  · rename_i h
    rw [Option.some.injEq]
    constructor
    · rintro rfl
      exact ⟨h.1, h.2, rfl⟩
    · exact fun hx => hx.2.2
  · rename_i h
    constructor
    · intro hx
      cases hx
    · rintro ⟨hne, hx, rfl⟩
      exact absurd ⟨hne, hx⟩ h

theorem mem_childrenOf (hr : Filed r) :
    x ∈ childrenOf r pid ↔ ∃ c, r.get? x = some c ∧ linkedParent? r c = some pid := by
  unfold childrenOf
  rw [List.mem_map]
  constructor
  · rintro ⟨c, hc, rfl⟩
    obtain ⟨hc, hparent⟩ := List.mem_filter.1 hc
    obtain ⟨y, hy⟩ := Registry.mem_values_iff.1 hc
    refine ⟨c, ?_, by simpa using hparent⟩
    rwa [hr y c hy]
  · rintro ⟨c, hc, hparent⟩
    exact ⟨c, List.mem_filter.2 ⟨Registry.mem_values_iff.2 ⟨x, hc⟩, by simpa using hparent⟩,
      hr x c hc⟩

/-! ## Building -/

theorem get?_link {c : Pid} : (link r c pid).get? x = (r.get? x).map fun q =>
    q.withRelatives (if c = x then some pid else q.parent)
      (q.children ++ if pid = x then [c] else []) := by
  unfold link
  rw [Registry.get?_modify, Registry.get?_modify]
  simp only [Registry.rank_inj]
  cases r.get? x with
  | none => simp
  | some q =>
    by_cases hc : c = x
    · by_cases hp : pid = x
      · simp [hc, hp, Process.withRelatives]
      · simp [hc, hp, Process.withRelatives]
    · by_cases hp : pid = x
      · simp [hc, hp, Process.withRelatives]
      · simp [hc, hp, Process.withRelatives]

theorem get?_foldl_link (links : List (Pid × Pid)) :
    ∀ r : Registry Pid Process, (links.foldl (fun r e => link r e.1 e.2) r).get? x =
      (r.get? x).map fun q => q.withRelatives
        (links.foldl (fun a e => if e.1 = x then some e.2 else a) q.parent)
        (q.children ++ (links.filter fun e => e.2 = x).map (·.1)) := by
  induction links with
  | nil =>
    intro r
    simp [Process.withRelatives]
  | cons e rest ih =>
    intro r
    rw [List.foldl_cons, ih, get?_link, Option.map_map]
    refine congrArg (Option.map · _) (funext fun q => ?_)
    by_cases he : e.2 = x
    · simp [Process.withRelatives, he]
    · simp [Process.withRelatives, he]

/-- Of the links of a process those that agree with each other give its parent. -/
theorem foldl_parent {parent : Option Pid} (links : List (Pid × Pid))
    (hall : ∀ e ∈ links, e.1 = x → some e.2 = parent) :
    ∀ a, (a = parent ∨ ∃ e ∈ links, e.1 = x) →
      links.foldl (fun a e => if e.1 = x then some e.2 else a) a = parent := by
  induction links with
  | nil =>
    rintro a (rfl | ⟨e, he, _⟩)
    · rfl
    · simp at he
  | cons e rest ih =>
    intro a ha
    rw [List.foldl_cons]
    refine ih (fun e' he' => hall e' (List.mem_cons_of_mem e he')) _ ?_
    split
    · rename_i hx
      exact Or.inl (hall e List.mem_cons_self hx)
    · rename_i hx
      rcases ha with rfl | ⟨e', he', hx'⟩
      · exact Or.inl rfl
      · rcases List.mem_cons.1 he' with rfl | he'
        · exact absurd hx' hx
        · exact Or.inr ⟨e', he', hx'⟩

theorem parent_of_linksOf (hr : Filed r) (hp : r.get? x = some p) :
    (linksOf r).foldl (fun a e => if e.1 = x then some e.2 else a) none =
      linkedParent? r p := by
  refine foldl_parent _ ?_ none ?_
  · intro e he hx
    obtain ⟨q, hq, he⟩ := List.mem_filterMap.1 he
    obtain ⟨y, hy, rfl⟩ := Option.map_eq_some_iff.1 he
    obtain ⟨z, hz⟩ := Registry.mem_values_iff.1 hq
    have hzx : z = x := (hr z q hz).symm.trans hx
    rw [hzx, hp] at hz
    cases hz
    exact hy.symm
  · cases hy : linkedParent? r p with
    | none => exact Or.inl rfl
    | some y =>
      refine Or.inr ⟨(p.pid, y), List.mem_filterMap.2 ⟨p, ?_, ?_⟩, hr x p hp⟩
      · exact Registry.mem_values_iff.2 ⟨x, hp⟩
      · rw [hy]
        rfl

theorem children_of_linksOf :
    ((linksOf r).filter fun e => e.2 = x).map (·.1) = childrenOf r x := by
  unfold linksOf childrenOf
  induction r.values with
  | nil => rfl
  | cons q rest ih =>
    cases hy : linkedParent? r q with
    | none => simpa [hy] using ih
    | some y =>
      by_cases hyx : y = x
      · simpa [hy, hyx] using ih
      · simpa [hy, hyx] using ih

/-- The table of processes without links is wired as their registry says. -/
theorem ofList_eq_wired (h : ∀ p ∈ l, p.Unlinked) : ofList l = wired (register l) := by
  refine congrArg ProcessTable.mk (Registry.ext_get? fun x => ?_)
  change ((linksOf (register l)).foldl (fun r e => link r e.1 e.2) (register l)).get? x = _
  rw [get?_foldl_link, Registry.get?_mapWithKey]
  cases hp : (register l).get? x with
  | none => rfl
  | some p =>
    obtain ⟨hmem, hpid⟩ := mem_of_get?_register hp
    obtain ⟨hparent, hchildren⟩ := h p hmem
    rw [Option.map_some, Option.map_some, hparent, hchildren,
      parent_of_linksOf (filed_register l) hp, children_of_linksOf, List.nil_append, hpid]

/-! ## Taking out -/

theorem linkedParent?_erase :
    linkedParent? (r.erase pid) q = (linkedParent? r q).filter (· ≠ pid) := by
  refine Option.ext fun x => ?_
  rw [linkedParent?_eq_some, Registry.contains_erase, Option.filter_eq_some_iff,
    linkedParent?_eq_some, decide_eq_true_eq]
  constructor
  · rintro ⟨hx, ⟨hne, hknown⟩, hparent⟩
    exact ⟨⟨hx, hknown, hparent⟩, hne⟩
  · rintro ⟨⟨hx, hknown, hparent⟩, hne⟩
    exact ⟨hx, ⟨hne, hknown⟩, hparent⟩

theorem values_erase (hr : Filed r) :
    (r.erase pid).values = r.values.filter fun p => p.pid ≠ pid := by
  unfold Registry.values Registry.erase
  rw [List.filter_map]
  refine congrArg (List.map _) (List.filter_congr fun e he => ?_)
  have hpid := hr e.1 e.2 (Registry.mem_entries_iff.1 he)
  simp [Registry.rank_inj, hpid]

theorem childrenOf_erase (hr : Filed r) (hx : x ≠ pid) :
    childrenOf (r.erase pid) x = (childrenOf r x).filter (· ≠ pid) := by
  unfold childrenOf
  rw [values_erase hr, List.filter_filter, List.filter_map, List.filter_filter]
  refine congrArg (List.map _) (List.filter_congr fun c _ => ?_)
  have hparent : linkedParent? (r.erase pid) c = some x ↔ linkedParent? r c = some x := by
    rw [linkedParent?_erase, Option.filter_eq_some_iff]
    simp [hx]
  simp [hparent, Bool.and_comm]

theorem get?_foldl_orphan (children : List Pid) :
    ∀ r : Registry Pid Process,
      (children.foldl (fun r c => r.modify c fun q => { q with parent := none }) r).get? x =
        (r.get? x).map fun q => if x ∈ children then { q with parent := none } else q := by
  induction children with
  | nil =>
    intro r
    simp
  | cons c rest ih =>
    intro r
    rw [List.foldl_cons, ih, Registry.get?_modify]
    simp only [Registry.rank_inj]
    cases r.get? x with
    | none => simp
    | some q =>
      by_cases hc : c = x
      · simp [hc]
      · simp [hc, Ne.symm hc]

/-- A process that is taken out is no longer the parent or a child of any other. -/
theorem get?_erase {t : ProcessTable} (hp : t.get? pid = some p) :
    (t.erase pid).get? x = if pid = x then none else (t.get? x).map fun q => q.withRelatives
      (if x ∈ p.children then none else q.parent)
      (if p.parent = some x then q.children.filter (· ≠ pid) else q.children) := by
  have hregistry : t.registry.get? x = t.get? x := rfl
  unfold erase
  rw [hp]
  refine (get?_foldl_orphan p.children _).trans ?_
  cases p.parent with
  | none =>
    simp only [Registry.get?_erase, Registry.rank_inj, hregistry]
    by_cases hx : pid = x
    · simp [hx]
    · rw [if_neg hx, if_neg hx]
      refine congrArg (Option.map · _) (funext fun q => ?_)
      by_cases hc : x ∈ p.children
      · simp [hc, Process.withRelatives]
      · simp [hc, Process.withRelatives]
  | some parent =>
    simp only [Registry.get?_modify, Registry.get?_erase, Registry.rank_inj, hregistry]
    by_cases hx : pid = x
    · simp [hx]
    · rw [if_neg hx, if_neg hx]
      cases t.get? x with
      | none => simp
      | some q =>
        by_cases hc : x ∈ p.children
        · by_cases hparent : parent = x
          · simp [hc, hparent, Process.withRelatives]
          · simp [hc, hparent, Process.withRelatives]
        · by_cases hparent : parent = x
          · simp [hc, hparent, Process.withRelatives]
          · simp [hc, hparent, Process.withRelatives]

theorem contains_erase_of_ne {t : ProcessTable} (hx : t.contains x = true) (hne : pid ≠ x) :
    (t.erase pid).contains x = true := by
  cases hp : t.get? pid with
  | none =>
    unfold erase
    rwa [hp]
  | some p =>
    change ((t.erase pid).get? x).isSome = true
    rw [get?_erase hp, if_neg hne, Option.isSome_map]
    exact hx

/-- Tables that answer every look-up alike are the same. -/
theorem ext_get? {t t' : ProcessTable} (h : ∀ pid, t.get? pid = t'.get? pid) : t = t' :=
  congrArg ProcessTable.mk (Registry.ext_get? h)

/-- A table that is wired stays so when a process is taken out. -/
theorem erase_wired (hr : Filed r) (pid : Pid) : (wired r).erase pid = wired (r.erase pid) := by
  cases hp : r.get? pid with
  | none =>
    unfold erase
    rw [get?_wired, hp, Option.map_none, Registry.erase_eq_self hp]
  | some p =>
    have hpid := hr pid p hp
    refine congrArg ProcessTable.mk (Registry.ext_get? fun x => ?_)
    refine (get?_erase (by rw [get?_wired, hp, Option.map_some])).trans ?_
    refine Eq.trans ?_ get?_wired.symm
    rw [Registry.get?_erase, get?_wired]
    simp only [Registry.rank_inj]
    by_cases hx : pid = x
    · rw [if_pos hx, if_pos hx, Option.map_none]
    rw [if_neg hx, if_neg hx, Option.map_map]
    cases hq : r.get? x with
    | none => rfl
    | some q =>
      have hchild : x ∈ childrenOf r pid ↔ linkedParent? r q = some pid := by
        rw [mem_childrenOf hr, hq]
        simp
      have hmine : pid ∈ childrenOf r x ↔ linkedParent? r p = some x := by
        rw [mem_childrenOf hr, hp]
        simp
      rw [Option.map_some, Option.map_some, hr x q hq, childrenOf_erase hr (Ne.symm hx),
        linkedParent?_erase, Option.some.injEq]
      unfold Process.withRelatives
      simp only [Function.comp_apply, hpid, hr x q hq]
      congr 1
      · cases hy : linkedParent? r q with
        | none => simp
        | some y =>
          by_cases hyp : y = pid
          · simp [hchild, hy, hyp, Option.filter]
          · simp [hchild, hy, hyp, Option.filter]
      · split
        · rfl
        · rename_i hnot
          refine (List.filter_eq_self.2 fun y hy => ?_).symm
          rw [decide_eq_true_eq]
          rintro rfl
          exact hnot (hmine.1 hy)

/-! ## Joining namespaces -/

section Joining

variable {f : Pid → BySpecies (Option Identity) → BySpecies (Option Identity)}

theorem linkedParent?_mapJoined :
    linkedParent? (r.mapWithKey fun _ p => p.mapJoined f) (q.mapJoined f) =
      linkedParent? r q := by
  unfold linkedParent?
  rw [Registry.contains_mapWithKey]
  rfl

theorem childrenOf_mapJoined :
    childrenOf (r.mapWithKey fun _ p => p.mapJoined f) x = childrenOf r x := by
  unfold childrenOf
  rw [Registry.values_mapWithKey, List.filter_map, List.map_map]
  refine congrArg (List.map _) (List.filter_congr fun c _ => ?_)
  rw [Function.comp_apply, linkedParent?_mapJoined]

/-- A table that is wired stays so when processes join other namespaces. -/
theorem mapJoined_wired :
    ⟨(wired r).registry.mapWithKey fun _ p => p.mapJoined f⟩ =
      wired (r.mapWithKey fun _ p => p.mapJoined f) := by
  refine congrArg ProcessTable.mk (Registry.ext_get? fun x => ?_)
  rw [Registry.get?_mapWithKey, Registry.get?_mapWithKey, Registry.get?_mapWithKey]
  change ((wired r).get? x).map _ = _
  rw [get?_wired]
  cases r.get? x with
  | none => rfl
  | some q =>
    simp only [Option.map_some]
    rw [linkedParent?_mapJoined, childrenOf_mapJoined]
    rfl

end Joining

/-! ## The table of a list -/

theorem register_filter (keep : Pid → Bool) (l : List Process) :
    register (l.filter fun p => keep p.pid) = (register l).restrict keep := by
  unfold register
  rw [← Registry.ofList_filter, List.filter_map]
  rfl

theorem register_mapJoined
    (f : Pid → BySpecies (Option Identity) → BySpecies (Option Identity)) (l : List Process) :
    register (l.map (·.mapJoined f)) = (register l).mapWithKey fun _ p => p.mapJoined f := by
  unfold register
  rw [← Registry.ofList_map, List.map_map, List.map_map]
  rfl

theorem get?_ofList (h : ∀ p ∈ l, p.Unlinked) : (ofList l).get? pid =
    ((register l).get? pid).map fun p =>
      p.withRelatives (linkedParent? (register l) p) (childrenOf (register l) p.pid) := by
  rw [ofList_eq_wired h, get?_wired]

theorem pids_ofList (h : ∀ p ∈ l, p.Unlinked) : (ofList l).pids = (register l).keys := by
  rw [ofList_eq_wired h]
  exact Registry.keys_mapWithKey ..

theorem mem_pids_iff {t : ProcessTable} : pid ∈ t.pids ↔ ∃ p, t.get? pid = some p :=
  Registry.mem_keys_iff.trans Registry.contains_iff

/-- Taking a process out of the table of a list gives the table of the list without it. -/
theorem erase_ofList (h : ∀ p ∈ l, p.Unlinked) (pid : Pid) :
    (ofList l).erase pid = ofList (l.filter fun p => p.pid ≠ pid) := by
  have hrest : (register l).erase pid = (register l).restrict (· ≠ pid) := by
    refine Registry.ext_get? fun x => ?_
    rw [Registry.get?_erase, Registry.get?_restrict]
    by_cases hx : x = pid
    · simp [hx]
    · simp [Registry.rank_inj, hx, Ne.symm hx]
  rw [ofList_eq_wired h, erase_wired (filed_register l), hrest,
    ofList_eq_wired fun p hp => h p (List.mem_filter.1 hp).1, ← register_filter]

theorem foldl_erase_ofList (pids : List Pid) :
    ∀ l : List Process, (∀ p ∈ l, p.Unlinked) →
      pids.foldl erase (ofList l) = ofList (l.filter fun p => p.pid ∉ pids) := by
  induction pids with
  | nil =>
    intro l _
    simp
  | cons pid rest ih =>
    intro l h
    rw [List.foldl_cons, erase_ofList h, ih _ fun p hp => h p (List.mem_filter.1 hp).1,
      List.filter_filter]
    refine congrArg ofList (List.filter_congr fun p _ => ?_)
    simp [Bool.and_comm]

/-- When the processes of a table join other namespaces, the table is that of a list whose
processes do. -/
theorem mapJoined_ofList (h : ∀ p ∈ l, p.Unlinked)
    (f : Pid → BySpecies (Option Identity) → BySpecies (Option Identity)) :
    ⟨(ofList l).registry.mapWithKey fun _ p => p.mapJoined f⟩ =
      ofList (l.map (·.mapJoined f)) := by
  have hmap : ∀ p ∈ l.map (·.mapJoined f), p.Unlinked := by
    intro p hp
    obtain ⟨q, hq, rfl⟩ := List.mem_map.1 hp
    exact h q hq
  rw [ofList_eq_wired h, ofList_eq_wired hmap, mapJoined_wired, register_mapJoined]

/-! ## Parents -/

/-- The parent of the process of a number. -/
def up (t : ProcessTable) (pid : Pid) : Option Pid := (t.get? pid).bind (·.parent)

/-- What is found in a table stands under its own number, and its parent is there too. -/
structure Sound (t : ProcessTable) : Prop where
  filed : ∀ pid p, t.get? pid = some p → p.pid = pid
  parent_known : ∀ pid p parent, t.get? pid = some p → p.parent = some parent →
    ∃ q, t.get? parent = some q

theorem sound_ofList (h : ∀ p ∈ l, p.Unlinked) : (ofList l).Sound where
  filed pid p hp := by
    rw [get?_ofList h] at hp
    obtain ⟨q, hq, rfl⟩ := Option.map_eq_some_iff.1 hp
    exact filed_register l pid q hq
  parent_known pid p parent hp hparent := by
    rw [get?_ofList h] at hp
    obtain ⟨q, hq, rfl⟩ := Option.map_eq_some_iff.1 hp
    obtain ⟨m, hm⟩ := Registry.contains_iff.1 (linkedParent?_eq_some.1 hparent).2.1
    rw [get?_ofList h, hm]
    exact ⟨_, rfl⟩

theorem up_ofList (h : ∀ p ∈ l, p.Unlinked) : (ofList l).up pid =
    ((register l).get? pid).bind fun p => linkedParent? (register l) p := by
  unfold up
  rw [get?_ofList h, Option.bind_map]
  rfl

/-- Where all processes rank above their parents there is no circle of parents. -/
theorem acyclic_ofList_of_rank (h : ∀ p ∈ l, p.Unlinked) (rank : Pid → Nat)
    (hrank : ∀ p ∈ l, rank p.parentPid < rank p.pid) : Acyclic (ofList l).up := by
  refine acyclic_of_rank rank fun a b hab => ?_
  rw [up_ofList h] at hab
  obtain ⟨p, hp, hparent⟩ := Option.bind_eq_some_iff.1 hab
  obtain ⟨hmem, rfl⟩ := mem_of_get?_register hp
  obtain ⟨_, _, rfl⟩ := linkedParent?_eq_some.1 hparent
  exact hrank p hmem

/-- In a table of fewer processes there are fewer parents. -/
theorem up_ofList_filter (h : ∀ p ∈ l, p.Unlinked) (keep : Pid → Bool)
    (hup : (ofList (l.filter fun p => keep p.pid)).up pid = some x) :
    (ofList l).up pid = some x := by
  rw [up_ofList fun p hp => h p (List.mem_filter.1 hp).1, register_filter,
    Registry.get?_restrict] at hup
  rw [up_ofList h]
  split at hup
  · obtain ⟨p, hp, hparent⟩ := Option.bind_eq_some_iff.1 hup
    obtain ⟨hne, hknown, hx⟩ := linkedParent?_eq_some.1 hparent
    obtain ⟨q, hq⟩ := Registry.contains_iff.1 hknown
    rw [Registry.get?_restrict] at hq
    split at hq
    · rw [hp, Option.bind_some]
      exact linkedParent?_eq_some.2 ⟨hne, Registry.contains_iff.2 ⟨q, hq⟩, hx⟩
    · cases hq
  · cases hup

theorem up_ofList_mapJoined (h : ∀ p ∈ l, p.Unlinked)
    (f : Pid → BySpecies (Option Identity) → BySpecies (Option Identity)) :
    (ofList (l.map (·.mapJoined f))).up = (ofList l).up := by
  rw [← mapJoined_ofList h]
  refine funext fun pid => ?_
  unfold up get?
  rw [Registry.get?_mapWithKey, Option.bind_map]
  rfl

/-! ## Tables whose links agree -/

/-- A table in which parents and children are two records of the same links. -/
def Linked (t : ProcessTable) : Prop := ∃ r, Filed r ∧ t = wired r

namespace Linked

variable {t : ProcessTable}

theorem ofList (h : ∀ p ∈ l, p.Unlinked) : (ofList l).Linked :=
  ⟨register l, filed_register l, ofList_eq_wired h⟩

theorem filed (h : t.Linked) (hp : t.get? pid = some p) : p.pid = pid := by
  obtain ⟨r, hr, rfl⟩ := h
  rw [get?_wired] at hp
  obtain ⟨q, hq, rfl⟩ := Option.map_eq_some_iff.1 hp
  exact hr pid q hq

/-- The parent of a process is there, and has it among its children. -/
theorem parent (h : t.Linked) (hp : t.get? pid = some p) (hx : p.parent = some x) :
    ∃ m, t.get? x = some m ∧ pid ∈ m.children := by
  obtain ⟨r, hr, rfl⟩ := h
  rw [get?_wired] at hp
  obtain ⟨q, hq, rfl⟩ := Option.map_eq_some_iff.1 hp
  have hlink : linkedParent? r q = some x := hx
  obtain ⟨_, hknown, _⟩ := linkedParent?_eq_some.1 hlink
  obtain ⟨m, hm⟩ := Registry.contains_iff.1 hknown
  refine ⟨_, get?_wired.trans (by rw [hm]; rfl), ?_⟩
  change pid ∈ childrenOf r m.pid
  rw [hr x m hm]
  exact (mem_childrenOf hr).2 ⟨q, hq, hlink⟩

/-- The children of a process are there, and have it as their parent. -/
theorem child (h : t.Linked) (hp : t.get? pid = some p) (hx : x ∈ p.children) :
    ∃ m, t.get? x = some m ∧ m.parent = some pid := by
  obtain ⟨r, hr, rfl⟩ := h
  rw [get?_wired] at hp
  obtain ⟨q, hq, rfl⟩ := Option.map_eq_some_iff.1 hp
  have hchild : x ∈ childrenOf r q.pid := hx
  rw [hr pid q hq] at hchild
  obtain ⟨c, hc, hlink⟩ := (mem_childrenOf hr).1 hchild
  exact ⟨_, get?_wired.trans (by rw [hc]; rfl), hlink⟩

theorem erase (h : t.Linked) (pid : Pid) : (t.erase pid).Linked := by
  obtain ⟨r, hr, rfl⟩ := h
  refine ⟨r.erase pid, fun x q hq => ?_, erase_wired hr pid⟩
  rw [Registry.get?_erase] at hq
  split at hq
  · cases hq
  · exact hr x q hq

/-- A process may join another namespace. -/
theorem join (h : t.Linked) (pid : Pid)
    (f : BySpecies (Option Identity) → BySpecies (Option Identity)) :
    (t.modify pid fun p => { p with joined := f p.joined }).Linked := by
  obtain ⟨r, hr, rfl⟩ := h
  let joins (x : Pid) (b : BySpecies (Option Identity)) := if x = pid then f b else b
  refine ⟨r.mapWithKey fun _ p => p.mapJoined joins, fun x q hq => ?_, ?_⟩
  · rw [Registry.get?_mapWithKey] at hq
    obtain ⟨m, hm, rfl⟩ := Option.map_eq_some_iff.1 hq
    exact hr x m hm
  · rw [← mapJoined_wired]
    refine congrArg ProcessTable.mk (Registry.ext_get? fun x => ?_)
    rw [Registry.get?_modify, Registry.get?_mapWithKey]
    simp only [Registry.rank_inj]
    change (if pid = x then ((wired r).get? x).map _ else (wired r).get? x) =
      ((wired r).get? x).map _
    cases hq : (wired r).get? x with
    | none => simp
    | some q =>
      have hx : q.pid = x := filed ⟨r, hr, rfl⟩ hq
      have hjoins : q.mapJoined joins =
          { q with joined := if x = pid then f q.joined else q.joined } := by
        unfold Process.mapJoined
        rw [hx]
      rw [Option.map_some, Option.map_some, hjoins]
      by_cases hpid : pid = x
      · simp [hpid]
      · simp [hpid, Ne.symm hpid]

end Linked

end ProcessTable

end NamespaceAtlas
