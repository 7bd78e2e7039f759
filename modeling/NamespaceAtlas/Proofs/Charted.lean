-- The map of process numbers for any table. Processes may contradict each
-- other: where several have a number, the one that comes last is found by it,
-- though the others may still be found by their other numbers.
import NamespaceAtlas.Proofs.Translation
import Mathlib.Data.List.Dedup

namespace NamespaceAtlas

section Last

variable {α : Type} {lt : α → α → Prop} {l : List α} {test : α → Bool} {a : α}

/-- What is found last in an ascending list is the greatest that passes the test. -/
theorem of_find?_reverse (hl : l.Pairwise lt) (h : l.reverse.find? test = some a) :
    a ∈ l ∧ test a = true ∧ ∀ b ∈ l, test b = true → b = a ∨ lt b a := by
  obtain ⟨htest, after, before, hsplit, hafter⟩ := List.find?_eq_some_iff_append.1 h
  have hl' : l = before.reverse ++ a :: after.reverse := by
    simpa using congrArg List.reverse hsplit
  subst hl'
  refine ⟨by simp, htest, fun b hb hpass => ?_⟩
  rcases List.mem_append.1 hb with hb | hb
  · exact Or.inr ((List.pairwise_append.1 hl).2.2 b hb a List.mem_cons_self)
  · rcases List.mem_cons.1 hb with rfl | hb
    · exact Or.inl rfl
    · have := hafter b (List.mem_reverse.1 hb)
      simp [hpass] at this

theorem find?_reverse_eq_some_iff (hl : l.Pairwise lt) (hlt : ∀ a b, lt a b → ¬ lt b a) :
    l.reverse.find? test = some a ↔
      a ∈ l ∧ test a = true ∧ ∀ b ∈ l, test b = true → b = a ∨ lt b a := by
  refine ⟨of_find?_reverse hl, ?_⟩
  rintro ⟨ha, htest, hall⟩
  obtain ⟨b, hb⟩ : ∃ b, l.reverse.find? test = some b :=
    Option.isSome_iff_exists.1 (List.find?_isSome.2 ⟨a, List.mem_reverse.2 ha, htest⟩)
  obtain ⟨hmem, hpass, hgreatest⟩ := of_find?_reverse hl hb
  rcases hall b hmem hpass with rfl | hba
  · exact hb
  · rcases hgreatest a ha htest with rfl | hab
    · exact hb
    · exact absurd hab (hlt b a hba)

end Last

namespace PidMap

variable {g : Graph} {t : ProcessTable} {m : PidMap} {p : Process} {x : LocalPid} {pid : Pid}
  {space : Identity} {c : List LocalPid}

/-! ## The chart of a process -/

/-- The numbers of a process with its PID namespaces, outermost first, if it has a number for its
own namespace and each one above. -/
def chart? (g : Graph) (p : Process) : Option (List LocalPid) := do
  let own ← p.joined.get .pid
  let above := g.ancestors .pid own
  if p.innerPids ≠ [] ∧ p.innerPids.length = 1 + above.length then
    some (paired (above.reverse ++ [own]) p.innerPids)
  else none

/-- Whether a process has a PID namespace, and numbers. -/
def isNumbered (p : Process) : Bool := (p.joined.get .pid).isSome && !p.innerPids.isEmpty

/-- A process adds its chart. One that has none is left out, if it has numbers at all. -/
theorem entryOf_eq : entryOf g p =
    match chart? g p with
    | some c => .chain c
    | none => if isNumbered p then .mismatch else .none := by
  unfold entryOf chart? isNumbered spacesOf
  cases p.joined.get .pid with
  | none => rfl
  | some own =>
    by_cases hnone : p.innerPids = []
    · simp [hnone]
    · by_cases hlength : p.innerPids.length = 1 + (g.ancestors .pid own).length
      · have hfit : (g.ancestors .pid own).length + 1 = p.innerPids.length := by omega
        simp [hnone, hlength, hfit, paired]
      · have hfit : ¬ (g.ancestors .pid own).length + 1 = p.innerPids.length := by omega
        simp [hnone, hlength, hfit]

theorem entryOf_eq_chain_iff : entryOf g p = .chain c ↔ chart? g p = some c := by
  rw [entryOf_eq]
  cases chart? g p with
  | some d => simp
  | none => by_cases hnumbered : isNumbered p = true <;> simp [hnumbered]

/-! ## All processes -/

/-- Under a number stands the last chart of a list that has it. -/
theorem get?_foldl_add_eq (l : List Process) : ∀ m : PidMap,
    (l.foldl (add g) m).chains.get? x =
      ((l.filterMap (chart? g)).reverse.find? fun c => x ∈ c).or (m.chains.get? x) := by
  induction l with
  | nil => simp
  | cons p rest ih =>
    intro m
    rw [List.foldl_cons, ih, get?_add, entryOf_eq]
    cases hchart : chart? g p with
    | none =>
      rw [List.filterMap_cons_none hchart]
      by_cases hnumbered : isNumbered p = true <;> simp [hnumbered]
    | some c =>
      rw [List.filterMap_cons_some hchart, List.reverse_cons, List.find?_append, Option.or_assoc]
      by_cases hx : x ∈ c <;> simp [hx]

/-- As many processes are left out as have numbers and no chart. -/
theorem skipped_foldl_add_eq (l : List Process) : ∀ m : PidMap,
    (l.foldl (add g) m).skipped =
      m.skipped + l.countP fun p => isNumbered p && (chart? g p).isNone := by
  induction l with
  | nil => simp
  | cons p rest ih =>
    intro m
    have hadd : (add g m p).skipped =
        m.skipped + if (isNumbered p && (chart? g p).isNone) = true then 1 else 0 := by
      unfold add
      rw [entryOf_eq]
      cases chart? g p with
      | some c => simp
      | none => by_cases hnumbered : isNumbered p = true <;> simp [hnumbered]
    rw [List.foldl_cons, ih, hadd, List.countP_cons]
    omega

/-! ## Look-up -/

/-- By a number the process of the greatest number of its own is found that has it. -/
theorem numbers?_eq_some_iff : (ofTable g t).numbers? pid space = some c ↔
    ∃ i p, t.get? i = some p ∧ chart? g p = some c ∧ ⟨space, pid⟩ ∈ c ∧
      ∀ j q d, t.get? j = some q → chart? g q = some d → ⟨space, pid⟩ ∈ d →
        j.toInt ≤ i.toInt := by
  let has (e : Pid × Process) : Bool := (chart? g e.2).any fun c => ⟨space, pid⟩ ∈ c
  have hlookup : (ofTable g t).numbers? pid space =
      (t.registry.entries.reverse.find? has).bind fun e => chart? g e.2 := by
    unfold numbers? ofTable
    rw [get?_foldl_add_eq]
    unfold ProcessTable.toList Registry.values
    rw [List.filterMap_map, ← List.filterMap_reverse, List.find?_filterMap]
    exact Option.or_none
  have hhas : ∀ i p, has (i, p) = true ↔ ∃ c, chart? g p = some c ∧ ⟨space, pid⟩ ∈ c := by
    intro i p
    simp [has, Option.any_eq_true]
  have hgreatest : ∀ e, t.registry.entries.reverse.find? has = some e ↔ _ := fun e =>
    find?_reverse_eq_some_iff (a := e) t.registry.ascending fun a b hab hba => by
      unfold Ranked.Before at hab hba
      omega
  rw [hlookup, Option.bind_eq_some_iff]
  constructor
  · rintro ⟨⟨i, p⟩, hfound, hc⟩
    obtain ⟨hmem, htest, hall⟩ := (hgreatest (i, p)).1 hfound
    obtain ⟨c', hc', hin⟩ := (hhas i p).1 htest
    rw [hc] at hc'
    cases hc'
    refine ⟨i, p, Registry.mem_entries_iff.1 hmem, hc, hin, fun j q d hq hd hjn => ?_⟩
    rcases hall (j, q) (Registry.mem_entries_iff.2 hq) ((hhas j q).2 ⟨d, hd, hjn⟩) with heq | hlt
    · cases heq
      exact Int.le_refl _
    · exact Int.le_of_lt hlt
  · rintro ⟨i, p, hp, hc, hin, hall⟩
    refine ⟨(i, p), (hgreatest (i, p)).2 ⟨Registry.mem_entries_iff.2 hp,
      (hhas i p).2 ⟨c, hc, hin⟩, ?_⟩, hc⟩
    rintro ⟨j, q⟩ hq htest
    obtain ⟨d, hd, hjn⟩ := (hhas j q).1 htest
    have hq : t.get? j = some q := Registry.mem_entries_iff.1 hq
    by_cases hij : j = i
    · subst hij
      rw [hp] at hq
      cases hq
      exact Or.inl rfl
    · right
      have hle := hall j q d hq hd hjn
      have hne : j.toInt ≠ i.toInt := fun heq => hij (Ranked.rank_injective j i heq)
      change j.toInt < i.toInt
      omega

theorem numbers?_eq_none_iff : (ofTable g t).numbers? pid space = none ↔
    ∀ i p c, t.get? i = some p → chart? g p = some c → ⟨space, pid⟩ ∉ c := by
  unfold numbers? ofTable
  rw [get?_foldl_add_eq]
  have hnone : (empty : PidMap).chains.get? ⟨space, pid⟩ = none := rfl
  rw [hnone, Option.or_none, List.find?_eq_none]
  simp only [List.mem_reverse, List.mem_filterMap, decide_eq_true_eq]
  constructor
  · intro h i p c hp hc
    exact h c ⟨p, Registry.mem_values_iff.2 ⟨i, hp⟩, hc⟩
  · rintro h c ⟨p, hp, hc⟩
    obtain ⟨i, hi⟩ := Registry.mem_values_iff.1 hp
    exact h i p c hi hc

/-- There are as many entries as numbers in charts, each counted once. -/
theorem size_ofTable :
    (ofTable g t).size = ((t.toList.filterMap (chart? g)).flatten.dedup).length := by
  have hkeys : (ofTable g t).size = (ofTable g t).chains.keys.length :=
    (Registry.length_keys _).symm
  rw [hkeys]
  refine ((List.perm_ext_iff_of_nodup (Registry.nodup_keys _) (List.nodup_dedup _)).2 ?_).length_eq
  intro x
  rw [List.mem_dedup, List.mem_flatten, Registry.mem_keys_iff]
  have hknown : (ofTable g t).chains.contains x = true ↔
      ¬ (ofTable g t).numbers? x.pid x.space = none := by
    unfold Registry.contains
    rw [Option.isSome_iff_ne_none]
    rfl
  rw [hknown, numbers?_eq_none_iff]
  simp only [List.mem_filterMap, not_forall, not_not]
  constructor
  · rintro ⟨i, p, c, hp, hc, hx⟩
    exact ⟨c, ⟨p, Registry.mem_values_iff.2 ⟨i, hp⟩, hc⟩, hx⟩
  · rintro ⟨c, ⟨p, hp, hc⟩, hx⟩
    obtain ⟨i, hi⟩ := Registry.mem_values_iff.1 hp
    exact ⟨i, p, c, hi, hc, hx⟩

theorem nodup_spaces_of_numbers? (hg : Forest g) (h : (ofTable g t).numbers? pid space = some c) :
    (c.map (·.space)).Nodup := by
  obtain ⟨_, _, _, hc, _, _⟩ := numbers?_eq_some_iff.1 h
  exact nodup_spaces_of_chain hg (entryOf_eq_chain_iff.2 hc)

end PidMap

/-! ## The law -/

open PidMap

/-- Whatever graph the changes make and whichever processes there are, though they contradict each
other: by a number in a namespace the process is found that has it in its chart, and of several the
one with the greatest number of its own. Its number in another namespace is the one that stands with
that namespace in the chart, where each stands once. The map counts each number of a chart once, and
leaves out the processes that have numbers and no chart. -/
theorem the_last_process_is_found_by_a_number (changes : List Change) (t : ProcessTable) :
    let g := Graph.after changes
    let m := ofTable g t
    (∀ pid space c, m.numbers? pid space = some c ↔
      ∃ i p, t.get? i = some p ∧ chart? g p = some c ∧ ⟨space, pid⟩ ∈ c ∧
        ∀ j q d, t.get? j = some q → chart? g q = some d → ⟨space, pid⟩ ∈ d →
          j.toInt ≤ i.toInt) ∧
    (∀ pid space, m.numbers? pid space = none ↔
      ∀ i p c, t.get? i = some p → chart? g p = some c → ⟨space, pid⟩ ∉ c) ∧
    (∀ pid source target found, m.numberIn? pid source target = some found ↔
      ∃ c, m.numbers? pid source = some c ∧ ⟨target, found⟩ ∈ c ∧
        ∀ other, ⟨target, other⟩ ∈ c → other = found) ∧
    (∀ pid source target, m.numberIn? pid source target = none ↔
      ∀ c, m.numbers? pid source = some c → ∀ other, ⟨target, other⟩ ∉ c) ∧
    (∀ pid space, (∃ c, m.numbers? pid space = some c) ↔
      m.numberIn? pid space space = some pid) ∧
    m.size = ((t.toList.filterMap (chart? g)).flatten.dedup).length ∧
    m.skipped = t.toList.countP fun p => isNumbered p && (chart? g p).isNone := by
  intro g m
  have hg : Forest g := Forest.after changes
  have hnumber : ∀ {pid source target found}, m.numberIn? pid source target = some found ↔
      ∃ c, m.numbers? pid source = some c ∧ ⟨target, found⟩ ∈ c := numberIn?_eq_some_iff hg
  refine ⟨fun _ _ _ => numbers?_eq_some_iff, fun _ _ => numbers?_eq_none_iff,
    fun pid source target found => ?_, fun pid source target => ?_, fun pid space => ?_,
    size_ofTable, ?_⟩
  · refine hnumber.trans (exists_congr fun c => and_congr_right fun hc => ?_)
    refine ⟨fun hin => ⟨hin, fun other hother => ?_⟩, And.left⟩
    have hnodup := nodup_spaces_of_numbers? hg hc
    have hsame := List.inj_on_of_nodup_map hnodup hother hin rfl
    exact congrArg LocalPid.pid hsame
  · rw [Option.eq_none_iff_forall_ne_some]
    simp only [ne_eq, hnumber, not_exists, not_and]
    exact ⟨fun h c hc other => h other c hc, fun h other c hc => h c hc other⟩
  · rw [hnumber]
    refine exists_congr fun c => ⟨fun hc => ⟨hc, ?_⟩, And.left⟩
    obtain ⟨_, _, _, _, hin, _⟩ := numbers?_eq_some_iff.1 hc
    exact hin
  · have hskipped := skipped_foldl_add_eq (g := g) t.toList empty
    exact hskipped.trans (Nat.zero_add _)

end NamespaceAtlas
