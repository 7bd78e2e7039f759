-- The map of process numbers. Where no two processes have a number in common,
-- every number of a process leads to all its numbers, and from there to the
-- one that it has in another namespace.
import NamespaceAtlas.PidMap
import NamespaceAtlas.Registry.Lookup

namespace NamespaceAtlas.PidMap

variable {g : Graph} {t : ProcessTable} {m : PidMap} {p : Process} {x y : LocalPid}
  {c d : List LocalPid}

/-- The numbers of a process in its namespaces. -/
def paired (spaces : List Identity) (pids : List Pid) : List LocalPid :=
  (spaces.zip pids).map fun (space, pid) => ⟨space, pid⟩

theorem entryOf_eq_chain {id : Identity} (hid : p.joined.get .pid = some id)
    (hlength : (spacesOf g id).length = p.innerPids.length) :
    entryOf g p = .chain (paired (spacesOf g id) p.innerPids) := by
  have hsome : p.innerPids.isEmpty = false := by
    rw [List.isEmpty_eq_false_iff, ← List.length_pos_iff, ← hlength]
    simp [spacesOf]
  unfold entryOf
  rw [hid]
  simp [hsome, hlength, paired]

/-! ## One chain -/

theorem get?_addChain (r : Registry LocalPid (List LocalPid)) :
    (addChain r c).get? x = if x ∈ c then some c else r.get? x := by
  suffices hgen : ∀ (l : List LocalPid) (r : Registry LocalPid (List LocalPid)),
      (l.foldl (fun r p => r.insert p c) r).get? x = if x ∈ l then some c else r.get? x from
    hgen c r
  intro l
  induction l with
  | nil =>
    intro r
    simp
  | cons y rest ih =>
    intro r
    rw [List.foldl_cons, ih, Registry.get?_insert]
    simp only [Registry.rank_inj, List.mem_cons]
    by_cases hy : x = y
    · simp [hy]
    · simp [hy, Ne.symm hy]

theorem get?_add : (add g m p).chains.get? x =
    match entryOf g p with
    | .chain c => if x ∈ c then some c else m.chains.get? x
    | _ => m.chains.get? x := by
  unfold add
  cases entryOf g p with
  | none => rfl
  | mismatch => rfl
  | chain c => exact get?_addChain m.chains

/-! ## All chains -/

/-- What stands under a number is the chain of a process that has it. -/
theorem get?_foldl_add (l : List Process) : ∀ m : PidMap,
    (l.foldl (add g) m).chains.get? x = some c →
      (∃ p ∈ l, entryOf g p = .chain c ∧ x ∈ c) ∨ m.chains.get? x = some c := by
  induction l with
  | nil => exact fun m h => Or.inr h
  | cons p rest ih =>
    intro m h
    rw [List.foldl_cons] at h
    rcases ih _ h with ⟨q, hq, hc⟩ | h
    · exact Or.inl ⟨q, List.mem_cons_of_mem p hq, hc⟩
    · rw [get?_add] at h
      cases hentry : entryOf g p with
      | none =>
        rw [hentry] at h
        exact Or.inr h
      | mismatch =>
        rw [hentry] at h
        exact Or.inr h
      | chain d =>
        simp only [hentry] at h
        split at h
        · rename_i hx
          cases h
          exact Or.inl ⟨p, List.mem_cons_self, hentry, hx⟩
        · exact Or.inr h

/-- Under a number that some process has a chain stands. -/
theorem isSome_foldl_add (l : List Process) : ∀ m : PidMap,
    ((∃ p ∈ l, ∃ c, entryOf g p = .chain c ∧ x ∈ c) ∨ (m.chains.get? x).isSome) →
      ((l.foldl (add g) m).chains.get? x).isSome := by
  induction l with
  | nil =>
    rintro m (⟨p, hp, _⟩ | h)
    · simp at hp
    · exact h
  | cons p rest ih =>
    intro m h
    refine ih _ ?_
    rcases h with ⟨q, hq, c, hc, hx⟩ | h
    · rcases List.mem_cons.1 hq with rfl | hq
      · right
        rw [get?_add, hc]
        simp [hx]
      · exact Or.inl ⟨q, hq, c, hc, hx⟩
    · right
      rw [get?_add]
      cases entryOf g p with
      | none => exact h
      | mismatch => exact h
      | chain d =>
        dsimp only
        split
        · rfl
        · exact h

/-- Where no process has numbers that do not fit, none is left out. -/
theorem skipped_foldl_add (l : List Process) (h : ∀ p ∈ l, entryOf g p ≠ .mismatch) :
    ∀ m : PidMap, (l.foldl (add g) m).skipped = m.skipped := by
  induction l with
  | nil => exact fun _ => rfl
  | cons p rest ih =>
    intro m
    rw [List.foldl_cons, ih fun q hq => h q (List.mem_cons_of_mem p hq)]
    unfold add
    cases hentry : entryOf g p with
    | none => rfl
    | mismatch => exact absurd hentry (h p List.mem_cons_self)
    | chain c => rfl

/-- Each number of a process leads to all its numbers, if no other has one of them. -/
theorem numbers?_ofTable
    (hown : ∀ q ∈ t.toList, ∀ d, entryOf g q = .chain d → x ∈ d → d = c)
    (hp : p ∈ t.toList) (hc : entryOf g p = .chain c) (hx : x ∈ c) :
    (ofTable g t).numbers? x.pid x.space = some c := by
  have hsome : ((ofTable g t).chains.get? x).isSome :=
    isSome_foldl_add t.toList empty (Or.inl ⟨p, hp, c, hc, hx⟩)
  obtain ⟨d, hd⟩ := Option.isSome_iff_exists.1 hsome
  rcases get?_foldl_add t.toList empty hd with ⟨q, hq, hentry, hxd⟩ | hnone
  · rw [← hown q hq d hentry hxd]
    exact hd
  · cases hnone

/-! ## One number for another -/

theorem spaces_paired {spaces : List Identity} {pids : List Pid}
    (h : spaces.length ≤ pids.length) : (paired spaces pids).map (·.space) = spaces := by
  have hspaces : (paired spaces pids).map (·.space) = (spaces.zip pids).map Prod.fst := by
    unfold paired
    rw [List.map_map]
    rfl
  rw [hspaces, List.map_fst_zip h]

/-- In a chain that has each namespace once, the number in a namespace is found there. -/
theorem find_space (h : (c.map (·.space)).Nodup) (hy : y ∈ c) :
    c.find? (·.space == y.space) = some y := by
  induction c with
  | nil => simp at hy
  | cons z rest ih =>
    obtain ⟨hz, hrest⟩ := List.nodup_cons.1 h
    rcases List.mem_cons.1 hy with rfl | hy
    · simp
    · have hne : z.space ≠ y.space := by
        intro heq
        exact hz (List.mem_map.2 ⟨y, hy, heq.symm⟩)
      rw [List.find?_cons_of_neg (by simpa using hne)]
      exact ih hrest hy

theorem numberIn?_eq (h : m.numbers? x.pid x.space = some c) (hc : (c.map (·.space)).Nodup)
    (hy : y ∈ c) : m.numberIn? x.pid x.space y.space = some y.pid := by
  unfold numberIn?
  rw [h]
  simp [find_space hc hy]

end NamespaceAtlas.PidMap
