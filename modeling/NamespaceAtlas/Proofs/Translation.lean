-- Numbers are translated back and onwards. All numbers of a process lead to
-- one chain, and a chain has each namespace once, so it does not matter
-- through which of the numbers a process is asked for.
import NamespaceAtlas.Proofs.Graph.Forest
import NamespaceAtlas.Proofs.PidMap

namespace NamespaceAtlas

namespace PidMap

variable {g : Graph} {t : ProcessTable} {p : Process} {x y : LocalPid} {c d : List LocalPid}

/-- The numbers that a process adds. -/
def Entry.numbers : Entry → List LocalPid
  | .chain c => c
  | _ => []

/-- No two processes of a table have the same number in the same namespace. -/
def Distinct (g : Graph) (t : ProcessTable) : Prop :=
  ∀ i j p q, t.get? i = some p → t.get? j = some q →
    ∀ x ∈ (entryOf g p).numbers, x ∈ (entryOf g q).numbers → i = j

/-! ## The chain of a process -/

theorem of_entryOf_eq_chain (h : entryOf g p = .chain c) :
    ∃ id, p.joined.get .pid = some id ∧ (spacesOf g id).length = p.innerPids.length ∧
      c = paired (spacesOf g id) p.innerPids := by
  unfold entryOf at h
  cases hid : p.joined.get .pid with
  | none =>
    rw [hid] at h
    cases h
  | some id =>
    simp only [hid] at h
    split at h
    · cases h
    · split at h
      · rename_i hlength
        cases h
        exact ⟨id, rfl, hlength, rfl⟩
      · cases h

/-- A namespace and those above it are all different. -/
theorem nodup_spacesOf (hg : Forest g) (id : Identity) : (spacesOf g id).Nodup := by
  have hway := (hg.way_ancestors .pid id).nodup
  unfold spacesOf
  rw [List.nodup_append_comm, List.singleton_append, List.nodup_cons, List.mem_reverse,
    List.nodup_reverse]
  exact List.nodup_cons.1 hway

theorem nodup_spaces_of_chain (hg : Forest g) (h : entryOf g p = .chain c) :
    (c.map (·.space)).Nodup := by
  obtain ⟨id, _, hlength, rfl⟩ := of_entryOf_eq_chain h
  rw [spaces_paired (Nat.le_of_eq hlength)]
  exact nodup_spacesOf hg id

/-! ## Look-up -/

/-- What stands under a number of the map is the chain of a process of the table. -/
theorem of_numbers? (h : (ofTable g t).numbers? x.pid x.space = some c) :
    ∃ i p, t.get? i = some p ∧ entryOf g p = .chain c ∧ x ∈ c := by
  rcases get?_foldl_add t.toList empty h with ⟨p, hp, hc, hx⟩ | hnone
  · obtain ⟨i, hi⟩ := Registry.mem_values_iff.1 hp
    exact ⟨i, p, hi, hc, hx⟩
  · cases hnone

/-- The numbers of one chain all lead to it. -/
theorem numbers?_of_mem (hown : Distinct g t)
    (h : (ofTable g t).numbers? x.pid x.space = some c) (hy : y ∈ c) :
    (ofTable g t).numbers? y.pid y.space = some c := by
  obtain ⟨i, p, hp, hc, _⟩ := of_numbers? h
  have hmem : p ∈ t.toList := Registry.mem_values_iff.2 ⟨i, hp⟩
  refine numbers?_ofTable (fun q hq d hd hyd => ?_) hmem hc hy
  obtain ⟨j, hj⟩ := Registry.mem_values_iff.1 hq
  have hij : i = j := by
    apply hown i j p q hp hj y
    · rw [hc]
      exact hy
    · rw [hd]
      exact hyd
  subst hij
  have hpq : p = q := Option.some.inj (hp.symm.trans hj)
  rw [← hpq, hc] at hd
  exact (Entry.chain.inj hd).symm

/-- A number is translated into one that stands in the same chain. -/
theorem numberIn?_eq_some_iff (hg : Forest g) {pid target : Pid} {a b : Identity} :
    (ofTable g t).numberIn? pid a b = some target ↔
      ∃ c, (ofTable g t).numbers? pid a = some c ∧ ⟨b, target⟩ ∈ c := by
  constructor
  · intro h
    obtain ⟨c, hc, h⟩ := Option.bind_eq_some_iff.1 h
    obtain ⟨y, hy, h⟩ := Option.bind_eq_some_iff.1 h
    have hspace : y.space = b := by simpa using List.find?_some hy
    have hpid : y.pid = target := Option.some.inj h
    subst hspace hpid
    exact ⟨c, hc, List.mem_of_find?_eq_some hy⟩
  · rintro ⟨c, hc, hy⟩
    obtain ⟨_, _, _, hentry, _⟩ := of_numbers? (x := ⟨a, pid⟩) hc
    exact numberIn?_eq (x := ⟨a, pid⟩) hc (nodup_spaces_of_chain hg hentry) hy

end PidMap

/-! ## The law -/

open PidMap

/-- Whatever graph the changes make and whichever processes there are, as long as no two of them
share a number: what one number is translated into is translated back into it, and from there
leads everywhere the first number leads, and nowhere else. -/
theorem a_translated_number_stands_for_the_first (changes : List Change) (t : ProcessTable)
    (hown : Distinct (.after changes) t) (p q : Pid) (a b : Identity)
    (h : (ofTable (.after changes) t).numberIn? p a b = some q) :
    (ofTable (.after changes) t).numberIn? q b a = some p ∧
      ∀ c, (ofTable (.after changes) t).numberIn? q b c =
        (ofTable (.after changes) t).numberIn? p a c := by
  have hg : Forest (.after changes) := Forest.after changes
  obtain ⟨chain, hchain, hq⟩ := (numberIn?_eq_some_iff hg).1 h
  have hback : (ofTable (.after changes) t).numbers? q b = some chain :=
    numbers?_of_mem hown (x := ⟨a, p⟩) (y := ⟨b, q⟩) hchain hq
  constructor
  · obtain ⟨_, _, _, _, hp⟩ := of_numbers? (x := ⟨a, p⟩) hchain
    exact (numberIn?_eq_some_iff hg).2 ⟨chain, hback, hp⟩
  · intro c
    unfold numberIn?
    rw [hback, hchain]

/-- Four processes in three nested namespaces; the numbers of the last do not fit its namespace. -/
theorem a_number_goes_down_and_back :
    let g := Graph.after [
      .insertNew .pid ⟨4, 1⟩ .empty, .insertNew .pid ⟨4, 2⟩ .empty, .insertNew .pid ⟨4, 3⟩ .empty,
      .addChild .pid ⟨4, 1⟩ ⟨4, 2⟩, .addChild .pid ⟨4, 2⟩ ⟨4, 3⟩]
    let process (pid : Pid) (space : Identity) (numbers : List Pid) : Process := {
      pid, parentPid := ⟨1⟩, name := "p", started := 0, innerPids := numbers
      joined := (BySpecies.same none).set .pid (some space) }
    let t := ProcessTable.ofList [
      process ⟨1⟩ ⟨4, 1⟩ [⟨1⟩], process ⟨500⟩ ⟨4, 2⟩ [⟨500⟩, ⟨1⟩],
      process ⟨600⟩ ⟨4, 3⟩ [⟨600⟩, ⟨7⟩, ⟨1⟩], process ⟨700⟩ ⟨4, 3⟩ [⟨700⟩, ⟨2⟩]]
    Distinct g t ∧ (ofTable g t).numberIn? ⟨600⟩ ⟨4, 1⟩ ⟨4, 3⟩ = some ⟨1⟩ ∧
      (ofTable g t).numberIn? ⟨1⟩ ⟨4, 3⟩ ⟨4, 1⟩ = some ⟨600⟩ ∧
      (ofTable g t).numberIn? ⟨1⟩ ⟨4, 3⟩ ⟨4, 2⟩ = (ofTable g t).numberIn? ⟨600⟩ ⟨4, 1⟩ ⟨4, 2⟩ := by
  intro g process t
  have hentries : ∀ e ∈ t.registry.entries, ∀ e' ∈ t.registry.entries,
      ∀ x ∈ (entryOf g e.2).numbers, x ∈ (entryOf g e'.2).numbers → e.1 = e'.1 := by
    decide +kernel
  have hown : Distinct g t := by
    intro i j p q hp hq
    exact hentries (i, p) (Registry.mem_entries_iff.2 hp) (j, q) (Registry.mem_entries_iff.2 hq)
  have hdown : (ofTable g t).numberIn? ⟨600⟩ ⟨4, 1⟩ ⟨4, 3⟩ = some ⟨1⟩ := by
    decide +kernel
  obtain ⟨hback, hon⟩ :=
    a_translated_number_stands_for_the_first _ t hown ⟨600⟩ ⟨1⟩ ⟨4, 1⟩ ⟨4, 3⟩ hdown
  exact ⟨hown, hdown, hback, hon ⟨4, 2⟩⟩

end NamespaceAtlas
