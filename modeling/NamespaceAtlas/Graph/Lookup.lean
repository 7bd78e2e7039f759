-- What every change of a graph does to look-up.
import NamespaceAtlas.Graph
import NamespaceAtlas.Registry.Lookup

namespace NamespaceAtlas.Graph

variable (g : Graph) (s t : Species) (i j : Identity)

@[simp] theorem get?_empty : (empty.get? s i) = none := by
  cases s <;> rfl

@[simp] theorem ofSpecies_setSpecies (r : Registry Identity Namespace) :
    (g.setSpecies s r).ofSpecies s = r := BySpecies.get_set ..

/-- Another registry for one species leaves the other species alone. -/
theorem ofSpecies_setSpecies_of_ne {s t : Species} (r : Registry Identity Namespace)
    (h : t ≠ s) : (g.setSpecies s r).ofSpecies t = g.ofSpecies t :=
  BySpecies.get_set_of_ne _ _ h

theorem contains_iff {g : Graph} {s : Species} {i : Identity} :
    g.contains s i = true ↔ ∃ n, g.get? s i = some n := Registry.contains_iff

theorem get?_of_contains_eq_false {g : Graph} {s : Species} {i : Identity}
    (h : g.contains s i = false) : g.get? s i = none :=
  Option.isNone_iff_eq_none.1 (Option.isSome_eq_false_iff.1 h)

theorem mem_ids_iff {g : Graph} {s : Species} {i : Identity} :
    i ∈ g.ids s ↔ g.contains s i = true := Registry.mem_keys_iff

theorem nodup_ids (g : Graph) (s : Species) : (g.ids s).Nodup := Registry.nodup_keys _

/-- Changing one namespace leaves all others alone. -/
theorem get?_modify (f : Namespace → Namespace) :
    (g.modify s i f).get? t j = if s = t ∧ i = j then (g.get? t j).map f else g.get? t j := by
  unfold modify get?
  by_cases hs : t = s
  · subst hs
    rw [ofSpecies_setSpecies, Registry.get?_modify]
    by_cases hi : i = j
    · simp [hi]
    · have : ¬ Ranked.rank i = Ranked.rank j := fun h => hi (Ranked.rank_injective _ _ h)
      simp [hi, this]
  · rw [ofSpecies_setSpecies_of_ne _ _ hs]
    simp [Ne.symm hs]

@[simp] theorem contains_modify (f : Namespace → Namespace) :
    (g.modify s i f).contains t j = g.contains t j := by
  change ((g.modify s i f).get? t j).isSome = (g.get? t j).isSome
  rw [get?_modify]
  split
  · exact Option.isSome_map
  · rfl

/-- A first sighting adds a namespace of which nothing else is known, unless it is there. -/
theorem get?_insertNew (r : Reference) :
    (g.insertNew s i r).get? t j =
      if s = t ∧ i = j then some ((g.get? t j).getD (.new s i r)) else g.get? t j := by
  unfold insertNew get?
  by_cases hs : t = s
  · subst hs
    rw [ofSpecies_setSpecies, Registry.get?_insertNew]
    by_cases hi : i = j
    · simp [hi]
    · have : ¬ Ranked.rank i = Ranked.rank j := fun h => hi (Ranked.rank_injective _ _ h)
      simp [hi, this]
  · rw [ofSpecies_setSpecies_of_ne _ _ hs]
    simp [Ne.symm hs]

theorem ofSpecies_modify_of_ne {s t : Species} (f : Namespace → Namespace) (h : t ≠ s) :
    (g.modify s i f).ofSpecies t = g.ofSpecies t := ofSpecies_setSpecies_of_ne _ _ h

theorem ofSpecies_insertNew_of_ne {s t : Species} (r : Reference) (h : t ≠ s) :
    (g.insertNew s i r).ofSpecies t = g.ofSpecies t := ofSpecies_setSpecies_of_ne _ _ h

theorem get?_of_isEmpty {g : Graph} {s : Species} (h : (g.ofSpecies s).isEmpty = true)
    (i : Identity) : g.get? s i = none := by
  have hentries := List.isEmpty_iff.1 h
  unfold get? Registry.get?
  rw [hentries]
  rfl

/-- Graphs that answer every look-up alike are the same. -/
theorem ext_get? {g h : Graph} (heq : ∀ s i, g.get? s i = h.get? s i) : g = h := by
  obtain ⟨b⟩ := g
  obtain ⟨c⟩ := h
  exact congrArg Graph.mk (BySpecies.ext_get fun s => Registry.ext_get? (heq s))

/-- A namespace that is known stays as it is when it is met again. -/
theorem insertNew_eq_self {g : Graph} {s : Species} {i : Identity} (h : g.contains s i = true)
    (r : Reference) : g.insertNew s i r = g := by
  obtain ⟨n, hn⟩ := contains_iff.1 h
  refine ext_get? fun t j => ?_
  rw [get?_insertNew]
  split
  · rename_i heq
    rw [← heq.1, ← heq.2, hn, Option.getD_some]
  · rfl

end NamespaceAtlas.Graph
