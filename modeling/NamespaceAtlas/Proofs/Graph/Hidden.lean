-- The hidden namespaces of a graph: where they stand, and how many there are.
import NamespaceAtlas.Proofs.Graph.Forest
import NamespaceAtlas.Proofs.Graph.Owners

namespace NamespaceAtlas.Graph

variable {g g' : Graph} {s t : Species} {i j : Identity}

/-- Whether a namespace is known and no path addresses it. -/
def hides (g : Graph) (s : Species) (i : Identity) : Bool := (g.get? s i).any (·.isHidden)

/-- Where the hidden namespaces stand. -/
def hidden (g : Graph) : List (Species × Identity) :=
  Species.all.flatMap fun s => ((g.ids s).filter (g.hides s)).map fun i => (s, i)

theorem hides_of_get? {n : Namespace} (hn : g.get? s i = some n) : g.hides s i = n.isHidden := by
  unfold hides
  rw [hn, Option.any_some]

theorem hides_eq_true : g.hides s i = true ↔ ∃ n, g.get? s i = some n ∧ n.isHidden = true :=
  Option.any_eq_true _ _

theorem contains_of_hides (h : g.hides s i = true) : g.contains s i = true := by
  obtain ⟨n, hn, _⟩ := hides_eq_true.1 h
  exact contains_iff.2 ⟨n, hn⟩

theorem hides_of_contains_eq_false (h : g.contains s i = false) : g.hides s i = false := by
  refine Bool.eq_false_iff.2 fun hhides => ?_
  rw [contains_of_hides hhides] at h
  cases h

/-! ## Changes -/

/-- Two graphs that know the same namespaces and hide the same of them. -/
def SameSights (g g' : Graph) : Prop :=
  ∀ s i, (g'.get? s i).map Namespace.isHidden = (g.get? s i).map Namespace.isHidden

namespace SameSights

theorem refl (g : Graph) : SameSights g g := fun _ _ => rfl

theorem trans {h : Graph} (h1 : SameSights g g') (h2 : SameSights g' h) : SameSights g h :=
  fun s i => (h2 s i).trans (h1 s i)

theorem modify (g : Graph) (s : Species) (i : Identity) (f : Namespace → Namespace)
    (hf : ∀ n, (f n).isHidden = n.isHidden) : SameSights g (g.modify s i f) := by
  intro t j
  rw [get?_modify]
  split
  · rw [Option.map_map]
    exact congrArg (Option.map · _) (funext hf)
  · rfl

theorem contains_eq (h : SameSights g g') (s : Species) (i : Identity) :
    g'.contains s i = g.contains s i := by
  change (g'.get? s i).isSome = (g.get? s i).isSome
  rw [← Option.isSome_map (f := Namespace.isHidden), h s i, Option.isSome_map]

theorem hides_eq (h : SameSights g g') (s : Species) (i : Identity) :
    g'.hides s i = g.hides s i := by
  have hview : ∀ g : Graph, g.hides s i = ((g.get? s i).map Namespace.isHidden).any id := by
    intro g
    rw [Option.any_map]
    rfl
  rw [hview, hview, h s i]

/-- An edge shows and hides nothing. -/
theorem addChild {p c : Identity} (hok : g.addChild s p c = .ok g') : SameSights g g' := by
  rcases addChild_eq_ok hok with ⟨_, rfl⟩ | ⟨_, _, _, _, _, rfl⟩
  · exact refl g'
  · exact (modify g s c (·.setParent p) fun _ => rfl).trans (modify _ s p (·.addChild c) fun _ => rfl)

theorem resolveOwner (hok : g.resolveOwner? s i = some g') : SameSights g g' := by
  obtain ⟨owner, _, _, _, _, rfl⟩ := resolveOwner?_eq_some hok
  exact (modify g .user owner (·.addOwned s i) fun _ => rfl).trans
    (modify _ s i (·.setOwner owner) fun _ => rfl)

theorem resolveOwners (s : Species) (ids : List Identity) :
    ∀ g : Graph, SameSights g (Survey.resolveOwners g s ids).1 := by
  induction ids with
  | nil => exact fun g => refl g
  | cons id rest ih =>
    intro g
    unfold Survey.resolveOwners
    cases hok : g.resolveOwner? s id with
    | none => exact ih g
    | some g' => exact (resolveOwner hok).trans (ih g')

end SameSights

/-- Of a first sighting the namespace is hidden if there is no path. -/
theorem hides_insertNew (hnew : g.contains s i = false) (r : Reference) :
    (g.insertNew s i r).hides t j = if s = t ∧ i = j then r.isEmpty else g.hides t j := by
  have hnone : g.get? s i = none := get?_of_contains_eq_false hnew
  unfold hides
  rw [get?_insertNew]
  split
  · rename_i heq
    rw [← heq.1, ← heq.2, hnone]
    rfl
  · rfl

/-! ## A parent that was not known -/

variable {p c : Identity}

/-- A namespace that is met for the first time can become the parent of one that has none. -/
theorem addChild_insertNew (h : Forest g) (hs : s.hasParents = true)
    (hnew : g.contains s p = false) (hc : g.contains s c = true) (htop : g.parent? s c = none)
    (r : Reference) :
    (g.insertNew s p r).addChild s p c = .ok ((g.insertNew s p r).link s p c) := by
  have hforest : Forest (g.insertNew s p r) := h.insertNew s p r
  have hchild : (g.insertNew s p r).contains s c = true :=
    (contains_insertNew r).2 (Or.inr hc)
  have hnone : (g.insertNew s p r).parent? s p = none := by
    rw [parent?_insertNew, Option.eq_none_iff_forall_ne_some]
    intro above habove
    rw [contains_of_parent? habove] at hnew
    cases hnew
  apply addChild_eq_link
  · rintro rfl
    rw [hc] at hnew
    cases hnew
  · exact (contains_insertNew r).2 (Or.inl ⟨rfl, rfl⟩)
  · rw [hforest.isSome_hierarchy hchild, hs]
  · rw [parent?_insertNew, htop]
  · unfold ancestors
    rw [hnone]
    exact List.not_mem_nil

/-- It has this one child then. -/
theorem children_link_insertNew (h : Forest g) (hs : s.hasParents = true)
    (hnew : g.contains s p = false) (c : Identity) (r : Reference) :
    ((g.insertNew s p r).link s p c).children s p = [c] := by
  have hforest : Forest (g.insertNew s p r) := h.insertNew s p r
  have hparent : (g.insertNew s p r).contains s p = true :=
    (contains_insertNew r).2 (Or.inl ⟨rfl, rfl⟩)
  have hlone : (g.insertNew s p r).children s p = [] := by
    rw [children_insertNew, List.eq_nil_iff_forall_not_mem]
    intro i hi
    rw [contains_of_mem_children hi] at hnew
    cases hnew
  rw [children_link ((hforest.isSome_hierarchy hparent).trans hs) (by simp [hlone]),
    if_pos ⟨rfl, rfl⟩, hlone]
  rfl

/-! ## Their number -/

theorem mem_hidden : (s, i) ∈ g.hidden ↔ g.hides s i = true := by
  unfold hidden
  simp only [List.mem_flatMap, List.mem_map, List.mem_filter, Prod.mk.injEq]
  constructor
  · rintro ⟨t, _, j, ⟨_, h⟩, rfl, rfl⟩
    exact h
  · exact fun h => ⟨s, s.mem_all, i, ⟨mem_ids_iff.2 (contains_of_hides h), h⟩, rfl, rfl⟩

theorem nodup_hidden (g : Graph) : g.hidden.Nodup := by
  unfold hidden
  refine List.pairwise_flatMap.2 ⟨fun s _ => ?_, Species.nodup_all.imp fun hne => ?_⟩
  · refine List.pairwise_map.2 (((g.nodup_ids s).filter _).imp fun hne heq => ?_)
    exact hne (Prod.mk.inj heq).2
  · intro x hx y hy heq
    obtain ⟨_, _, rfl⟩ := List.mem_map.1 hx
    obtain ⟨_, _, rfl⟩ := List.mem_map.1 hy
    exact hne (Prod.mk.inj heq).1

/-- There are as many places as hidden namespaces. -/
theorem length_hidden (g : Graph) : g.hidden.length = g.toList.countP (·.isHidden) := by
  unfold hidden toList
  rw [List.length_flatMap, List.countP_flatMap]
  refine congrArg List.sum (List.map_congr_left fun s _ => ?_)
  rw [Function.comp_apply, List.length_map, ← List.countP_eq_length_filter]
  unfold ids Registry.keys Registry.values
  rw [List.countP_map, List.countP_map]
  refine List.countP_congr fun e he => ?_
  have hn : g.get? s e.1 = some e.2 := Registry.mem_entries_iff.1 he
  rw [Function.comp_apply, Function.comp_apply, hides_of_get? hn]

/-- Graphs that hide the same namespaces hide as many. -/
theorem length_hidden_congr (h : ∀ s i, g'.hides s i = g.hides s i) :
    g'.hidden.length = g.hidden.length := by
  refine ((List.perm_ext_iff_of_nodup g'.nodup_hidden g.nodup_hidden).2 ?_).length_eq
  rintro ⟨s, i⟩
  rw [mem_hidden, mem_hidden, h]

/-- One hidden namespace more. -/
theorem length_hidden_succ (hnew : g.hides s i = false)
    (h : ∀ t j, g'.hides t j = true ↔ (s = t ∧ i = j) ∨ g.hides t j = true) :
    g'.hidden.length = g.hidden.length + 1 := by
  have hnot : (s, i) ∉ g.hidden := by
    rw [mem_hidden, hnew]
    exact Bool.false_ne_true
  have hperm : g'.hidden.Perm ((s, i) :: g.hidden) := by
    refine (List.perm_ext_iff_of_nodup g'.nodup_hidden
      (List.nodup_cons.2 ⟨hnot, g.nodup_hidden⟩)).2 ?_
    rintro ⟨t, j⟩
    rw [mem_hidden, h, List.mem_cons, mem_hidden, Prod.mk.injEq, eq_comm (a := t),
      eq_comm (a := j)]
  rw [hperm.length_eq, List.length_cons]

theorem length_hidden_eq_zero (h : ∀ s i, g.hides s i = false) : g.hidden.length = 0 := by
  rw [List.length_eq_zero_iff, List.eq_nil_iff_forall_not_mem]
  rintro ⟨s, i⟩ hin
  rw [mem_hidden, h] at hin
  cases hin

end NamespaceAtlas.Graph
