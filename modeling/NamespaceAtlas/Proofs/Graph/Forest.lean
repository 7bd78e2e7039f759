-- Every graph is a forest. Parents and children are two records of one
-- relation, and no change of a graph, refused ones included, parts them or
-- closes a circle. So the ancestors of a namespace are its whole way up.
import NamespaceAtlas.Proofs.Graph.Ancestors
import NamespaceAtlas.Proofs.Identity

namespace NamespaceAtlas

/-! ## Changes -/

/-- A change of a graph. -/
inductive Change where
  | insertNew (s : Species) (id : Identity) (reference : Reference)
  | addChild (s : Species) (parent child : Identity)
  | setReference (s : Species) (id : Identity) (reference : Reference)
  | addLeader (s : Species) (id : Identity) (pid : Pid)
  | clearLeaders (s : Species) (id : Identity)
  | setOwnerId (s : Species) (id owner : Identity)
  | setOwner (s : Species) (id owner : Identity)
  | setCreator (s : Species) (id : Identity) (uid : UInt32)
  | resolveOwner (s : Species) (id : Identity)

namespace Graph

/-- The graph after a change. One that is refused leaves it as it was. -/
def apply (g : Graph) : Change → Graph
  | .insertNew s id reference => g.insertNew s id reference
  | .addChild s parent child =>
    match g.addChild s parent child with
    | .ok g => g
    | .error _ => g
  | .setReference s id reference => g.modify s id (·.setReference reference)
  | .addLeader s id pid => g.modify s id (·.addLeader pid)
  | .clearLeaders s id => g.modify s id (·.clearLeaders)
  | .setOwnerId s id owner => g.modify s id (·.setOwnerId owner)
  | .setOwner s id owner => g.modify s id (·.setOwner owner)
  | .setCreator s id uid => g.modify s id (·.setCreator uid)
  | .resolveOwner s id => (g.resolveOwner? s id).getD g

/-- The graph that a list of changes makes of the one without namespaces. -/
def after (changes : List Change) : Graph := changes.foldl apply empty

end Graph

/-! ## The invariant -/

/-- What every graph keeps. -/
structure Forest (g : Graph) : Prop where
  filed : ∀ s id n, g.get? s id = some n → n.id = id ∧ n.species = s ∧ n.kind.fits s = true
  linked : ∀ s child parent, g.parent? s child = some parent ↔ child ∈ g.children s parent
  children_nodup : ∀ s id, (g.children s id).Nodup
  acyclic : ∀ s, Acyclic (g.parent? s)

namespace Forest

variable {g g' : Graph} {s : Species} {i p c : Identity}

theorem empty : Forest .empty where
  filed s id n h := by simp at h
  linked s child parent := by
    simp [Graph.parent?, Graph.children, Graph.hierarchy?]
  children_nodup s id := by
    simp [Graph.children, Graph.hierarchy?]
  acyclic s a h := by
    refine not_above_of_none ?_ h
    simp [Graph.parent?]

theorem parentsKnown (h : Forest g) (s : Species) : g.ParentsKnown s := by
  intro i p hp
  exact Graph.contains_of_mem_children ((h.linked s i p).1 hp)

/-- A known namespace has relatives if its species has parents, and none otherwise. -/
theorem isSome_hierarchy (h : Forest g) (hi : g.contains s i = true) :
    (g.hierarchy? s i).isSome = s.hasParents := by
  obtain ⟨n, hn⟩ := Graph.contains_iff.1 hi
  rw [Graph.hierarchy?_of_get? hn]
  exact Kind.isSome_hierarchy_of_fits (h.filed s i n hn).2.2

/-- From every namespace a way leads up to a root. -/
theorem exists_way (h : Forest g) (s : Species) (i : Identity) :
    ∃ l, Way (g.parent? s) i l := (h.acyclic s).exists_way i

theorem way_ancestors (h : Forest g) (s : Species) (i : Identity) :
    Way (g.parent? s) i (g.ancestors s i) := by
  obtain ⟨l, hl⟩ := h.exists_way s i
  rw [(h.parentsKnown s).ancestors_eq hl]
  exact hl

/-! ## One change -/

/-- A change that leaves every namespace in its place keeps the forest. -/
theorem samePlaces (h : Forest g) (hsame : g.SamePlaces g') : Forest g' where
  filed s id n' hn' := by
    have hplace := hsame s id
    rw [hn', Option.map_some] at hplace
    obtain ⟨n, hn, hplace⟩ := Option.map_eq_some_iff.1 hplace.symm
    obtain ⟨hid, hspecies, hfits, _⟩ := Place.mk.inj hplace
    rw [← hid, ← hspecies, ← hfits]
    exact h.filed s id n hn
  linked s child parent := by rw [hsame.parent?, hsame.children, h.linked]
  children_nodup s id := by
    rw [hsame.children]
    exact h.children_nodup s id
  acyclic s := by
    rw [show g'.parent? s = g.parent? s from funext (hsame.parent? s)]
    exact h.acyclic s

theorem insertNew (h : Forest g) (s : Species) (i : Identity) (r : Reference) :
    Forest (g.insertNew s i r) where
  filed t j n hn := by
    rw [Graph.get?_insertNew] at hn
    split at hn
    · rename_i heq
      obtain ⟨rfl, rfl⟩ := heq
      cases hg : g.get? s i with
      | none =>
        rw [hg] at hn
        cases hn
        exact ⟨rfl, rfl, Kind.fits_ofSpecies s⟩
      | some m =>
        rw [hg] at hn
        cases hn
        exact h.filed s i m hg
    · exact h.filed t j n hn
  linked t child parent := by
    rw [Graph.parent?_insertNew, Graph.children_insertNew, h.linked]
  children_nodup t j := by
    rw [Graph.children_insertNew]
    exact h.children_nodup t j
  acyclic t := by
    rw [show (g.insertNew s i r).parent? t = g.parent? t from
      funext fun _ => Graph.parent?_insertNew r]
    exact h.acyclic t

/-- A namespace that a new edge changes keeps its identity, its species and its kind. -/
theorem filed_link (h : Forest g) (s : Species) (p c : Identity) :
    ∀ t j n, (g.link s p c).get? t j = some n →
      n.id = j ∧ n.species = t ∧ n.kind.fits t = true := by
  intro t j n hn
  have hrecord : g.record? t j = some n.record := by
    rw [← Graph.record?_link, Graph.record?_of_get? hn]
  obtain ⟨m, hm, hmn⟩ := Option.map_eq_some_iff.1 hrecord
  obtain ⟨hid, hspecies, hfits, _⟩ := Record.mk.inj hmn
  rw [← hid, ← hspecies, ← hfits]
  exact h.filed t j m hm

/-- A new edge keeps the forest, if it gives no second parent and does not lead down to its
own child. -/
theorem link (h : Forest g) (hne : p ≠ c) (hp : g.contains s p = true)
    (hc : (g.hierarchy? s c).isSome) (hroot : g.parent? s c = none)
    (hcycle : ¬ Above (g.parent? s) p c) : Forest (g.link s p c) := by
  have hparents : (g.hierarchy? s p).isSome := by
    rw [h.isSome_hierarchy hp, ← h.isSome_hierarchy (Graph.contains_of_hierarchy hc), hc]
  have hnew : c ∉ g.children s p := by
    rw [← h.linked, hroot]
    simp
  refine ⟨h.filed_link s p c, ?_, ?_, ?_⟩
  · intro t child parent
    rw [Graph.parent?_link hc, Graph.children_link hparents hnew]
    by_cases hparent : s = t ∧ p = parent
    · obtain ⟨rfl, rfl⟩ := hparent
      by_cases hchild : c = child
      · simp [hchild]
      · simp [hchild, Ne.symm hchild, h.linked]
    · rw [if_neg hparent]
      by_cases hchild : s = t ∧ c = child
      · obtain ⟨rfl, rfl⟩ := hchild
        have hother : p ≠ parent := fun heq => hparent ⟨rfl, heq⟩
        rw [← h.linked, hroot]
        simp [hother]
      · rw [if_neg hchild, h.linked]
  · intro t j
    rw [Graph.children_link hparents hnew]
    split
    · rename_i heq
      obtain ⟨rfl, rfl⟩ := heq
      rw [← List.concat_eq_append]
      exact (h.children_nodup s p).concat hnew
    · exact h.children_nodup t j
  · intro t
    by_cases ht : s = t
    · subst ht
      have := (h.acyclic s).link hne.symm hcycle
      refine this.mono fun x y hxy => ?_
      rw [Graph.parent?_link hc] at hxy
      simpa [eq_comm] using hxy
    · refine (h.acyclic t).mono fun x y hxy => ?_
      rw [Graph.parent?_link hc] at hxy
      simpa [ht] using hxy

theorem addChild (h : Forest g) (hok : g.addChild s p c = .ok g') : Forest g' := by
  rcases Graph.addChild_eq_ok hok with ⟨_, rfl⟩ | ⟨hne, hp, hc, hroot, hcycle, rfl⟩
  · exact h
  · refine h.link hne hp hc hroot fun habove => hcycle ?_
    exact (h.way_ancestors s p).mem_iff.2 habove

theorem resolveOwner (h : Forest g) (hok : g.resolveOwner? s i = some g') : Forest g' := by
  unfold Graph.resolveOwner? at hok
  split at hok
  · cases hok
  · obtain ⟨owner, _, hok⟩ := Option.bind_eq_some_iff.1 hok
    obtain ⟨user, _, hok⟩ := Option.bind_eq_some_iff.1 hok
    split at hok
    · cases hok
    · cases hok
      refine h.samePlaces ((Graph.samePlaces_modify ?_).trans (Graph.samePlaces_modify ?_))
      · simp
      · simp

/-- Every change keeps the forest. -/
theorem apply (h : Forest g) (change : Change) : Forest (g.apply change) := by
  cases change with
  | insertNew s id reference => exact h.insertNew s id reference
  | addChild s parent child =>
    unfold Graph.apply
    dsimp only
    split
    · rename_i hok
      exact h.addChild hok
    · exact h
  | setReference s id reference => exact h.samePlaces (Graph.samePlaces_modify (by simp))
  | addLeader s id pid => exact h.samePlaces (Graph.samePlaces_modify (by simp))
  | clearLeaders s id => exact h.samePlaces (Graph.samePlaces_modify (by simp))
  | setOwnerId s id owner => exact h.samePlaces (Graph.samePlaces_modify (by simp))
  | setOwner s id owner => exact h.samePlaces (Graph.samePlaces_modify (by simp))
  | setCreator s id uid => exact h.samePlaces (Graph.samePlaces_modify (by simp))
  | resolveOwner s id =>
    unfold Graph.apply
    dsimp only
    cases hok : g.resolveOwner? s id with
    | none => exact h
    | some g' => exact h.resolveOwner hok

/-! ## Any run of changes -/

theorem foldl_apply (h : Forest g) (changes : List Change) : Forest (changes.foldl .apply g) := by
  induction changes generalizing g with
  | nil => exact h
  | cons change rest ih => exact ih (h.apply change)

theorem after (changes : List Change) : Forest (.after changes) := Forest.empty.foldl_apply changes

/-! ## What the invariant says of a namespace -/

/-- A namespace has a parent exactly if it is among the children of a known one. -/
theorem parent?_eq_some_iff {n : Namespace} (h : Forest g) (hn : g.get? s i = some n) :
    n.parent? = some p ↔ ∃ m, g.get? s p = some m ∧ i ∈ m.children := by
  rw [← Graph.parent?_of_get? hn, h.linked]
  constructor
  · intro hi
    obtain ⟨m, hm⟩ := Graph.contains_iff.1 (Graph.contains_of_mem_children hi)
    exact ⟨m, hm, Graph.children_of_get? hm ▸ hi⟩
  · rintro ⟨m, hm, hi⟩
    exact Graph.children_of_get? hm ▸ hi

/-- The children of a namespace are known. -/
theorem contains_of_mem_children {n : Namespace} (h : Forest g) (hn : g.get? s i = some n)
    (hc : c ∈ n.children) : g.contains s c = true := by
  rw [← Graph.children_of_get? hn, ← h.linked] at hc
  exact Graph.contains_of_parent? hc

/-- A namespace of a species without parents has no relatives. -/
theorem no_relatives {n : Namespace} (h : Forest g) (hn : g.get? s i = some n)
    (hs : s.hasParents = false) : n.parent? = none ∧ n.children = [] := by
  have hnone := Kind.isSome_hierarchy_of_fits (h.filed s i n hn).2.2
  rw [hs, Option.isSome_eq_false_iff, Option.isNone_iff_eq_none] at hnone
  unfold Namespace.parent? Namespace.children
  rw [hnone]
  exact ⟨rfl, rfl⟩

/-- The way up from a known namespace ends at a root. -/
theorem last_mem_roots (h : Forest g) (hs : s.hasParents = true)
    (hi : g.contains s i = true) :
    ∃ root ∈ g.roots s, root.id = (i :: g.ancestors s i).getLast (by simp) := by
  have hway := h.way_ancestors s i
  have hlast : g.contains s ((i :: g.ancestors s i).getLast (by simp)) = true := by
    rcases List.mem_cons.1 (List.getLast_mem (l := i :: g.ancestors s i) (by simp)) with heq | hin
    · rw [heq]
      exact hi
    · exact hway.forall_mem (h.parentsKnown s) _ hin
  obtain ⟨root, hroot⟩ := Graph.contains_iff.1 hlast
  refine ⟨root, ?_, (h.filed s _ root hroot).1⟩
  unfold Graph.roots
  rw [if_pos hs, List.mem_filter]
  refine ⟨Registry.mem_values_iff.2 ⟨_, hroot⟩, ?_⟩
  rw [← Graph.parent?_of_get? hroot, hway.up_last]
  rfl

end Forest

/-! ## The law -/

/-- Whatever changes are made, in whatever order: every namespace stands under its own identity
and species, parents and children agree, and nothing is above itself. So the ancestors of a
namespace are the whole way up from it to a root, fewer than there are namespaces. -/
theorem every_graph_is_a_forest (changes : List Change) :
    let g := Graph.after changes
    (∀ s id n, g.get? s id = some n →
      (n.id = id ∧ n.species = s ∧ n.kind.fits s = true) ∧
      (∀ parent, n.parent? = some parent ↔
        ∃ m, g.get? s parent = some m ∧ id ∈ m.children) ∧
      (n.children.Nodup ∧ ∀ child ∈ n.children, g.contains s child = true) ∧
      (s.hasParents = false → n.parent? = none ∧ n.children = [])) ∧
    (∀ s, Acyclic (g.parent? s)) ∧
    ∀ s id, s.hasParents = true → g.contains s id = true →
      Way (g.parent? s) id (g.ancestors s id) ∧
      (g.ancestors s id).Nodup ∧ id ∉ g.ancestors s id ∧
      (∃ root ∈ g.roots s, root.id = (id :: g.ancestors s id).getLast (by simp)) ∧
      (g.ancestors s id).length < (g.ofSpecies s).size := by
  intro g
  have h : Forest g := Forest.after changes
  refine ⟨fun s id n hn => ⟨h.filed s id n hn, fun parent => h.parent?_eq_some_iff hn, ?_,
    h.no_relatives hn⟩, h.acyclic, fun s id hs hid => ?_⟩
  · refine ⟨?_, fun child => h.contains_of_mem_children hn⟩
    rw [← Graph.children_of_get? hn]
    exact h.children_nodup s id
  · have hway := h.way_ancestors s id
    refine ⟨hway, (List.nodup_cons.1 hway.nodup).2, hway.not_mem, h.last_mem_roots hs hid, ?_⟩
    exact (h.parentsKnown s).length_way_lt hid hway

end NamespaceAtlas
