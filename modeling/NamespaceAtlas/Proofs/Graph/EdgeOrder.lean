-- Edges in any order. A list of edges can be taken one after the other exactly
-- if they can all be there at once, and what comes of it is told by the edges
-- alone. So no order of them is refused that another is not.
import NamespaceAtlas.Proofs.Graph.NewEdge

namespace NamespaceAtlas

namespace Graph

/-- Links the children of a list of edges with their parents, one after the other. An edge is a
parent with a child. -/
def addChildren (g : Graph) (s : Species) (edges : List (Identity × Identity)) :
    Except Error Graph := edges.foldlM (fun g e => g.addChild s e.1 e.2) g

/-- Edges that can all be there at once: between known namespaces, with one parent for each child,
and without a circle. -/
structure Compatible (g : Graph) (s : Species) (edges : List (Identity × Identity)) : Prop where
  known : ∀ e ∈ edges, g.contains s e.1 = true ∧ g.contains s e.2 = true
  one_parent : ∀ p q c, (p, c) ∈ edges → (q, c) ∈ edges → p = q
  no_circle : ∀ a, ¬ Relation.TransGen (fun child parent => (parent, child) ∈ edges) a a

/-- What a graph has become once it has taken the edges of a list. -/
structure Carries (g : Graph) (s : Species) (edges : List (Identity × Identity)) (g' : Graph) :
    Prop where
  forest : Forest g'
  record : ∀ t i, g'.record? t i = g.record? t i
  edge : ∀ p c, g'.parent? s c = some p ↔ (p, c) ∈ edges
  elsewhere : ∀ t, t ≠ s → ∀ i, g'.parent? t i = g.parent? t i

variable {g g' : Graph} {s t : Species} {i p c : Identity} {edges edges' : List (Identity × Identity)}

theorem Compatible.of_subset (h : g.Compatible s edges) (hsub : edges' ⊆ edges) :
    g.Compatible s edges' where
  known e he := h.known e (hsub he)
  one_parent p q c hp hq := h.one_parent p q c (hsub hp) (hsub hq)
  no_circle a ha := h.no_circle a (Relation.TransGen.mono (fun _ _ he => hsub he) _ _ ha)

theorem addChildren_snoc (e : Identity × Identity) : g.addChildren s (edges ++ [e]) =
    (g.addChildren s edges).bind fun g' => g'.addChild s e.1 e.2 := by
  unfold addChildren
  rw [List.foldlM_append]
  simp only [List.foldlM_cons, List.foldlM_nil, bind_pure]
  rfl

/-! ## What edges make of a graph -/

namespace Carries

theorem contains_eq (h : g.Carries s edges g') : g'.contains t i = g.contains t i := by
  rw [contains_eq_record, contains_eq_record, h.record]

theorem above_iff (h : g.Carries s edges g') (a b : Identity) : Above (g'.parent? s) a b ↔
    Relation.TransGen (fun child parent => (parent, child) ∈ edges) a b := by
  have hsame : (fun child parent => g'.parent? s child = some parent) =
      fun child parent => (parent, child) ∈ edges := by
    funext child parent
    exact propext (h.edge parent child)
  unfold Above
  rw [hsame]

/-- Edges that were taken can all be there at once. -/
theorem compatible (h : g.Carries s edges g') : g.Compatible s edges where
  known e he := by
    have hparent := (h.edge e.1 e.2).2 he
    rw [← h.contains_eq, ← h.contains_eq]
    exact ⟨h.forest.parentsKnown s _ _ hparent, contains_of_parent? hparent⟩
  one_parent p q c hp hq := by
    have hparent := (h.edge p c).2 hp
    rw [(h.edge q c).2 hq] at hparent
    exact (Option.some.inj hparent).symm
  no_circle a ha := h.forest.acyclic s a ((h.above_iff a a).2 ha)

/-- One edge more. -/
theorem addChild (h : g.Carries s edges g') {g'' : Graph} (hok : g'.addChild s p c = .ok g'') :
    g.Carries s (edges ++ [(p, c)]) g'' := by
  have hforest := h.forest.addChild hok
  rcases addChild_eq_ok hok with ⟨hp, rfl⟩ | ⟨_, _, hc, hroot, _, rfl⟩
  · have hin : (p, c) ∈ edges := (h.edge p c).1 hp
    refine ⟨hforest, h.record, fun q d => ?_, h.elsewhere⟩
    rw [h.edge, List.mem_append, List.mem_singleton]
    constructor
    · exact Or.inl
    · rintro (hq | heq)
      · exact hq
      · exact heq ▸ hin
  · refine ⟨hforest, fun t i => record?_link.trans (h.record t i), fun q d => ?_, fun t ht i => ?_⟩
    · rw [parent?_link hc, List.mem_append, List.mem_singleton, Prod.mk.injEq]
      by_cases hd : c = d
      · subst hd
        rw [if_pos ⟨rfl, rfl⟩, ← h.edge, hroot, Option.some.injEq]
        simp [eq_comm]
      · rw [if_neg fun heq => hd heq.2, h.edge]
        simp [Ne.symm hd]
    · rw [parent?_link hc, if_neg fun heq => ht heq.1.symm, h.elsewhere t ht]

/-- The next edge is taken if it can be there beside those that are. -/
theorem exists_addChild (h : g.Carries s edges g') (hs : s.hasParents = true)
    (hfit : g.Compatible s (edges ++ [(p, c)])) : ∃ g'', g'.addChild s p c = .ok g'' := by
  have hlast : (p, c) ∈ edges ++ [(p, c)] := by simp
  have hbefore : edges ⊆ edges ++ [(p, c)] := List.subset_append_left ..
  obtain ⟨hpknown, hcknown⟩ := hfit.known _ hlast
  have hne : p ≠ c := by
    rintro rfl
    exact hfit.no_circle p (.single hlast)
  refine ((h.forest.edgeOutcome s p c).ok_iff h.forest.not_mem_ancestors_parent).2
    ⟨⟨hne, by rwa [h.contains_eq], by rwa [h.contains_eq], hs⟩, ?_, fun hin => ?_⟩
  · cases hq : g'.parent? s c with
    | none => exact Or.inl rfl
    | some q =>
      have hqp := hfit.one_parent q p c (hbefore ((h.edge q c).1 hq)) hlast
      exact Or.inr (congrArg some hqp)
  · -- The way down to the child would close a circle with the edge itself.
    have habove := (h.above_iff p c).1 ((h.forest.way_ancestors s p).mem_iff.1 hin)
    refine hfit.no_circle c (.head hlast ?_)
    exact Relation.TransGen.mono (fun _ _ he => hbefore he) _ _ habove

end Carries

/-! ## Whole lists -/

section Lists

variable (hg : Forest g) (hroots : ∀ i, g.parent? s i = none)
include hg hroots

/-- Whatever edges were taken, the graph carries them. -/
theorem carries_of_addChildren (edges : List (Identity × Identity)) :
    ∀ g', g.addChildren s edges = .ok g' → g.Carries s edges g' := by
  induction edges using List.reverseRecOn with
  | nil =>
    intro g' hok
    cases hok
    exact ⟨hg, fun _ _ => rfl, by simp [hroots], fun _ _ _ => rfl⟩
  | append_singleton before e ih =>
    intro g' hok
    rw [addChildren_snoc] at hok
    cases hbefore : g.addChildren s before with
    | error _ =>
      rw [hbefore] at hok
      cases hok
    | ok middle =>
      rw [hbefore] at hok
      exact (ih middle hbefore).addChild hok

/-- Edges that can all be there at once are taken one after the other. -/
theorem exists_addChildren (hs : s.hasParents = true) (edges : List (Identity × Identity)) :
    g.Compatible s edges → ∃ g', g.addChildren s edges = .ok g' := by
  induction edges using List.reverseRecOn with
  | nil => exact fun _ => ⟨g, rfl⟩
  | append_singleton before e ih =>
    intro hfit
    obtain ⟨middle, hbefore⟩ := ih (hfit.of_subset (List.subset_append_left ..))
    have hcarries := carries_of_addChildren hg hroots before middle hbefore
    obtain ⟨g', hok⟩ := hcarries.exists_addChild hs hfit
    refine ⟨g', ?_⟩
    rw [addChildren_snoc, hbefore]
    exact hok

theorem addChildren_ok_iff (hs : s.hasParents = true) :
    (∃ g', g.addChildren s edges = .ok g') ↔ g.Compatible s edges := by
  constructor
  · rintro ⟨g', hok⟩
    exact (carries_of_addChildren hg hroots edges g' hok).compatible
  · exact exists_addChildren hg hroots hs edges

end Lists

end Graph

/-- Forests with the same parents have the same children, in whatever order. -/
theorem Forest.perm_children {g g' : Graph} {s : Species} (h : Forest g) (h' : Forest g')
    (hsame : ∀ i, g.parent? s i = g'.parent? s i) (i : Identity) :
    (g.children s i).Perm (g'.children s i) := by
  rw [List.perm_ext_iff_of_nodup (h.children_nodup s i) (h'.children_nodup s i)]
  intro c
  rw [← h.linked, ← h'.linked, hsame]

/-- Two graphs that carry the same edges. -/
theorem Graph.Carries.same {g g₁ g₂ : Graph} {s : Species} {edges edges' : List (Identity × Identity)}
    (h₁ : g.Carries s edges g₁) (h₂ : g.Carries s edges' g₂) (hmem : ∀ e, e ∈ edges ↔ e ∈ edges')
    (t : Species) (i : Identity) : g₁.parent? t i = g₂.parent? t i := by
  by_cases ht : t = s
  · subst ht
    refine Option.ext fun p => ?_
    rw [h₁.edge, h₂.edge, hmem]
  · rw [h₁.elsewhere t ht, h₂.elsewhere t ht]

/-! ## The law -/

/-- Take a graph without edges in one species that has parents. A list of edges is taken there, one
after the other, exactly if both ends of each are known, no child has two parents, and there is no
circle. So it is taken in every order or in none, and whatever the order, each namespace has the
same parent in the end, and the same children in some order. -/
theorem edges_may_come_in_any_order (changes : List Change) (s : Species)
    (hs : s.hasParents = true) (hroots : ∀ i, (Graph.after changes).parent? s i = none)
    (edges : List (Identity × Identity)) :
    let g := Graph.after changes
    ((∃ g', g.addChildren s edges = .ok g') ↔ g.Compatible s edges) ∧
    ∀ edges', edges'.Perm edges →
      ((∃ g', g.addChildren s edges' = .ok g') ↔ ∃ g', g.addChildren s edges = .ok g') ∧
      ∀ g₁ g₂, g.addChildren s edges = .ok g₁ → g.addChildren s edges' = .ok g₂ →
        ∀ t i, g₁.record? t i = g₂.record? t i ∧ g₁.parent? t i = g₂.parent? t i ∧
          (g₁.children t i).Perm (g₂.children t i) := by
  intro g
  have hg : Forest g := Forest.after changes
  refine ⟨Graph.addChildren_ok_iff hg hroots hs, fun edges' hperm => ⟨?_, ?_⟩⟩
  · rw [Graph.addChildren_ok_iff hg hroots hs, Graph.addChildren_ok_iff hg hroots hs]
    exact ⟨fun h => h.of_subset hperm.symm.subset, fun h => h.of_subset hperm.subset⟩
  · intro g₁ g₂ hok₁ hok₂ t i
    have h₁ := Graph.carries_of_addChildren hg hroots edges g₁ hok₁
    have h₂ := Graph.carries_of_addChildren hg hroots edges' g₂ hok₂
    have hsame : ∀ i, g₁.parent? t i = g₂.parent? t i :=
      h₁.same h₂ (fun e => (hperm.mem_iff).symm) t
    exact ⟨(h₁.record t i).trans (h₂.record t i).symm, hsame i,
      h₁.forest.perm_children h₂.forest hsame i⟩

/-- Three edges, one of them given twice, in two orders. The children of the root come out in two
orders, and an edge that leads back to the root is refused wherever it comes. -/
theorem a_tree_grows_in_either_order :
    let g := Graph.after [.insertNew .pid ⟨4, 1⟩ .empty, .insertNew .pid ⟨4, 2⟩ .empty,
      .insertNew .pid ⟨4, 3⟩ .empty, .insertNew .pid ⟨4, 4⟩ .empty]
    let edges : List (Identity × Identity) :=
      [(⟨4, 1⟩, ⟨4, 2⟩), (⟨4, 2⟩, ⟨4, 3⟩), (⟨4, 1⟩, ⟨4, 2⟩), (⟨4, 1⟩, ⟨4, 4⟩)]
    let back : Identity × Identity := (⟨4, 3⟩, ⟨4, 1⟩)
    (∀ i, g.parent? .pid i = none) ∧
    (∃ g₁ g₂, g.addChildren .pid edges = .ok g₁ ∧ g.addChildren .pid edges.reverse = .ok g₂ ∧
      g₁.children .pid ⟨4, 1⟩ = [⟨4, 2⟩, ⟨4, 4⟩] ∧ g₂.children .pid ⟨4, 1⟩ = [⟨4, 4⟩, ⟨4, 2⟩] ∧
      ∀ i, g₁.parent? .pid i = g₂.parent? .pid i) ∧
    ∀ edges', edges'.Perm (edges ++ [back]) → ¬ ∃ g', g.addChildren .pid edges' = .ok g' := by
  intro g edges back
  have hroots : ∀ i, g.parent? .pid i = none := by
    intro i
    simp only [g, Graph.after, List.foldl_cons, List.foldl_nil, Graph.apply, Graph.parent?_insertNew]
    simp [Graph.parent?]
  have hlaw := edges_may_come_in_any_order _ .pid rfl hroots
  have hrun : ∀ l children, (g.addChildren .pid l).map (·.children .pid ⟨4, 1⟩) = .ok children →
      ∃ g', g.addChildren .pid l = .ok g' ∧ g'.children .pid ⟨4, 1⟩ = children := by
    intro l children h
    cases hok : g.addChildren .pid l with
    | error _ =>
      rw [hok] at h
      cases h
    | ok g' =>
      rw [hok] at h
      exact ⟨g', rfl, Except.ok.inj h⟩
  obtain ⟨g₁, hok₁, hchildren₁⟩ := hrun edges [⟨4, 2⟩, ⟨4, 4⟩] (by decide +kernel)
  obtain ⟨g₂, hok₂, hchildren₂⟩ := hrun edges.reverse [⟨4, 4⟩, ⟨4, 2⟩] (by decide +kernel)
  refine ⟨hroots, ⟨g₁, g₂, hok₁, hok₂, hchildren₁, hchildren₂, fun i => ?_⟩, fun edges' hperm => ?_⟩
  · exact (((hlaw edges).2 _ (List.reverse_perm edges)).2 g₁ g₂ hok₁ hok₂ .pid i).2.1
  · rw [((hlaw (edges ++ [back])).2 edges' hperm).1]
    rintro ⟨g', hok⟩
    have hrefused : (g.addChildren .pid (edges ++ [back])).map (·.children .pid ⟨4, 1⟩) =
        .error (.contract (.cycle .pid ⟨4, 1⟩ ⟨4, 3⟩)) := by decide +kernel
    rw [hok] at hrefused
    cases hrefused

end NamespaceAtlas
