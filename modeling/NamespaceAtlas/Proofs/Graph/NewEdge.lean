-- One more edge. What a graph says of a parent and a child settles whether the
-- one is linked with the other. A refusal says what stands against the edge and
-- changes nothing. A new edge makes all ways longer that came to the child, and
-- touches nothing but the two records of itself.
import NamespaceAtlas.Proofs.Graph.Forest

namespace NamespaceAtlas

/-! ## What an edge writes -/

/-- Changes that agree on the relatives there are change a kind in the same way. -/
theorem Kind.mapHierarchy_congr {k : Kind} {f f' : Hierarchy → Hierarchy}
    (h : ∀ x, k.hierarchy? = some x → f x = f' x) : k.mapHierarchy f = k.mapHierarchy f' := by
  cases k with
  | plain => rfl
  | hierarchical x => exact congrArg hierarchical (h x rfl)
  | user u => exact congrArg (fun x => user { u with hierarchy := x }) (h _ rfl)

theorem Kind.mapHierarchy_id (k : Kind) : k.mapHierarchy (fun x => x) = k := by
  cases k <;> rfl

/-- A namespace with a change of its relatives. -/
def Namespace.mapRelatives (f : Hierarchy → Hierarchy) (n : Namespace) : Namespace :=
  { n with kind := n.kind.mapHierarchy f }

/-- What is left of an edge with a namespace: the parent with the child, and the child, as the
last one, with the parent. -/
def Hierarchy.withEdge (parent child id : Identity) (h : Hierarchy) : Hierarchy where
  parent := if id = child then some parent else h.parent
  children := if id = parent then h.children ++ [child] else h.children

namespace Graph

variable {g g' : Graph} {s t : Species} {i p c x : Identity} {r : Except Error Graph}

/-- A new edge is written down at its two ends, and nothing else is. -/
theorem get?_link (hne : p ≠ c) (hnew : c ∉ g.children s p) : (g.link s p c).get? t i =
    if t = s then (g.get? t i).map (·.mapRelatives (.withEdge p c i)) else g.get? t i := by
  unfold link
  rw [get?_modify, get?_modify]
  by_cases ht : t = s
  swap
  · simp [ht, Ne.symm ht]
  subst ht
  rw [if_pos rfl]
  cases hn : g.get? t i with
  | none => simp
  | some n =>
    unfold Namespace.mapRelatives
    -- The two ends are different, so each is written to by one of the two changes.
    by_cases hc : c = i
    · subst hc
      simp only [hne, and_false, and_self, if_true, if_false, Option.map_some]
      refine congrArg (fun k => some { n with kind := k }) (Kind.mapHierarchy_congr fun h _ => ?_)
      simp [Hierarchy.withEdge, hne.symm]
    by_cases hp : p = i
    · subst hp
      simp only [hc, and_false, and_self, if_true, if_false, Option.map_some]
      refine congrArg (fun k => some { n with kind := k }) (Kind.mapHierarchy_congr fun h hh => ?_)
      have hchildren : c ∉ h.children := by
        rwa [children, hierarchy?_of_get? hn, hh] at hnew
      simp [Hierarchy.withEdge, hne, hchildren]
    · simp only [hc, hp, and_false, if_false, Option.map_some]
      have hsame : Hierarchy.withEdge p c i = fun h => h := by
        funext h
        simp [Hierarchy.withEdge, Ne.symm hc, Ne.symm hp]
      rw [hsame, Kind.mapHierarchy_id]

/-! ## What comes of an edge -/

/-- Two namespaces that an edge may join: different ones that are known, of a species with
parents. -/
def Joinable (g : Graph) (s : Species) (parent child : Identity) : Prop :=
  parent ≠ child ∧ g.contains s parent = true ∧ g.contains s child = true ∧ s.hasParents = true

/-- What comes of linking a child with a parent, and when. -/
inductive EdgeOutcome (g : Graph) (s : Species) (p c : Identity) : Except Error Graph → Prop
  /-- The two cannot be joined. -/
  | unfit (why : NamespaceFault) : ¬ g.Joinable s p c →
      EdgeOutcome g s p c (.error (.namespaces why))
  /-- The child has another parent. -/
  | second (existing : Identity) : g.Joinable s p c → g.parent? s c = some existing →
      existing ≠ p → EdgeOutcome g s p c (.error (.reparent s c existing p))
  /-- The child stands above the parent. -/
  | circle : g.Joinable s p c → g.parent? s c = none → c ∈ g.ancestors s p →
      EdgeOutcome g s p c (.error (.contract (.cycle s c p)))
  /-- The edge is there. -/
  | present : g.Joinable s p c → g.parent? s c = some p → EdgeOutcome g s p c (.ok g)
  /-- The edge is new. -/
  | new : g.Joinable s p c → g.parent? s c = none → c ∉ g.ancestors s p →
      EdgeOutcome g s p c (.ok (g.link s p c))

namespace EdgeOutcome

/-- An edge is taken if it can be there. That the child then does not stand above its parent is
left to the graph. -/
theorem ok_iff (h : g.EdgeOutcome s p c r) (hup : g.parent? s c = some p → c ∉ g.ancestors s p) :
    (∃ g', r = .ok g') ↔ g.Joinable s p c ∧ (g.parent? s c = none ∨ g.parent? s c = some p) ∧
      c ∉ g.ancestors s p := by
  cases h with
  | unfit why hunfit => simp [hunfit]
  | second existing _ hparent hne => simp [hparent, hne]
  | circle _ _ hin => simp [hin]
  | present hjoin hparent => simp [hjoin, hparent, hup hparent]
  | new hjoin hroot hout => simp [hjoin, hroot, hout]

/-- What an edge says that would give a second parent. -/
theorem reparent_iff (h : g.EdgeOutcome s p c r) (existing : Identity) :
    r = .error (.reparent s c existing p) ↔
      g.Joinable s p c ∧ g.parent? s c = some existing ∧ existing ≠ p := by
  cases h with
  | unfit why hunfit => simp [hunfit]
  | second other hjoin hparent hne =>
    simp only [Except.error.injEq, Error.reparent.injEq, true_and, and_true, hjoin, hparent,
      Option.some.injEq]
    constructor
    · rintro rfl
      exact ⟨rfl, hne⟩
    · exact And.left
  | circle _ hroot _ => simp [hroot]
  | present _ hparent =>
    simp only [hparent, Option.some.injEq, reduceCtorEq, false_iff]
    rintro ⟨_, rfl, hne⟩
    exact hne rfl
  | new _ hroot _ => simp [hroot]

/-- What an edge says that would close a circle. -/
theorem cycle_iff (h : g.EdgeOutcome s p c r) :
    r = .error (.contract (.cycle s c p)) ↔
      g.Joinable s p c ∧ g.parent? s c = none ∧ c ∈ g.ancestors s p := by
  cases h with
  | unfit why hunfit => simp [hunfit]
  | second existing _ hparent _ => simp [hparent]
  | circle hjoin hroot hin => simp [hjoin, hroot, hin]
  | present _ hparent => simp [hparent]
  | new _ _ hout => simp [hout]

/-- There are no other refusals. -/
theorem of_error (h : g.EdgeOutcome s p c r) {e : Error} (he : r = .error e) :
    (∃ existing, e = .reparent s c existing p) ∨ e = .contract (.cycle s c p) ∨
      ∃ why, e = .namespaces why := by
  subst he
  cases h with
  | unfit why _ => exact Or.inr (Or.inr ⟨why, rfl⟩)
  | second existing _ _ _ => exact Or.inl ⟨existing, rfl⟩
  | circle _ _ _ => exact Or.inr (Or.inl rfl)

end EdgeOutcome

end Graph

namespace Forest

variable {g g' : Graph} {s t : Species} {i p c x : Identity}

theorem edgeOutcome (h : Forest g) (s : Species) (p c : Identity) :
    g.EdgeOutcome s p c (g.addChild s p c) := by
  unfold Graph.addChild
  split
  · rename_i heq
    exact .unfit _ fun hjoin => hjoin.1 heq
  rename_i hne
  split
  · rename_i hunknown
    exact .unfit _ fun hjoin => by simp [hjoin.2.1] at hunknown
  rename_i hknown
  cases hh : g.hierarchy? s c with
  | none =>
    refine .unfit _ fun hjoin => ?_
    have hsome := h.isSome_hierarchy hjoin.2.2.1
    rw [hh, hjoin.2.2.2] at hsome
    cases hsome
  | some relatives =>
    have hc : g.contains s c = true := Graph.contains_of_hierarchy (by simp [hh])
    have hs : s.hasParents = true := by
      rw [← h.isSome_hierarchy hc, hh]
      rfl
    have hjoin : g.Joinable s p c := ⟨hne, by simpa using hknown, hc, hs⟩
    have hparent : g.parent? s c = relatives.parent := by rw [Graph.parent?_eq, hh, Option.bind_some]
    dsimp only
    cases hup : relatives.parent with
    | some existing =>
      rw [hup] at hparent
      dsimp only
      split
      · rename_i heq
        exact .present hjoin (heq ▸ hparent)
      · rename_i hother
        exact .second existing hjoin hparent hother
    | none =>
      rw [hup] at hparent
      dsimp only
      split
      · rename_i hin
        exact .circle hjoin hparent hin
      · rename_i hout
        exact .new hjoin hparent hout

/-- A parent does not stand below its child. -/
theorem not_mem_ancestors_parent (h : Forest g) (hp : g.parent? s c = some p) :
    c ∉ g.ancestors s p := by
  intro hin
  have habove : Above (g.parent? s) p c := (h.way_ancestors s p).mem_iff.1 hin
  exact h.acyclic s c (above_iff.2 ⟨p, hp, Or.inr habove⟩)

/-- An edge that is there is taken again, and nothing changes. -/
theorem addChild_of_parent? (h : Forest g) (hp : g.parent? s c = some p) :
    g.addChild s p c = .ok g := by
  have hknown := h.parentsKnown s c p hp
  have hne : p ≠ c := by
    rintro rfl
    exact h.acyclic s p (Above.single hp)
  rw [Graph.parent?_eq] at hp
  obtain ⟨relatives, hh, hparent⟩ := Option.bind_eq_some_iff.1 hp
  unfold Graph.addChild
  rw [if_neg hne, if_neg (by simp [hknown]), hh]
  dsimp only
  rw [hparent]
  exact if_pos rfl

/-- A new edge. -/
theorem addChild_of_root (h : Forest g) (hroot : g.parent? s c = none)
    (hok : g.addChild s p c = .ok g') :
    g.Joinable s p c ∧ c ∉ g.ancestors s p ∧ g' = g.link s p c := by
  have hout := h.edgeOutcome s p c
  rw [hok] at hout
  cases hout with
  | present _ hp =>
    rw [hroot] at hp
    cases hp
  | new hjoin _ hout => exact ⟨hjoin, hout, rfl⟩

/-! ## Ways past a new edge -/

theorem parent?_link (h : Forest g) (hjoin : g.Joinable s p c) : (g.link s p c).parent? t i =
    if s = t ∧ c = i then some p else g.parent? t i :=
  Graph.parent?_link (by rw [h.isSome_hierarchy hjoin.2.2.1, hjoin.2.2.2])

section New

variable (h : Forest g) (hjoin : g.Joinable s p c) (hroot : g.parent? s c = none)
  (hout : c ∉ g.ancestors s p)
include h hjoin hroot hout

theorem forest_link : Forest (g.link s p c) := by
  refine h.link hjoin.1 hjoin.2.1 ?_ hroot fun habove => hout ?_
  · rw [h.isSome_hierarchy hjoin.2.2.1, hjoin.2.2.2]
  · exact (h.way_ancestors s p).mem_iff.2 habove

/-- The ancestors of the child, and of all below it, now go on with the parent and its own. -/
theorem ancestors_link (hx : c ∈ x :: g.ancestors s x) :
    (g.link s p c).ancestors s x = g.ancestors s x ++ p :: g.ancestors s p := by
  have hsame : ∀ b, b ≠ c → (g.link s p c).parent? s b = g.parent? s b := by
    intro b hb
    rw [h.parent?_link hjoin, if_neg fun heq => hb heq.2.symm]
  have hup : Way ((g.link s p c).parent? s) p (g.ancestors s p) := by
    refine (h.way_ancestors s p).congr fun b hb => hsame b ?_
    rintro rfl
    rcases List.mem_cons.1 hb with heq | hin
    · exact hjoin.1 heq.symm
    · exact hout hin
  have hchild : Way ((g.link s p c).parent? s) c (p :: g.ancestors s p) := by
    refine .step ?_ hup
    rw [h.parent?_link hjoin, if_pos ⟨rfl, rfl⟩]
  have hway := (h.way_ancestors s x).extend hx hroot hsame hchild
  exact ((h.forest_link hjoin hroot hout).way_ancestors s x).unique hway

/-- All other ancestors stay as they are. -/
theorem ancestors_link_of_not_mem (hx : ¬ (t = s ∧ c ∈ x :: g.ancestors s x)) :
    (g.link s p c).ancestors t x = g.ancestors t x := by
  have hway : Way ((g.link s p c).parent? t) x (g.ancestors t x) := by
    refine (h.way_ancestors t x).congr fun b hb => ?_
    rw [h.parent?_link hjoin, if_neg]
    rintro ⟨rfl, rfl⟩
    exact hx ⟨rfl, hb⟩
  exact ((h.forest_link hjoin hroot hout).way_ancestors t x).unique hway

end New

end Forest

/-! ## The law -/

/-- In every graph that changes make: an edge is taken exactly if its two ends are different, known
and of a species with parents, the child has no other parent and does not stand above its new one.
Every refusal says what stands against the edge, and no refusal changes the graph, as no edge does
that is there. A new edge writes down the parent with the child, and the child at the end of the
children of the parent, and makes no other way up longer than those that came to the child. -/
theorem an_edge_is_made_as_a_whole_or_refused (changes : List Change) (s : Species)
    (p c : Identity) :
    let g := Graph.after changes
    ((∃ g', g.addChild s p c = .ok g') ↔
      g.Joinable s p c ∧ (g.parent? s c = none ∨ g.parent? s c = some p) ∧ c ∉ g.ancestors s p) ∧
    (∀ existing, g.addChild s p c = .error (.reparent s c existing p) ↔
      g.Joinable s p c ∧ g.parent? s c = some existing ∧ existing ≠ p) ∧
    (g.addChild s p c = .error (.contract (.cycle s c p)) ↔
      g.Joinable s p c ∧ g.parent? s c = none ∧ c ∈ g.ancestors s p) ∧
    (∀ e, g.addChild s p c = .error e →
      ((∃ existing, e = .reparent s c existing p) ∨ e = .contract (.cycle s c p) ∨
        ∃ why, e = .namespaces why) ∧
      g.apply (.addChild s p c) = g) ∧
    (g.parent? s c = some p → g.addChild s p c = .ok g) ∧
    ∀ g', g.parent? s c = none → g.addChild s p c = .ok g' →
      (∀ t i, g'.get? t i =
        if t = s then (g.get? t i).map (·.mapRelatives (.withEdge p c i)) else g.get? t i) ∧
      (∀ x, x = c ∨ c ∈ g.ancestors s x →
        g'.ancestors s x = g.ancestors s x ++ p :: g.ancestors s p) ∧
      ∀ t x, ¬ (t = s ∧ (x = c ∨ c ∈ g.ancestors s x)) → g'.ancestors t x = g.ancestors t x := by
  intro g
  have h : Forest g := Forest.after changes
  have hout := h.edgeOutcome s p c
  have hmem : ∀ x, (x = c ∨ c ∈ g.ancestors s x) ↔ c ∈ x :: g.ancestors s x := by
    intro x
    rw [List.mem_cons, eq_comm]
  refine ⟨hout.ok_iff h.not_mem_ancestors_parent, hout.reparent_iff, hout.cycle_iff,
    fun e he => ⟨hout.of_error he, ?_⟩, h.addChild_of_parent?, fun g' hroot hok => ?_⟩
  · unfold Graph.apply
    dsimp only
    rw [he]
  · obtain ⟨hjoin, habove, rfl⟩ := h.addChild_of_root hroot hok
    have hnew : c ∉ g.children s p := by
      rw [← h.linked, hroot]
      simp
    simp only [hmem]
    exact ⟨fun t i => Graph.get?_link hjoin.1 hnew,
      fun x => h.ancestors_link hjoin hroot habove,
      fun t x => h.ancestors_link_of_not_mem hjoin hroot habove⟩

end NamespaceAtlas
