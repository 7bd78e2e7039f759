-- What a survey is like on the way up a hierarchy: every namespace that was
-- asked for its parent has the one that the kernel reports, with all that are
-- above it, and no other namespace has any. One step up keeps this.
import NamespaceAtlas.Discovery.Ascent
import NamespaceAtlas.Proofs.Graph.Ancestors
import NamespaceAtlas.Proofs.Discovery.Reports

namespace NamespaceAtlas

/-- The namespaces of a species that `g` has and `g₀` has not. -/
def Graph.newcomers (g₀ g : Graph) (s : Species) : List Identity :=
  (g.ids s).filter fun id => !g₀.contains s id

/-- The survey with another graph and another number of hidden namespaces. -/
def Survey.withWay (v : Survey) (g : Graph) (hidden : Nat) : Survey :=
  { v with graph := g, diagnostics := { v.diagnostics with hidden } }

/-- `w` comes from `v` by ways up. The namespaces of `asked` were asked for their parents, and
`next` is to be asked now, if there is one. -/
structure Climbed (L : Lineage) (s : Species) (v : Survey) (asked : Identity → Prop)
    (next : Option Identity) (w : Survey) : Prop where
  rest : ∃ g hidden, w = v.withWay g hidden
  others : ∀ t, t ≠ s → w.graph.ofSpecies t = v.graph.ofSpecies t
  parent_asked : ∀ id, asked id → w.graph.parent? s id = L.up id
  parent_other : ∀ id, ¬ asked id → w.graph.parent? s id = none
  closed : ∀ id p, asked id → L.up id = some p → asked p ∨ next = some p
  known : ∀ id, w.graph.contains s id = true ↔
    v.graph.contains s id = true ∨ asked id ∨ next = some id
  record : ∀ id, w.graph.contains s id = true → w.graph.record? s id =
    some ((v.graph.record? s id).getD (Namespace.new s id .empty).record)
  creator_asked : ∀ id, asked id → w.graph.creator? s id =
    (L.creatorOf s id).or (v.graph.creator? s id)
  creator_other : ∀ id, ¬ asked id → w.graph.creator? s id = v.graph.creator? s id
  hidden : w.diagnostics.hidden =
    v.diagnostics.hidden + (v.graph.newcomers w.graph s).length

/-! ## Counting newcomers -/

namespace Graph

variable {g₀ g g' : Graph} {s : Species} {p : Identity}

theorem length_newcomers_congr (h : ∀ id, g'.contains s id = g.contains s id) :
    (g₀.newcomers g' s).length = (g₀.newcomers g s).length := by
  have hperm : (g'.ids s).Perm (g.ids s) := by
    rw [List.perm_ext_iff_of_nodup (nodup_ids g' s) (nodup_ids g s)]
    intro id
    rw [mem_ids_iff, mem_ids_iff, h]
  exact (hperm.filter _).length_eq

theorem length_newcomers_succ (hg : g.contains s p = false) (hg₀ : g₀.contains s p = false)
    (h : ∀ id, g'.contains s id = true ↔ p = id ∨ g.contains s id = true) :
    (g₀.newcomers g' s).length = (g₀.newcomers g s).length + 1 := by
  have hnot : p ∉ g.ids s := by simp [mem_ids_iff, hg]
  have hperm : (g'.ids s).Perm (p :: g.ids s) := by
    rw [List.perm_ext_iff_of_nodup (nodup_ids g' s)
      (List.nodup_cons.2 ⟨hnot, nodup_ids g s⟩)]
    intro id
    rw [mem_ids_iff, h, List.mem_cons, mem_ids_iff, eq_comm]
  unfold newcomers
  rw [(hperm.filter _).length_eq, List.filter_cons_of_pos (by simp [hg₀]), List.length_cons]

theorem newcomers_self (g : Graph) (s : Species) : g.newcomers g s = [] := by
  unfold newcomers
  rw [List.filter_eq_nil_iff]
  intro id hid
  simp [mem_ids_iff.1 hid]

end Graph

/-! ## The changes of one step -/

namespace Survey

variable (v : Survey) {s t : Species} {i j p : Identity}

/-- The survey with the creator that the kernel reports, if it reports one. -/
def withCreator (v : Survey) (id : Identity) : Option UInt32 → Survey
  | none => v
  | some uid => v.createdBy id uid

/-- The survey with the parent that the kernel reports, if it reports one. -/
def withParent (v : Survey) (s : Species) (child : Identity) : Option Identity → Survey
  | none => v
  | some parent => (v.metParent s parent).mapGraph fun g => g.link s parent child

theorem withCreator_eq (uid : Option UInt32) :
    ∃ g hidden, v.withCreator i uid = v.withWay g hidden := by
  cases uid with
  | none => exact ⟨_, _, rfl⟩
  | some uid => exact ⟨_, _, rfl⟩

theorem withParent_eq (up : Option Identity) :
    ∃ g hidden, v.withParent s i up = v.withWay g hidden := by
  cases up with
  | none => exact ⟨_, _, rfl⟩
  | some p =>
    simp only [withParent, metParent]
    split
    · exact ⟨_, _, rfl⟩
    · exact ⟨_, _, rfl⟩

theorem graph_metParent :
    (v.metParent s p).graph = v.graph.insertNew s p .empty := by
  unfold metParent
  split
  · rename_i h
    exact (Graph.insertNew_eq_self h _).symm
  · rfl

theorem parent?_withCreator (uid : Option UInt32) :
    (v.withCreator i uid).graph.parent? t j = v.graph.parent? t j := by
  cases uid with
  | none => rfl
  | some uid => exact (Graph.samePlaces_modify (by simp)).parent? t j

theorem record?_withCreator (uid : Option UInt32) :
    (v.withCreator i uid).graph.record? t j = v.graph.record? t j := by
  cases uid with
  | none => rfl
  | some uid => exact Graph.record?_modify (by simp)

theorem contains_withCreator (uid : Option UInt32) :
    (v.withCreator i uid).graph.contains t j = v.graph.contains t j := by
  rw [Graph.contains_eq_record, Graph.contains_eq_record, record?_withCreator]

theorem hierarchy?_withCreator (uid : Option UInt32) :
    (v.withCreator i uid).graph.hierarchy? t j = v.graph.hierarchy? t j := by
  cases uid with
  | none => rfl
  | some uid => exact (Graph.samePlaces_modify (by simp)).hierarchy? t j

theorem creator?_withCreator {L : Lineage} {n : Namespace} (hn : v.graph.get? s i = some n)
    (hfits : n.kind.fits s = true) :
    (v.withCreator i (L.creatorOf s i)).graph.creator? s j =
      if i = j then (L.creatorOf s i).or (v.graph.creator? s j) else v.graph.creator? s j := by
  unfold Lineage.creatorOf
  by_cases hs : s = .user
  · subst hs
    rw [if_pos rfl]
    cases L.creator i with
    | none => simp [withCreator]
    | some uid => exact Graph.creator?_setCreator uid hn hfits
  · simp [hs, withCreator]

theorem ofSpecies_withCreator_of_ne {L : Lineage} (h : t ≠ s) :
    (v.withCreator i (L.creatorOf s i)).graph.ofSpecies t = v.graph.ofSpecies t := by
  unfold Lineage.creatorOf
  by_cases hs : s = .user
  · subst hs
    rw [if_pos rfl]
    cases L.creator i with
    | none => rfl
    | some uid => exact Graph.ofSpecies_modify_of_ne _ _ _ h
  · rw [if_neg hs]
    rfl

variable (up : Option Identity)

theorem ofSpecies_withParent_of_ne (h : t ≠ s) :
    (v.withParent s i up).graph.ofSpecies t = v.graph.ofSpecies t := by
  cases up with
  | none => rfl
  | some p =>
    unfold withParent mapGraph Graph.link
    rw [Graph.ofSpecies_modify_of_ne _ _ _ h, Graph.ofSpecies_modify_of_ne _ _ _ h,
      graph_metParent, Graph.ofSpecies_insertNew_of_ne _ _ _ h]

theorem hierarchy?_metParent (hi : (v.graph.hierarchy? s i).isSome) :
    (v.metParent s p).graph.hierarchy? s i = v.graph.hierarchy? s i := by
  have hknown := Graph.contains_of_hierarchy hi
  rw [graph_metParent, Graph.hierarchy?_insertNew]
  simp [hknown]

theorem parent?_withParent (hi : (v.graph.hierarchy? s i).isSome)
    (hroot : v.graph.parent? s i = none) :
    (v.withParent s i up).graph.parent? s j = if i = j then up else v.graph.parent? s j := by
  cases up with
  | none =>
    change v.graph.parent? s j = _
    split
    · rename_i hij
      rw [← hij, hroot]
    · rfl
  | some p =>
    unfold withParent mapGraph
    rw [Graph.parent?_link (by rw [v.hierarchy?_metParent hi]; exact hi), graph_metParent,
      Graph.parent?_insertNew]
    simp

theorem contains_withParent :
    (v.withParent s i up).graph.contains s j = true ↔
      up = some j ∨ v.graph.contains s j = true := by
  cases up with
  | none => simp [withParent]
  | some p =>
    unfold withParent mapGraph
    rw [Graph.contains_link, graph_metParent, Graph.contains_insertNew]
    simp

theorem record?_withParent :
    (v.withParent s i up).graph.record? s j =
      if up = some j then some ((v.graph.record? s j).getD (Namespace.new s j .empty).record)
      else v.graph.record? s j := by
  cases up with
  | none => simp [withParent]
  | some p =>
    unfold withParent mapGraph
    rw [Graph.record?_link, graph_metParent, Graph.record?_insertNew]
    by_cases hpj : p = j
    · simp [hpj]
    · simp [hpj]

theorem creator?_withParent :
    (v.withParent s i up).graph.creator? t j = v.graph.creator? t j := by
  cases up with
  | none => rfl
  | some p =>
    unfold withParent mapGraph
    rw [Graph.creator?_link, graph_metParent, Graph.creator?_insertNew]

/-- The account of hidden namespaces keeps up with the newcomers. -/
theorem hidden_withParent {g₀ : Graph}
    (hsub : ∀ id, g₀.contains s id = true → v.graph.contains s id = true) :
    (v.withParent s i up).diagnostics.hidden + (g₀.newcomers v.graph s).length =
      v.diagnostics.hidden + (g₀.newcomers (v.withParent s i up).graph s).length := by
  cases up with
  | none => rfl
  | some p =>
    have hcontains := fun j => v.contains_withParent (some p) (s := s) (i := i) (j := j)
    by_cases hp : v.graph.contains s p = true
    · have hsame : ∀ j, (v.withParent s i (some p)).graph.contains s j =
          v.graph.contains s j := by
        intro j
        rw [Bool.eq_iff_iff, hcontains]
        refine or_iff_right_of_imp fun hpj => ?_
        cases hpj
        exact hp
      rw [Graph.length_newcomers_congr hsame]
      simp [withParent, mapGraph, metParent, hp]
    · have hp₀ : ¬ g₀.contains s p = true := fun h => hp (hsub p h)
      have hmore : ∀ j, (v.withParent s i (some p)).graph.contains s j = true ↔
          p = j ∨ v.graph.contains s j = true := by simp [hcontains]
      rw [Graph.length_newcomers_succ (Bool.eq_false_iff.2 hp) (Bool.eq_false_iff.2 hp₀) hmore]
      simp [withParent, mapGraph, metParent, hp]
      omega

/-! ### Creator and parent together -/

/-- The survey after one step up, with what the kernel reports of the namespace. -/
def stepped (v : Survey) (L : Lineage) (s : Species) (i : Identity) : Survey :=
  (v.withCreator i (L.creatorOf s i)).withParent s i (L.up i)

variable (L : Lineage)

theorem stepped_eq : ∃ g hidden, v.stepped L s i = v.withWay g hidden := by
  obtain ⟨g, hidden, hg⟩ := v.withCreator_eq (i := i) (L.creatorOf s i)
  obtain ⟨g', hidden', hg'⟩ :=
    (v.withCreator i (L.creatorOf s i)).withParent_eq (s := s) (i := i) (L.up i)
  refine ⟨g', hidden', ?_⟩
  unfold stepped
  rw [hg', hg]
  rfl

theorem ofSpecies_stepped_of_ne (h : t ≠ s) :
    (v.stepped L s i).graph.ofSpecies t = v.graph.ofSpecies t := by
  unfold stepped
  rw [ofSpecies_withParent_of_ne _ _ h, ofSpecies_withCreator_of_ne _ h]

theorem parent?_stepped (hi : (v.graph.hierarchy? s i).isSome)
    (hroot : v.graph.parent? s i = none) :
    (v.stepped L s i).graph.parent? s j = if i = j then L.up i else v.graph.parent? s j := by
  unfold stepped
  rw [parent?_withParent, parent?_withCreator]
  · rwa [hierarchy?_withCreator]
  · rwa [parent?_withCreator]

theorem contains_stepped : (v.stepped L s i).graph.contains s j = true ↔
    L.up i = some j ∨ v.graph.contains s j = true := by
  unfold stepped
  rw [contains_withParent, contains_withCreator]

theorem record?_stepped : (v.stepped L s i).graph.record? s j =
    if L.up i = some j then some ((v.graph.record? s j).getD (Namespace.new s j .empty).record)
    else v.graph.record? s j := by
  unfold stepped
  rw [record?_withParent, record?_withCreator]

theorem creator?_stepped {n : Namespace} (hn : v.graph.get? s i = some n)
    (hfits : n.kind.fits s = true) : (v.stepped L s i).graph.creator? s j =
      if i = j then (L.creatorOf s i).or (v.graph.creator? s j) else v.graph.creator? s j := by
  unfold stepped
  rw [creator?_withParent, creator?_withCreator _ hn hfits]

theorem hidden_stepped {g₀ : Graph}
    (hsub : ∀ id, g₀.contains s id = true → v.graph.contains s id = true) :
    (v.stepped L s i).diagnostics.hidden + (g₀.newcomers v.graph s).length =
      v.diagnostics.hidden + (g₀.newcomers (v.stepped L s i).graph s).length := by
  have hcontains : ∀ id, (v.withCreator i (L.creatorOf s i)).graph.contains s id =
      v.graph.contains s id := fun id => v.contains_withCreator _
  have hhidden : (v.withCreator i (L.creatorOf s i)).diagnostics.hidden =
      v.diagnostics.hidden := by
    cases L.creatorOf s i with
    | none => rfl
    | some _ => rfl
  have hbalance := hidden_withParent (v.withCreator i (L.creatorOf s i)) (L.up i) (i := i)
    fun id hid => (hcontains id).trans (hsub id hid)
  rwa [Graph.length_newcomers_congr hcontains, hhidden] at hbalance

end Survey

/-! ## The invariant -/

namespace Climbed

variable {L : Lineage} {s : Species} {v w : Survey} {asked asked' : Identity → Prop}
  {next : Option Identity} {i p : Identity}

/-- Before any way up. -/
theorem start (h : ∀ id, v.graph.parent? s id = none) :
    Climbed L s v (fun _ => False) none v where
  rest := ⟨_, _, rfl⟩
  others _ _ := rfl
  parent_asked _ h := h.elim
  parent_other id _ := h id
  closed _ _ h := h.elim
  known id := by simp
  record id hid := by
    obtain ⟨n, hn⟩ := Graph.contains_iff.1 hid
    rw [Graph.record?_of_get? hn, Option.getD_some]
  creator_asked _ h := h.elim
  creator_other _ _ := rfl
  hidden := by rw [Graph.newcomers_self, List.length_nil, Nat.add_zero]

theorem congr (h : Climbed L s v asked next w) (hiff : ∀ id, asked id ↔ asked' id) :
    Climbed L s v asked' next w := by
  rwa [show asked' = asked from funext fun id => propext (hiff id).symm]

/-- A namespace that was asked need not be asked again. -/
theorem done (h : Climbed L s v asked next w) (hp : ∀ p, next = some p → asked p) :
    Climbed L s v asked none w where
  rest := h.rest
  others := h.others
  parent_asked := h.parent_asked
  parent_other := h.parent_other
  closed id q hid hq := by
    rcases h.closed id q hid hq with hq | hq
    · exact Or.inl hq
    · exact Or.inl (hp q hq)
  known id := by
    rw [h.known]
    constructor
    · rintro (hid | hid | hid)
      · exact Or.inl hid
      · exact Or.inr (Or.inl hid)
      · exact Or.inr (Or.inl (hp id hid))
    · rintro (hid | hid | hid)
      · exact Or.inl hid
      · exact Or.inr (Or.inl hid)
      · cases hid
  record := h.record
  creator_asked := h.creator_asked
  creator_other := h.creator_other
  hidden := h.hidden

/-- A known namespace may be asked next. -/
theorem ask (h : Climbed L s v asked none w) (hi : v.graph.contains s i = true) :
    Climbed L s v asked (some i) w where
  rest := h.rest
  others := h.others
  parent_asked := h.parent_asked
  parent_other := h.parent_other
  closed id q hid hq := by
    rcases h.closed id q hid hq with hq | hq
    · exact Or.inl hq
    · cases hq
  known id := by
    rw [h.known]
    constructor
    · rintro (hid | hid | hid)
      · exact Or.inl hid
      · exact Or.inr (Or.inl hid)
      · cases hid
    · rintro (hid | hid | hid)
      · exact Or.inl hid
      · exact Or.inr (Or.inl hid)
      · cases hid
        exact Or.inl hi
  record := h.record
  creator_asked := h.creator_asked
  creator_other := h.creator_other
  hidden := h.hidden

/-- All that stands above a namespace that was asked was asked too. -/
theorem asked_of_above (h : Climbed L s v asked none w) (hi : asked i) (hp : Above L.up i p) :
    asked p := by
  induction hp with
  | single hp =>
    rcases h.closed _ _ hi hp with hp | hp
    · exact hp
    · cases hp
  | tail _ hp ih =>
    rcases h.closed _ _ ih hp with hp | hp
    · exact hp
    · cases hp

theorem asked_of_parent (h : Climbed L s v asked next w) (hp : w.graph.parent? s i = some p) :
    asked i := by
  apply Classical.byContradiction
  intro hi
  rw [h.parent_other i hi] at hp
  cases hp

/-- The parents that are recorded are those that the kernel reports. -/
theorem up_of_parent (h : Climbed L s v asked next w) (hp : w.graph.parent? s i = some p) :
    L.up i = some p := by
  rw [← h.parent_asked i (h.asked_of_parent hp), hp]

theorem contains_next (h : Climbed L s v asked (some i) w) : w.graph.contains s i = true :=
  (h.known i).2 (Or.inr (Or.inr rfl))

/-- Namespaces keep the kind of their species. -/
theorem fits (h : Climbed L s v asked next w)
    (hv : ∀ id n, v.graph.get? s id = some n → n.kind.fits s = true) {n : Namespace}
    (hn : w.graph.get? s i = some n) : n.kind.fits s = true := by
  have hrecord := h.record i (Graph.contains_iff.2 ⟨n, hn⟩)
  rw [Graph.record?_of_get? hn, Option.some.injEq] at hrecord
  change n.record.fits s = true
  rw [hrecord]
  cases hi : v.graph.get? s i with
  | none =>
    unfold Graph.record?
    rw [hi]
    exact Kind.fits_ofSpecies s
  | some m =>
    rw [Graph.record?_of_get? hi]
    exact hv i m hi

theorem reference_eq (h : Climbed L s v asked next w) {n₀ n : Namespace}
    (hn₀ : v.graph.get? s i = some n₀) (hn : w.graph.get? s i = some n) :
    n.reference = n₀.reference := by
  have hrecord := h.record i (Graph.contains_iff.2 ⟨n, hn⟩)
  rw [Graph.record?_of_get? hn, Graph.record?_of_get? hn₀, Option.getD_some,
    Option.some.injEq] at hrecord
  exact congrArg Record.reference hrecord

theorem isSome_hierarchy (h : Climbed L s v asked next w) (hs : s.hasParents = true)
    (hv : ∀ id n, v.graph.get? s id = some n → n.kind.fits s = true)
    (hi : w.graph.contains s i = true) : (w.graph.hierarchy? s i).isSome := by
  obtain ⟨n, hn⟩ := Graph.contains_iff.1 hi
  rw [Graph.hierarchy?_of_get? hn, Kind.isSome_hierarchy_of_fits (h.fits hv hn), hs]

/-- The record of a namespace stays as it was, or is that of a new one. -/
theorem record_stepped (h : Climbed L s v asked next w) {j : Identity}
    (hj : (w.stepped L s i).graph.contains s j = true) :
    (w.stepped L s i).graph.record? s j =
      some ((v.graph.record? s j).getD (Namespace.new s j .empty).record) := by
  rw [Survey.contains_stepped] at hj
  rw [Survey.record?_stepped]
  split
  · cases hw : w.graph.contains s j with
    | true => rw [h.record j hw, Option.getD_some]
    | false =>
      have hv : v.graph.contains s j = false := by
        rw [Bool.eq_false_iff] at hw ⊢
        exact fun hv => hw ((h.known j).2 (Or.inl hv))
      rw [Graph.contains_eq_record, Option.isSome_eq_false_iff,
        Option.isNone_iff_eq_none] at hw hv
      rw [hw, hv]
  · rename_i hne
    exact h.record j (hj.resolve_left hne)

/-- One step up: the next namespace is asked, and its parent is the one to ask then. -/
theorem step (h : Climbed L s v asked (some i) w) (hs : s.hasParents = true)
    (hv : ∀ id n, v.graph.get? s id = some n → n.kind.fits s = true)
    (hroot : w.graph.parent? s i = none) :
    Climbed L s v (fun j => asked j ∨ j = i) (L.up i) (w.stepped L s i) := by
  obtain ⟨n, hn⟩ := Graph.contains_iff.1 h.contains_next
  have hfits := h.fits hv hn
  have hi := h.isSome_hierarchy hs hv h.contains_next
  constructor
  · obtain ⟨g, hidden, hg⟩ := h.rest
    obtain ⟨g', hidden', hg'⟩ := w.stepped_eq (s := s) (i := i) L
    refine ⟨g', hidden', ?_⟩
    rw [hg', hg]
    rfl
  · intro t ht
    rw [Survey.ofSpecies_stepped_of_ne _ _ ht, h.others t ht]
  · intro j hj
    rw [Survey.parent?_stepped _ _ hi hroot]
    split
    · rename_i hij
      rw [hij]
    · rename_i hij
      exact h.parent_asked j (hj.resolve_right (Ne.symm hij))
  · intro j hj
    rw [Survey.parent?_stepped _ _ hi hroot, if_neg fun hij => hj (Or.inr hij.symm)]
    exact h.parent_other j fun h => hj (Or.inl h)
  · rintro j p (hj | rfl) hp
    · rcases h.closed j p hj hp with hp | hp
      · exact Or.inl (Or.inl hp)
      · cases hp
        exact Or.inl (Or.inr rfl)
    · exact Or.inr hp
  · intro j
    rw [Survey.contains_stepped, h.known, Option.some.injEq, eq_comm (a := i)]
    tauto
  · intro j hj
    exact h.record_stepped hj
  · intro j hj
    rw [Survey.creator?_stepped _ _ hn hfits]
    split
    · rename_i hij
      subst hij
      by_cases hi : asked i
      · rw [h.creator_asked i hi]
        cases L.creatorOf s i with
        | none => rfl
        | some _ => rfl
      · rw [h.creator_other i hi]
    · rename_i hij
      exact h.creator_asked j (hj.resolve_right (Ne.symm hij))
  · intro j hj
    rw [Survey.creator?_stepped _ _ hn hfits, if_neg fun hij => hj (Or.inr hij.symm)]
    exact h.creator_other j fun h => hj (Or.inl h)
  · have hbalance := w.hidden_stepped L (i := i) fun id hid => (h.known id).2 (Or.inl hid)
    have hbefore := h.hidden
    omega

/-! ### At the end of all ways -/

theorem parentsKnown (h : Climbed L s v asked next w) : w.graph.ParentsKnown s := by
  intro i p hp
  have hi := h.asked_of_parent hp
  rw [h.parent_asked i hi] at hp
  rw [h.known]
  exact Or.inr (h.closed i p hi hp)

/-- The ancestors of a namespace that was asked are the whole way up that the kernel reports. -/
theorem way_ancestors (h : Climbed L s v asked none w) (hi : asked i) {l : List Identity}
    (hl : Way L.up i l) : Way L.up i (w.graph.ancestors s i) := by
  have hway : Way (w.graph.parent? s) i l := by
    refine hl.congr fun j hj => ?_
    rcases List.mem_cons.1 hj with rfl | hj
    · exact h.parent_asked j hi
    · exact h.parent_asked j (h.asked_of_above hi (hl.mem_iff.1 hj))
  rw [h.parentsKnown.ancestors_eq hway]
  exact hl

/-- Of a namespace that was not known before nothing is known but its relatives. -/
theorem newcomer (h : Climbed L s v asked next w) {n : Namespace}
    (hn : w.graph.get? s i = some n) (hi : v.graph.contains s i = false) :
    n.record = (Namespace.new s i .empty).record := by
  have hrecord := h.record i (Graph.contains_iff.2 ⟨n, hn⟩)
  rw [Graph.contains_eq_record, Option.isSome_eq_false_iff, Option.isNone_iff_eq_none] at hi
  rw [Graph.record?_of_get? hn, hi, Option.getD_none, Option.some.injEq] at hrecord
  exact hrecord

end Climbed

end NamespaceAtlas
