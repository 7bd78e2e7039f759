-- The phase that links namespaces with their owners. It goes through the species
-- in scope, and leaves owners and holdings that agree with what was reported.
import NamespaceAtlas.Proofs.Discovery.Plan
import NamespaceAtlas.Proofs.Graph.Links

namespace NamespaceAtlas

/-! ## The phase -/

/-- The species in scope whose namespaces are to be linked with their owners. -/
def Options.ownable (o : Options) : List Species := o.ordered.filter (· ≠ .user)

theorem mem_ownable {o : Options} {s : Species} :
    s ∈ o.ownable ↔ o.includes s = true ∧ s ≠ .user := by
  unfold Options.ownable
  rw [List.mem_filter, mem_ordered, decide_eq_true_eq]

namespace Survey

variable {g : Graph} {enrolled : BySpecies (List Identity)}

theorem withOwners_eq (h : Forest g) {v : Survey} (hv : v.graph = g.withLinks enrolled)
    {s : Species} (hs : s ≠ .user) : v.withOwners s =
      { v with
        graph := g.withLinks ((g.ids s).foldl (·.enroll s) enrolled)
        diagnostics := { v.diagnostics with
          unowned := v.diagnostics.unowned +
            (g.ids s).countP fun i => (g.knownOwner? s i).isNone } } := by
  unfold withOwners
  rw [if_neg hs, hv, Graph.ids_withLinks, Graph.resolveOwners_withLinks h hs]

/-- Going through some species again changes the account, and no link. -/
theorem graph_foldl_withOwners (h : Forest g) (l : List Species)
    (hl : ∀ s ∈ l, s ≠ .user ∧ ∀ i ∈ g.ids s, i ∈ enrolled.get s) :
    ∀ v : Survey, v.graph = g.withLinks enrolled →
      (l.foldl withOwners v).graph = g.withLinks enrolled := by
  induction l with
  | nil => exact fun _ hv => hv
  | cons s rest ih =>
    intro v hv
    obtain ⟨hs, hids⟩ := hl s List.mem_cons_self
    rw [List.foldl_cons]
    apply ih fun t ht => hl t (List.mem_cons_of_mem s ht)
    rw [withOwners_eq h hv hs, BySpecies.foldl_enroll_of_mem hids]

/-- Going through some species, each once, links all their namespaces. -/
theorem foldl_withOwners (h : Forest g) (l : List Species) :
    ∀ (v : Survey) (enrolled : BySpecies (List Identity)), v.graph = g.withLinks enrolled →
      l.Nodup → (∀ s ∈ l, s ≠ .user ∧ enrolled.get s = []) →
      l.foldl withOwners v =
        { v with
          graph := g.withLinks (.ofFun fun s => if s ∈ l then g.ids s else enrolled.get s)
          diagnostics := { v.diagnostics with
            unowned := v.diagnostics.unowned + (g.ownerless l).length } } := by
  induction l with
  | nil =>
    intro v enrolled hv _ _
    have hsame : BySpecies.ofFun enrolled.get = enrolled :=
      BySpecies.ext_get fun s => BySpecies.get_ofFun _ s
    simp only [List.foldl_nil, List.not_mem_nil, if_false, hsame, ← hv]
    rfl
  | cons s rest ih =>
    intro v enrolled hv hnodup hl
    obtain ⟨hs, hempty⟩ := hl s List.mem_cons_self
    obtain ⟨hnew, hrest⟩ := List.nodup_cons.1 hnodup
    have henrolled : (g.ids s).foldl (·.enroll s) enrolled = enrolled.set s (g.ids s) := by
      rw [BySpecies.foldl_enroll_of_nodup _ _ (by simpa [hempty] using g.nodup_ids s), hempty,
        List.nil_append]
    have hrolls : (BySpecies.ofFun fun t => if t ∈ rest then g.ids t
        else (enrolled.set s (g.ids s)).get t) =
          .ofFun fun t => if t ∈ s :: rest then g.ids t else enrolled.get t := by
      refine BySpecies.ext_get fun t => ?_
      rw [BySpecies.get_ofFun, BySpecies.get_ofFun]
      by_cases ht : t = s
      · subst ht
        simp [hnew]
      · simp [ht, BySpecies.get_set_of_ne]
    rw [List.foldl_cons, withOwners_eq h hv hs, henrolled, ih _ (enrolled.set s (g.ids s)) rfl hrest,
      hrolls]
    · rw [Graph.ownerless_cons]
      simp only [Nat.add_assoc]
    · intro t ht
      obtain ⟨htuser, htempty⟩ := hl t (List.mem_cons_of_mem s ht)
      have hts : t ≠ s := fun heq => hnew (heq ▸ ht)
      exact ⟨htuser, by rw [BySpecies.get_set_of_ne _ _ hts, htempty]⟩

/-- For the user namespaces themselves there is nothing to do. -/
theorem foldl_withOwners_filter (l : List Species) (v : Survey) :
    l.foldl withOwners v = (l.filter (· ≠ .user)).foldl withOwners v := by
  rw [List.foldl_filter]
  congr
  funext v s
  by_cases hs : s = .user
  · simp [withOwners, hs]
  · simp [hs]

/-- The survey with all links of the species in scope, and the namespaces that have none counted. -/
def linked (v : Survey) : Survey :=
  { v with
    graph := v.graph.linked v.options.ownable
    diagnostics := { v.diagnostics with
      unowned := v.diagnostics.unowned + (v.graph.ownerless v.options.ownable).length } }

variable {v : Survey}

theorem foldl_withOwners_ordered (h : Forest v.graph)
    (hfresh : ∀ s id n, v.graph.get? s id = some n → n.owner = none ∧ ∀ t, n.owned t = []) :
    v.options.ordered.foldl withOwners v = v.linked := by
  rw [foldl_withOwners_filter, foldl_withOwners h _ v (.same [])
    (Graph.withLinks_eq_self hfresh).symm ((nodup_ordered _).filter _)
    fun s hs => ⟨(mem_ownable.1 hs).2, BySpecies.get_same _ _⟩]
  simp only [BySpecies.get_same]
  rfl

theorem graph_foldl_withOwners_linked (h : Forest v.graph) :
    (v.options.ordered.foldl withOwners v.linked).graph = v.linked.graph := by
  rw [foldl_withOwners_filter]
  refine graph_foldl_withOwners h _ (fun s hs => ⟨(mem_ownable.1 hs).2, fun i hi => ?_⟩) _ rfl
  have hs : s ∈ v.options.ownable := hs
  rw [BySpecies.get_ofFun, if_pos hs]
  exact hi

end Survey

/-- Linking the namespaces of some species is a change of the survey, and asks nothing. -/
theorem run_linkOwners {σ : Type} (l : List Species) : ∀ (st : σ) (v : Survey),
    (l.forM Phase.linkOwners : Phase σ Unit).run ⟨st, v⟩ =
      (.ok (), ⟨st, l.foldl Survey.withOwners v⟩) := by
  induction l with
  | nil => exact fun _ _ => rfl
  | cons s rest ih => exact fun st v => ih st (v.withOwners s)

/-! ## The law -/

/-- In a graph that any changes may have made, but in which no namespace is linked with its owner
yet, the owners are linked, on both sides. A namespace of a species in scope has the owner that is
reported, if that is known; a user namespace has the namespaces of each such species that have it
as their owner, ascending; the others are counted. A user namespace has its parent as its owner.
Nothing else changes, and to link them again changes no namespace. -/
theorem owners_and_holdings_are_one_relation {σ : Type} (changes : List Change) (v : Survey)
    (hgraph : v.graph = .after changes)
    (hfresh : ∀ s id n, v.graph.get? s id = some n → n.owner = none ∧ ∀ t, n.owned t = [])
    (st : σ) :
    ∃ w : Survey, (v.options.ordered.forM Phase.linkOwners).run ⟨st, v⟩ = (.ok (), ⟨st, w⟩) ∧
      (∀ s id, (w.graph.get? s id).map Namespace.unlinked = v.graph.get? s id) ∧
      (∀ s id n, w.graph.get? s id = some n → s ≠ .user →
        (v.options.includes s = true → n.owner? = n.ownerId.filter (v.graph.contains .user)) ∧
        (v.options.includes s = false → n.owner? = none) ∧ ∀ t, n.owned t = []) ∧
      (∀ id n, w.graph.get? .user id = some n →
        n.owner = none ∧ n.owner? = n.parent? ∧ ∀ t,
          (t ≠ .user → v.options.includes t = true → (n.owned t).Pairwise Ranked.Before ∧
            ∀ i, i ∈ n.owned t ↔ ∃ m, w.graph.get? t i = some m ∧ m.owner? = some id) ∧
          (t = .user ∨ v.options.includes t = false → n.owned t = [])) ∧
      w = { v with
        graph := w.graph
        diagnostics := { v.diagnostics with
          unowned := v.diagnostics.unowned +
            (v.options.ownable.flatMap fun s => (w.graph.ofSpecies s).values).countP
              (·.owner?.isNone) } } ∧
      ∃ w' : Survey, (w.options.ordered.forM Phase.linkOwners).run ⟨st, w⟩ = (.ok (), ⟨st, w'⟩) ∧
        w'.graph = w.graph := by
  have h : Forest v.graph := hgraph ▸ Forest.after changes
  have huser : .user ∉ v.options.ownable := fun hin => (mem_ownable.1 hin).2 rfl
  refine ⟨v.linked, ?_, Graph.unlinked_linked hfresh, fun s id n hn hs => ?_, fun id n hn => ?_, ?_,
    _, run_linkOwners .., Survey.graph_foldl_withOwners_linked h⟩
  · rw [run_linkOwners, Survey.foldl_withOwners_ordered h hfresh]
  · have howner := Graph.owner?_linked h hn
    rw [if_neg hs] at howner
    refine ⟨fun hin => ?_, fun hout => ?_, fun t => ?_⟩
    · rw [howner, if_pos (mem_ownable.2 ⟨hin, hs⟩), Graph.knownOwner?_linked hn]
    · rw [howner, if_neg fun hin => ?_]
      rw [(mem_ownable.1 hin).1] at hout
      cases hout
    · rw [Graph.owned_linked h hn, if_neg fun hin => hs hin.1]
  · refine ⟨Graph.owner_linked huser hn, (Graph.owner?_linked h hn).trans (if_pos rfl), fun t => ?_⟩
    refine ⟨fun ht hin => ?_, fun hout => ?_⟩
    · have htl : t ∈ v.options.ownable := mem_ownable.2 ⟨hin, ht⟩
      refine ⟨?_, Graph.mem_owned_linked h huser htl hn⟩
      rw [Graph.owned_linked h hn, if_pos ⟨rfl, htl⟩]
      exact (v.graph.ascending_ids t).filter _
    · rw [Graph.owned_linked h hn, if_neg]
      rintro ⟨_, htl⟩
      obtain ⟨hin, ht⟩ := mem_ownable.1 htl
      rcases hout with hout | hout
      · exact ht hout
      · rw [hin] at hout
        cases hout
  · unfold Survey.linked
    rw [Graph.length_ownerless h huser _ fun _ hs => hs]

/-- What makes two nested user namespaces, of which the inner one owns a network namespace, and a
UTS namespace of an owner that is not known. -/
def nestedOwners : List Change := [
  .insertNew .user ⟨4, 1⟩ .empty,
  .insertNew .user ⟨4, 2⟩ .empty,
  .addChild .user ⟨4, 1⟩ ⟨4, 2⟩,
  .insertNew .net ⟨4, 7⟩ .empty,
  .setOwnerId .net ⟨4, 7⟩ ⟨4, 2⟩,
  .insertNew .uts ⟨4, 5⟩ .empty,
  .setOwnerId .uts ⟨4, 5⟩ ⟨4, 9⟩]

/-- The network namespace and its owner know of each other. -/
theorem a_network_namespace_and_its_owner_are_linked :
    ∃ w n user, (Options.standard.ordered.forM Phase.linkOwners).run
        (⟨(), { options := .standard, graph := .after nestedOwners }⟩ : Run Unit) =
          (.ok (), ⟨(), w⟩) ∧
      w.graph.get? .net ⟨4, 7⟩ = some n ∧ n.owner? = some ⟨4, 2⟩ ∧
      w.graph.get? .user ⟨4, 2⟩ = some user ∧ ⟨4, 7⟩ ∈ user.owned .net := by
  have hall : ∀ s, s ∈ Species.all := by
    intro s
    cases s <;> decide
  have hfresh : ∀ s ∈ Species.all, ∀ n ∈ ((Graph.after nestedOwners).ofSpecies s).values,
      n.owner = none ∧ ∀ t ∈ Species.all, n.owned t = [] := by
    decide +kernel
  have hfresh : ∀ s id n, (Graph.after nestedOwners).get? s id = some n →
      n.owner = none ∧ ∀ t, n.owned t = [] := by
    intro s id n hn
    obtain ⟨howner, howned⟩ := hfresh s (hall s) n (Registry.mem_values_iff.2 ⟨id, hn⟩)
    exact ⟨howner, fun t => howned t (hall t)⟩
  obtain ⟨w, hrun, hsame, hothers, husers, _⟩ := owners_and_holdings_are_one_relation nestedOwners
    { options := .standard, graph := .after nestedOwners } rfl hfresh ()
  have hnet : ((Graph.after nestedOwners).get? .net ⟨4, 7⟩).map (·.ownerId) =
      some (some ⟨4, 2⟩) := by
    decide +kernel
  have huser : ((Graph.after nestedOwners).get? .user ⟨4, 2⟩).isSome = true := by
    decide +kernel
  rw [← hsame, Option.map_map] at hnet
  obtain ⟨n, hn, hreported⟩ := Option.map_eq_some_iff.1 hnet
  have hreported : n.ownerId = some ⟨4, 2⟩ := hreported
  have howner : n.owner? = some ⟨4, 2⟩ := by
    rw [(hothers .net ⟨4, 7⟩ n hn nofun).1 (by decide), hreported]
    exact Option.filter_some_pos huser
  rw [← hsame, Option.isSome_map] at huser
  obtain ⟨user, huser⟩ := Option.isSome_iff_exists.1 huser
  have howned := ((husers ⟨4, 2⟩ user huser).2.2 .net).1 nofun (by decide)
  exact ⟨w, n, user, hrun, hn, howner, huser, (howned.2 ⟨4, 7⟩).2 ⟨n, hn, howner⟩⟩

end NamespaceAtlas
