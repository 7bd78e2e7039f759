-- Owner links, all at once. Linking namespaces with their owners one after the
-- other comes to a graph that can be told in advance: each namespace has the
-- owner that is reported and known, and each user namespace has what it owns.
import NamespaceAtlas.Proofs.Graph.Forest
import NamespaceAtlas.Proofs.Graph.Owners

namespace NamespaceAtlas

/-! ## Lists by species -/

/-- The lists with one more namespace, at the end of those of its species unless it is there. -/
def BySpecies.enroll (enrolled : BySpecies (List Identity)) (s : Species) (i : Identity) :
    BySpecies (List Identity) :=
  if i ∈ enrolled.get s then enrolled else enrolled.set s (enrolled.get s ++ [i])

theorem BySpecies.get_enroll (enrolled : BySpecies (List Identity)) (s t : Species) (i : Identity) :
    (enrolled.enroll s i).get t =
      if t = s ∧ i ∉ enrolled.get t then enrolled.get t ++ [i] else enrolled.get t := by
  unfold enroll
  by_cases ht : t = s
  · subst ht
    by_cases hi : i ∈ enrolled.get t
    · simp [hi]
    · simp [hi]
  · split
    · simp [ht]
    · simp [ht, get_set_of_ne]

theorem BySpecies.foldl_enroll_of_mem {s : Species} {l : List Identity}
    {enrolled : BySpecies (List Identity)} (h : ∀ i ∈ l, i ∈ enrolled.get s) :
    l.foldl (·.enroll s) enrolled = enrolled := by
  induction l with
  | nil => rfl
  | cons i rest ih =>
    have hi : enrolled.enroll s i = enrolled := if_pos (h i List.mem_cons_self)
    rw [List.foldl_cons, hi]
    exact ih fun j hj => h j (List.mem_cons_of_mem i hj)

theorem BySpecies.foldl_enroll_of_nodup {s : Species} (l : List Identity) :
    ∀ enrolled : BySpecies (List Identity), (enrolled.get s ++ l).Nodup →
      l.foldl (·.enroll s) enrolled = enrolled.set s (enrolled.get s ++ l) := by
  induction l with
  | nil => simp
  | cons i rest ih =>
    intro enrolled hnodup
    have hi : enrolled.enroll s i = enrolled.set s (enrolled.get s ++ [i]) := by
      refine if_neg fun hin => ?_
      exact (List.nodup_append.1 hnodup).2.2 i hin i List.mem_cons_self rfl
    rw [List.foldl_cons, hi, ih]
    · simp
    · simpa using hnodup

/-! ## One namespace -/

theorem Kind.isNone_holdings_of_fits {k : Kind} {s : Species} (h : k.fits s = true) :
    k.holdings?.isNone = decide (s ≠ .user) := by
  cases k with
  | plain =>
    cases s <;> first | rfl | cases h
  | hierarchical _ =>
    have hs : s = .pid := of_decide_eq_true h
    subst hs
    rfl
  | user _ =>
    have hs : s = .user := of_decide_eq_true h
    subst hs
    rfl

namespace Namespace

variable (n : Namespace) (owner : Option Identity) (owned : Species → List Identity)

/-- The namespace with other links to its owner and to what it owns. -/
def withLinks : Namespace :=
  { n with owner, kind := n.kind.mapHoldings fun u => { u with owned := .ofFun owned } }

/-- The namespace without such links. -/
def unlinked : Namespace := n.withLinks none fun _ => []

@[simp] theorem unlinked_withLinks : (n.withLinks owner owned).unlinked = n.unlinked := by
  unfold unlinked withLinks
  cases n.kind <;> rfl

theorem unlinked_eq_self {n : Namespace} (howner : n.owner = none) (howned : ∀ t, n.owned t = []) :
    n.unlinked = n := by
  obtain ⟨id, species, reference, leaders, ownerId, owner, kind⟩ := n
  subst howner
  cases kind with
  | plain => rfl
  | hierarchical _ => rfl
  | user u =>
    have hempty : BySpecies.ofFun (fun _ => []) = u.owned :=
      BySpecies.ext_get fun t => (BySpecies.get_ofFun _ t).trans (howned t).symm
    unfold unlinked withLinks
    simp only [Kind.mapHoldings, hempty]

theorem owned_withLinks (t : Species) :
    (n.withLinks owner owned).owned t = if n.kind.holdings?.isSome then owned t else [] := by
  unfold Namespace.owned withLinks
  cases n.kind with
  | plain => rfl
  | hierarchical _ => rfl
  | user u => exact BySpecies.get_ofFun _ t

theorem isNone_holdings_withLinks :
    (n.withLinks owner owned).kind.holdings?.isNone = n.kind.holdings?.isNone := by
  unfold withLinks
  cases n.kind <;> rfl

theorem owner?_withLinks {n : Namespace} {s : Species} (h : n.kind.fits s = true) :
    (n.withLinks owner owned).owner? = if s = .user then n.parent? else owner := by
  unfold owner? parent? withLinks
  revert h
  cases n.kind with
  | plain =>
    intro h
    cases s <;> first | rfl | cases h
  | hierarchical _ =>
    intro h
    have hs : s = .pid := of_decide_eq_true h
    subst hs
    rfl
  | user _ =>
    intro h
    have hs : s = .user := of_decide_eq_true h
    subst hs
    rfl

theorem parent?_withLinks : (n.withLinks owner owned).parent? = n.parent? := by
  unfold parent? withLinks
  cases n.kind <;> rfl

theorem addOwned_withLinks (s : Species) (i : Identity) :
    (n.withLinks owner owned).addOwned s i =
      n.withLinks owner fun t => if t = s ∧ i ∉ owned t then owned t ++ [i] else owned t := by
  have henroll : (BySpecies.ofFun owned).enroll s i =
      .ofFun fun t => if t = s ∧ i ∉ owned t then owned t ++ [i] else owned t := by
    refine BySpecies.ext_get fun t => ?_
    rw [BySpecies.get_enroll, BySpecies.get_ofFun, BySpecies.get_ofFun]
  unfold addOwned withLinks
  cases n.kind with
  | plain => rfl
  | hierarchical _ => rfl
  | user u =>
    rw [← henroll]
    unfold BySpecies.enroll
    simp only [Kind.mapHoldings]
    split <;> rfl

end Namespace

/-! ## One link -/

namespace Graph

variable {g : Graph} {r s t : Species} {i j u o : Identity} {enrolled : BySpecies (List Identity)}

/-- The owner that is reported of a namespace, if it is known. -/
def knownOwner? (g : Graph) (s : Species) (id : Identity) : Option Identity :=
  (g.ownerId? s id).filter (g.contains .user)

/-- The owner of a namespace once those of the lists are linked. -/
def linkOf (g : Graph) (enrolled : BySpecies (List Identity)) (s : Species) (id : Identity) :
    Option Identity :=
  if id ∈ enrolled.get s then g.knownOwner? s id else none

/-- What a namespace owns once those of the lists are linked. -/
def holdingsOf (g : Graph) (enrolled : BySpecies (List Identity)) (s : Species) (id : Identity)
    (t : Species) : List Identity :=
  if s = .user then (enrolled.get t).filter fun i => g.knownOwner? t i = some id else []

/-- The graph once the namespaces of the lists are linked. -/
def withLinks (g : Graph) (enrolled : BySpecies (List Identity)) : Graph :=
  ⟨.ofFun fun s => (g.ofSpecies s).mapWithKey fun id n =>
    n.withLinks (g.linkOf enrolled s id) (g.holdingsOf enrolled s id)⟩

theorem get?_withLinks : (g.withLinks enrolled).get? s i =
    (g.get? s i).map (·.withLinks (g.linkOf enrolled s i) (g.holdingsOf enrolled s i)) := by
  unfold withLinks get? ofSpecies
  rw [BySpecies.get_ofFun, Registry.get?_mapWithKey]

theorem ids_withLinks : (g.withLinks enrolled).ids s = g.ids s := by
  unfold withLinks ids ofSpecies
  rw [BySpecies.get_ofFun, Registry.keys_mapWithKey]

theorem ownerId?_withLinks : (g.withLinks enrolled).ownerId? s i = g.ownerId? s i := by
  unfold ownerId?
  rw [get?_withLinks, Option.bind_map]
  rfl

theorem linkOf_enroll : g.linkOf (enrolled.enroll s i) t j =
    if s = t ∧ i = j then g.knownOwner? s i else g.linkOf enrolled t j := by
  unfold linkOf
  rw [BySpecies.get_enroll]
  by_cases heq : s = t ∧ i = j
  · obtain ⟨rfl, rfl⟩ := heq
    by_cases hi : i ∈ enrolled.get s
    · simp [hi]
    · simp [hi]
  · rw [if_neg heq]
    have hmem : j ∈ (if t = s ∧ i ∉ enrolled.get t then enrolled.get t ++ [i]
        else enrolled.get t) ↔ j ∈ enrolled.get t := by
      split
      · rename_i hnew
        have hji : j ≠ i := fun hji => heq ⟨hnew.1.symm, hji.symm⟩
        simp [hji]
      · rfl
    simp only [hmem]

theorem holdingsOf_enroll : g.holdingsOf (enrolled.enroll s i) r u =
    if r = .user ∧ g.knownOwner? s i = some u then fun t =>
      if t = s ∧ i ∉ g.holdingsOf enrolled r u t then g.holdingsOf enrolled r u t ++ [i]
      else g.holdingsOf enrolled r u t
    else g.holdingsOf enrolled r u := by
  by_cases hr : r = .user
  · subst hr
    by_cases howner : g.knownOwner? s i = some u
    · rw [if_pos ⟨rfl, howner⟩]
      funext t
      unfold holdingsOf
      rw [BySpecies.get_enroll, if_pos rfl, if_pos rfl]
      by_cases ht : t = s
      · subst ht
        by_cases hi : i ∈ enrolled.get t
        · simp [hi, howner]
        · simp [hi, howner, List.filter_append]
      · simp [ht]
    · rw [if_neg fun h => howner h.2]
      funext t
      unfold holdingsOf
      rw [BySpecies.get_enroll, if_pos rfl, if_pos rfl]
      split
      · rename_i hnew
        obtain ⟨rfl, _⟩ := hnew
        simp [howner, List.filter_append]
      · rfl
  · rw [if_neg fun h => hr h.1]
    unfold holdingsOf
    simp only [hr, if_false]

/-- Without a known owner it makes no difference to have been gone through. -/
theorem withLinks_enroll_of_none (hnone : g.knownOwner? s i = none) :
    g.withLinks (enrolled.enroll s i) = g.withLinks enrolled := by
  refine ext_get? fun t j => ?_
  have howner : g.linkOf (enrolled.enroll s i) t j = g.linkOf enrolled t j := by
    rw [linkOf_enroll]
    split
    · rename_i heq
      obtain ⟨rfl, rfl⟩ := heq
      unfold linkOf
      simp [hnone]
    · rfl
  rw [get?_withLinks, get?_withLinks, howner, holdingsOf_enroll, if_neg]
  rw [hnone]
  simp

/-- What linking a namespace with a known owner records on both sides. -/
theorem modify_withLinks (hs : s ≠ .user) (ho : g.knownOwner? s i = some o) :
    ((g.withLinks enrolled).modify .user o (·.addOwned s i)).modify s i (·.setOwner o) =
      g.withLinks (enrolled.enroll s i) := by
  refine ext_get? fun t j => ?_
  rw [get?_modify, get?_modify, get?_withLinks, get?_withLinks, linkOf_enroll, holdingsOf_enroll, ho]
  by_cases hnamespace : s = t ∧ i = j
  · obtain ⟨rfl, rfl⟩ := hnamespace
    simp only [hs, hs.symm, false_and, and_self, if_true, if_false, Option.map_map]
    rfl
  rw [if_neg hnamespace, if_neg hnamespace]
  by_cases huser : .user = t ∧ o = j
  · obtain ⟨rfl, rfl⟩ := huser
    rw [if_pos ⟨rfl, rfl⟩, if_pos ⟨rfl, rfl⟩, Option.map_map]
    exact congrArg (Option.map · _) (funext fun n => n.addOwned_withLinks _ _ s i)
  · rw [if_neg huser, if_neg]
    rintro ⟨rfl, hj⟩
    exact huser ⟨rfl, Option.some.inj hj⟩

/-- A link is made if the owner is known. -/
theorem resolveOwner?_withLinks (h : Forest g) (hs : s ≠ .user) :
    (g.withLinks enrolled).resolveOwner? s i =
      (g.knownOwner? s i).map fun _ => g.withLinks (enrolled.enroll s i) := by
  have hreported : ((g.withLinks enrolled).get? s i).bind (·.ownerId) = g.ownerId? s i :=
    ownerId?_withLinks
  unfold resolveOwner?
  rw [if_neg hs, hreported]
  cases ho : g.ownerId? s i with
  | none =>
    unfold knownOwner?
    rw [ho]
    rfl
  | some o =>
    have hknown : g.knownOwner? s i = if (g.get? .user o).isSome then some o else none := by
      unfold knownOwner?
      rw [ho]
      rfl
    cases hu : g.get? .user o with
    | none =>
      rw [hu] at hknown
      rw [hknown]
      change (((g.withLinks enrolled).get? .user o).bind _) = _
      rw [get?_withLinks, hu]
      rfl
    | some user =>
      rw [hu] at hknown
      have hholds : user.kind.holdings?.isNone = false :=
        Kind.isNone_holdings_of_fits (h.filed .user o user hu).2.2
      rw [← modify_withLinks hs hknown, hknown]
      change (((g.withLinks enrolled).get? .user o).bind _) = _
      rw [get?_withLinks, hu, Option.map_some, Option.bind_some,
        Namespace.isNone_holdings_withLinks, hholds]
      rfl

/-! ## All links of a species -/

theorem resolveOwners_withLinks (h : Forest g) (hs : s ≠ .user) (l : List Identity) :
    ∀ enrolled : BySpecies (List Identity), Survey.resolveOwners (g.withLinks enrolled) s l =
      (g.withLinks (l.foldl (·.enroll s) enrolled),
        l.countP fun i => (g.knownOwner? s i).isNone) := by
  induction l with
  | nil => exact fun _ => rfl
  | cons i rest ih =>
    intro enrolled
    unfold Survey.resolveOwners
    rw [resolveOwner?_withLinks h hs, List.foldl_cons, List.countP_cons]
    cases howner : g.knownOwner? s i with
    | none =>
      have hsame : g.withLinks (enrolled.enroll s i) = g.withLinks enrolled :=
        withLinks_enroll_of_none howner
      rw [Option.map_none, ← hsame, ih]
      rfl
    | some o =>
      rw [Option.map_some]
      exact ih _

theorem ascending_ids (g : Graph) (s : Species) : (g.ids s).Pairwise Ranked.Before :=
  List.pairwise_map.2 (g.ofSpecies s).ascending

/-! ## The graph with all links of some species -/

variable {id : Identity} {n : Namespace} {l : List Species}

/-- The graph with all links of the namespaces of some species. -/
def linked (g : Graph) (l : List Species) : Graph :=
  g.withLinks (.ofFun fun s => if s ∈ l then g.ids s else [])

theorem knownOwner?_of_get? (hn : g.get? s id = some n) :
    g.knownOwner? s id = n.ownerId.filter (g.contains .user) := by
  unfold knownOwner? ownerId?
  rw [hn]
  rfl

theorem withLinks_eq_self
    (hfresh : ∀ s id n, g.get? s id = some n → n.owner = none ∧ ∀ t, n.owned t = []) :
    g.withLinks (.same []) = g := by
  refine ext_get? fun s id => ?_
  have howner : g.linkOf (.same []) s id = none := by simp [linkOf]
  have hholds : g.holdingsOf (.same []) s id = fun _ => [] := by
    funext t
    simp [holdingsOf]
  rw [get?_withLinks, howner, hholds]
  cases hn : g.get? s id with
  | none => rfl
  | some n => exact congrArg some (Namespace.unlinked_eq_self (hfresh s id n hn).1 (hfresh s id n hn).2)

theorem get?_linked : (g.linked l).get? s id = (g.get? s id).map (·.withLinks
    (if s ∈ l then g.knownOwner? s id else none)
    fun t => if s = .user ∧ t ∈ l
      then (g.ids t).filter fun i => g.knownOwner? t i = some id else []) := by
  unfold linked
  rw [get?_withLinks]
  cases hn : g.get? s id with
  | none => rfl
  | some n =>
    have hid : id ∈ g.ids s := mem_ids_iff.2 (contains_iff.2 ⟨n, hn⟩)
    have howner : g.linkOf (.ofFun fun s => if s ∈ l then g.ids s else []) s id =
        if s ∈ l then g.knownOwner? s id else none := by
      unfold linkOf
      rw [BySpecies.get_ofFun]
      by_cases hs : s ∈ l
      · simp [hs, hid]
      · simp [hs]
    have hholds : g.holdingsOf (.ofFun fun s => if s ∈ l then g.ids s else []) s id =
        fun t => if s = .user ∧ t ∈ l
          then (g.ids t).filter fun i => g.knownOwner? t i = some id else [] := by
      funext t
      unfold holdingsOf
      rw [BySpecies.get_ofFun]
      by_cases hs : s = .user
      · by_cases ht : t ∈ l
        · simp [hs, ht]
        · simp [ht]
      · simp [hs]
    rw [howner, hholds]

theorem unlinked_linked (hfresh : ∀ s id n, g.get? s id = some n →
    n.owner = none ∧ ∀ t, n.owned t = []) (s : Species) (id : Identity) :
    ((g.linked l).get? s id).map Namespace.unlinked = g.get? s id := by
  rw [get?_linked, Option.map_map]
  cases hn : g.get? s id with
  | none => rfl
  | some n =>
    obtain ⟨howner, howned⟩ := hfresh s id n hn
    exact congrArg some ((n.unlinked_withLinks _ _).trans (Namespace.unlinked_eq_self howner howned))

theorem knownOwner?_linked (hn : (g.linked l).get? s id = some n) :
    n.ownerId.filter (g.contains .user) = g.knownOwner? s id := by
  rw [get?_linked] at hn
  obtain ⟨m, hm, rfl⟩ := Option.map_eq_some_iff.1 hn
  exact (knownOwner?_of_get? hm).symm

theorem owner_linked (hs : s ∉ l) (hn : (g.linked l).get? s id = some n) : n.owner = none := by
  rw [get?_linked] at hn
  obtain ⟨m, _, rfl⟩ := Option.map_eq_some_iff.1 hn
  exact if_neg hs

theorem owner?_linked (h : Forest g) (hn : (g.linked l).get? s id = some n) :
    n.owner? = if s = .user then n.parent? else if s ∈ l then g.knownOwner? s id else none := by
  rw [get?_linked] at hn
  obtain ⟨m, hm, rfl⟩ := Option.map_eq_some_iff.1 hn
  rw [Namespace.owner?_withLinks _ _ (h.filed s id m hm).2.2, Namespace.parent?_withLinks]

theorem owned_linked (h : Forest g) (hn : (g.linked l).get? s id = some n) (t : Species) :
    n.owned t = if s = .user ∧ t ∈ l
      then (g.ids t).filter fun i => g.knownOwner? t i = some id else [] := by
  rw [get?_linked] at hn
  obtain ⟨m, hm, rfl⟩ := Option.map_eq_some_iff.1 hn
  rw [Namespace.owned_withLinks]
  have hholds := Kind.isNone_holdings_of_fits (h.filed s id m hm).2.2
  rw [← Option.not_isSome] at hholds
  by_cases hs : s = .user
  · simp [by simpa [hs] using hholds]
  · simp [hs, by simpa [hs] using hholds]

/-- A namespace is among those that a user namespace owns exactly if this is its owner. -/
theorem mem_owned_linked (h : Forest g) (hl : .user ∉ l) (ht : t ∈ l)
    (hn : (g.linked l).get? .user id = some n) (i : Identity) :
    i ∈ n.owned t ↔ ∃ m, (g.linked l).get? t i = some m ∧ m.owner? = some id := by
  have htuser : t ≠ .user := fun heq => hl (heq ▸ ht)
  rw [owned_linked h hn, if_pos ⟨rfl, ht⟩, List.mem_filter, decide_eq_true_eq]
  have hids : i ∈ g.ids t ↔ ∃ m, (g.linked l).get? t i = some m := by
    rw [← contains_iff, ← mem_ids_iff]
    unfold linked
    rw [ids_withLinks]
  rw [hids]
  constructor
  · rintro ⟨⟨m, hm⟩, howner⟩
    refine ⟨m, hm, ?_⟩
    rw [owner?_linked h hm, if_neg htuser, if_pos ht, howner]
  · rintro ⟨m, hm, howner⟩
    rw [owner?_linked h hm, if_neg htuser, if_pos ht] at howner
    exact ⟨⟨m, hm⟩, howner⟩

/-- The namespaces of some species of which no owner is known. -/
def ownerless (g : Graph) (l : List Species) : List Identity :=
  l.flatMap fun s => (g.ids s).filter fun i => (g.knownOwner? s i).isNone

theorem ownerless_cons (g : Graph) (s : Species) (l : List Species) :
    (g.ownerless (s :: l)).length =
      (g.ids s).countP (fun i => (g.knownOwner? s i).isNone) + (g.ownerless l).length := by
  unfold ownerless
  rw [List.flatMap_cons, List.length_append, List.countP_eq_length_filter]

/-- They are those that have no owner once all links are made. -/
theorem length_ownerless (h : Forest g) (hl : .user ∉ l) (done : List Species) (hdone : done ⊆ l) :
    (g.ownerless done).length =
      (done.flatMap fun s => ((g.linked l).ofSpecies s).values).countP (·.owner?.isNone) := by
  induction done with
  | nil => rfl
  | cons s rest ih =>
    obtain ⟨hs, hrest⟩ := List.cons_subset.1 hdone
    have hsuser : s ≠ .user := fun heq => hl (heq ▸ hs)
    have hids : g.ids s = (g.linked l).ids s := ids_withLinks.symm
    rw [ownerless_cons, List.flatMap_cons, List.countP_append, ih hrest, hids]
    congr 1
    unfold ids Registry.keys Registry.values
    rw [List.countP_map, List.countP_map]
    apply List.countP_congr
    rintro ⟨id, n⟩ he
    have hn : (g.linked l).get? s id = some n := Registry.mem_entries_iff.1 he
    change (g.knownOwner? s id).isNone = true ↔ n.owner?.isNone = true
    rw [owner?_linked h hn, if_neg hsuser, if_pos hs]

end Graph

end NamespaceAtlas
