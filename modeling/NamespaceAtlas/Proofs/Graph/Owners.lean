-- Owners and what they own. The owner of a namespace and the holdings of a
-- user namespace are two records of one relation, and no change of a
-- discovery parts them.
import NamespaceAtlas.Survey
import NamespaceAtlas.Graph.Lookup

namespace NamespaceAtlas

/-- What is recorded of the owner of a namespace, and of what it owns itself. -/
structure Title where
  ownerId : Option Identity
  owner : Option Identity
  owned : Species → List Identity

namespace Namespace

variable (n : Namespace)

def title : Title := ⟨n.ownerId, n.owner, n.owned⟩

theorem owned_mapHoldings (f : Holdings → Holdings) (hf : ∀ u, (f u).owned = u.owned)
    (s : Species) : owned { n with kind := n.kind.mapHoldings f } s = n.owned s := by
  unfold owned
  cases n.kind with
  | user u => simp [Kind.mapHoldings, Kind.holdings?, hf]
  | plain => rfl
  | hierarchical _ => rfl

theorem owned_mapHierarchy (f : Hierarchy → Hierarchy) (s : Species) :
    owned { n with kind := n.kind.mapHierarchy f } s = n.owned s := by
  unfold owned
  cases n.kind <;> rfl

@[simp] theorem title_setCreator (uid : UInt32) : (n.setCreator uid).title = n.title := by
  unfold title
  rw [show (n.setCreator uid).owned = n.owned from
    funext fun s => n.owned_mapHoldings (fun u => { u with creator := some uid }) (fun _ => rfl) s]
  rfl

@[simp] theorem title_setParent (i : Identity) : (n.setParent i).title = n.title := by
  unfold title
  rw [show (n.setParent i).owned = n.owned from funext fun s => n.owned_mapHierarchy _ s]
  rfl

@[simp] theorem title_addChild (i : Identity) : (n.addChild i).title = n.title := by
  unfold title
  rw [show (n.addChild i).owned = n.owned from funext fun s => n.owned_mapHierarchy _ s]
  rfl

/-- A new namespace has no owner and owns nothing. -/
theorem title_new (s : Species) (i : Identity) (r : Reference) :
    (Namespace.new s i r).title = ⟨none, none, fun _ => []⟩ := by
  unfold title
  rw [show (Namespace.new s i r).owned = fun _ => [] from funext fun t => by
    cases s <;> cases t <;> rfl]
  rfl

theorem mem_owned_addOwned {s t : Species} {i j : Identity} (h : n.kind.holdings?.isSome) :
    j ∈ (n.addOwned s i).owned t ↔ j ∈ n.owned t ∨ t = s ∧ j = i := by
  unfold owned addOwned
  revert h
  cases n.kind with
  | plain => simp [Kind.holdings?]
  | hierarchical _ => simp [Kind.holdings?]
  | user u =>
    intro _
    simp only [Kind.mapHoldings, Kind.holdings?, Option.map_some, Option.getD_some]
    split
    · rename_i hin
      constructor
      · exact Or.inl
      · rintro (hj | ⟨rfl, rfl⟩)
        · exact hj
        · exact hin
    · by_cases ht : t = s
      · subst ht
        simp
      · simp [BySpecies.get_set_of_ne _ _ ht, ht]

end Namespace

namespace Graph

variable {g g' : Graph} {s t : Species} {i j u o : Identity}

/-- The owner that is reported of a namespace. -/
def ownerId? (g : Graph) (s : Species) (id : Identity) : Option Identity :=
  (g.get? s id).bind (·.ownerId)

/-- The owner of a namespace that is known to be there. -/
def owner? (g : Graph) (s : Species) (id : Identity) : Option Identity :=
  (g.get? s id).bind (·.owner)

/-- The namespaces of a species that a user namespace owns. -/
def ownedBy (g : Graph) (user : Identity) (s : Species) : List Identity :=
  ((g.get? .user user).map (·.owned s)).getD []

/-- Two graphs with the same namespaces and the same titles. -/
def SameTitles (g g' : Graph) : Prop :=
  ∀ s i, (g'.get? s i).map Namespace.title = (g.get? s i).map Namespace.title

theorem SameTitles.trans {h : Graph} (h1 : SameTitles g g') (h2 : SameTitles g' h) :
    SameTitles g h := fun s i => (h2 s i).trans (h1 s i)

theorem sameTitles_modify {f : Namespace → Namespace} (hf : ∀ n, (f n).title = n.title) :
    SameTitles g (g.modify s i f) := by
  intro t j
  rw [get?_modify]
  split
  · rw [Option.map_map]
    exact congrArg (Option.map · _) (funext hf)
  · rfl

theorem ownerId?_eq_title :
    g.ownerId? s i = ((g.get? s i).map Namespace.title).bind (·.ownerId) := by
  rw [Option.bind_map]
  rfl

theorem owner?_eq_title : g.owner? s i = ((g.get? s i).map Namespace.title).bind (·.owner) := by
  rw [Option.bind_map]
  rfl

theorem ownedBy_eq_title :
    g.ownedBy u s = (((g.get? .user u).map Namespace.title).map (·.owned s)).getD [] := by
  rw [Option.map_map]
  rfl

/-! ## First sightings -/

theorem title_insertNew (r : Reference) :
    ((g.insertNew s i r).get? t j).map Namespace.title =
      if s = t ∧ i = j then
        some (((g.get? t j).map Namespace.title).getD ⟨none, none, fun _ => []⟩)
      else (g.get? t j).map Namespace.title := by
  rw [get?_insertNew]
  split
  · cases g.get? t j with
    | none => exact congrArg some (Namespace.title_new s i r)
    | some n => rfl
  · rfl

/-- A first sighting reports no owner. -/
theorem ownerId?_insertNew {r : Reference} :
    (g.insertNew s i r).ownerId? t j = g.ownerId? t j := by
  rw [ownerId?_eq_title, ownerId?_eq_title, title_insertNew]
  split
  · cases g.get? t j <;> rfl
  · rfl

theorem owner?_insertNew {r : Reference} : (g.insertNew s i r).owner? t j = g.owner? t j := by
  rw [owner?_eq_title, owner?_eq_title, title_insertNew]
  split
  · cases g.get? t j <;> rfl
  · rfl

theorem ownedBy_insertNew {r : Reference} : (g.insertNew s i r).ownedBy u t = g.ownedBy u t := by
  rw [ownedBy_eq_title, ownedBy_eq_title, title_insertNew]
  split
  · cases g.get? .user u <;> rfl
  · rfl

/-! ## One record changed -/

theorem ownerId?_modify (f : Namespace → Namespace) (hf : ∀ n, (f n).ownerId = n.ownerId) :
    (g.modify s i f).ownerId? t j = g.ownerId? t j := by
  unfold ownerId?
  rw [get?_modify]
  split
  · rw [Option.bind_map]
    exact congrArg (Option.bind _) (funext hf)
  · rfl

theorem owner?_modify (f : Namespace → Namespace) (hf : ∀ n, (f n).owner = n.owner) :
    (g.modify s i f).owner? t j = g.owner? t j := by
  unfold owner?
  rw [get?_modify]
  split
  · rw [Option.bind_map]
    exact congrArg (Option.bind _) (funext hf)
  · rfl

theorem ownedBy_modify (f : Namespace → Namespace) (hf : ∀ n, (f n).owned = n.owned) :
    (g.modify s i f).ownedBy u t = g.ownedBy u t := by
  unfold ownedBy
  rw [get?_modify]
  split
  · rw [Option.map_map]
    exact congrArg (fun f => Option.getD (Option.map f _) []) (funext fun n => congrFun (hf n) t)
  · rfl

theorem owner?_setOwner (h : g.contains s i = true) :
    (g.modify s i (·.setOwner o)).owner? t j = if s = t ∧ i = j then some o else g.owner? t j := by
  obtain ⟨n, hn⟩ := contains_iff.1 h
  unfold owner?
  rw [get?_modify]
  split
  · rename_i heq
    obtain ⟨rfl, rfl⟩ := heq
    rw [hn]
    rfl
  · rfl

theorem mem_ownedBy_addOwned {n : Namespace} (hn : g.get? .user o = some n)
    (hholds : n.kind.holdings?.isSome) :
    j ∈ (g.modify .user o (·.addOwned s i)).ownedBy u t ↔
      j ∈ g.ownedBy u t ∨ u = o ∧ t = s ∧ j = i := by
  unfold ownedBy
  rw [get?_modify]
  by_cases hu : o = u
  · subst hu
    rw [if_pos ⟨rfl, rfl⟩, hn]
    simpa using n.mem_owned_addOwned hholds
  · simp [hu, Ne.symm hu]

/-- What linking a namespace with its owner comes to. -/
theorem resolveOwner?_eq_some (h : g.resolveOwner? s i = some g') :
    ∃ o user, g.ownerId? s i = some o ∧ g.get? .user o = some user ∧
      user.kind.holdings?.isSome ∧
      g' = (g.modify .user o (·.addOwned s i)).modify s i (·.setOwner o) := by
  unfold resolveOwner? at h
  split at h
  · cases h
  obtain ⟨o, ho, h⟩ := Option.bind_eq_some_iff.1 h
  obtain ⟨user, huser, h⟩ := Option.bind_eq_some_iff.1 h
  split at h
  · cases h
  rename_i hholds
  rw [← Option.not_isSome, Bool.not_eq_true', Bool.not_eq_false] at hholds
  exact ⟨o, user, ho, huser, hholds, (Option.some.inj h).symm⟩

end Graph

/-! ## The invariant -/

/-- Every owner was reported, and has the namespace among its holdings. -/
structure Titled (g : Graph) : Prop where
  reported : ∀ s id user, g.owner? s id = some user → g.ownerId? s id = some user
  agree : ∀ s id user, g.owner? s id = some user ↔ id ∈ g.ownedBy user s

namespace Titled

variable {g g' : Graph} {s t : Species} {i j u : Identity}

theorem empty : Titled .empty where
  reported s id user h := by simp [Graph.owner?] at h
  agree s id user := by simp [Graph.owner?, Graph.ownedBy]

/-- A change that leaves the owners and the holdings alone. -/
theorem congr (h : Titled g) (hreported : ∀ s i, g'.ownerId? s i = g.ownerId? s i)
    (howner : ∀ s i, g'.owner? s i = g.owner? s i)
    (howned : ∀ u s, g'.ownedBy u s = g.ownedBy u s) : Titled g' where
  reported s id user hu := by
    rw [hreported]
    rw [howner] at hu
    exact h.reported s id user hu
  agree s id user := by rw [howner, howned, h.agree]

theorem sameTitles (h : Titled g) (hsame : g.SameTitles g') : Titled g' := by
  apply h.congr
  · intro s i
    rw [Graph.ownerId?_eq_title, Graph.ownerId?_eq_title, hsame]
  · intro s i
    rw [Graph.owner?_eq_title, Graph.owner?_eq_title, hsame]
  · intro u s
    rw [Graph.ownedBy_eq_title, Graph.ownedBy_eq_title, hsame]

theorem insertNew (h : Titled g) (s : Species) (i : Identity) (r : Reference) :
    Titled (g.insertNew s i r) :=
  h.congr (fun _ _ => Graph.ownerId?_insertNew) (fun _ _ => Graph.owner?_insertNew)
    fun _ _ => Graph.ownedBy_insertNew

/-- An owner may be reported of a namespace of which none was reported before. -/
theorem setOwnerId (h : Titled g) (hnone : g.ownerId? s i = none) (o : Identity) :
    Titled (g.modify s i (·.setOwnerId o)) := by
  constructor
  · intro t j u hu
    rw [Graph.owner?_modify (·.setOwnerId o) fun _ => rfl] at hu
    have hreported := h.reported t j u hu
    unfold Graph.ownerId? at hreported hnone ⊢
    rw [Graph.get?_modify]
    split
    · rename_i heq
      obtain ⟨rfl, rfl⟩ := heq
      rw [hnone] at hreported
      cases hreported
    · exact hreported
  · intro t j u
    rw [Graph.owner?_modify (·.setOwnerId o) fun _ => rfl,
      Graph.ownedBy_modify (·.setOwnerId o) fun _ => rfl, h.agree]

/-- Linking a namespace with its owner gives each of them its record of the other. -/
theorem resolveOwner (h : Titled g) (hok : g.resolveOwner? s i = some g') : Titled g' := by
  obtain ⟨o, user, ho, huser, hholds, rfl⟩ := Graph.resolveOwner?_eq_some hok
  have hknown : g.contains s i = true := by
    obtain ⟨n, hn, _⟩ := Option.bind_eq_some_iff.1 ho
    exact Graph.contains_iff.2 ⟨n, hn⟩
  have howner : ∀ t j,
      ((g.modify .user o (·.addOwned s i)).modify s i (·.setOwner o)).owner? t j =
        if s = t ∧ i = j then some o else g.owner? t j := by
    intro t j
    rw [Graph.owner?_setOwner (by simpa using hknown),
      Graph.owner?_modify (·.addOwned s i) fun _ => rfl]
  constructor
  · intro t j u hu
    rw [Graph.ownerId?_modify (·.setOwner o) fun _ => rfl,
      Graph.ownerId?_modify (·.addOwned s i) fun _ => rfl]
    rw [howner] at hu
    split at hu
    · rename_i heq
      obtain ⟨rfl, rfl⟩ := heq
      cases hu
      exact ho
    · exact h.reported t j u hu
  · intro t j u
    rw [howner, Graph.ownedBy_modify (·.setOwner o) fun _ => rfl,
      Graph.mem_ownedBy_addOwned huser hholds, ← h.agree]
    split
    · rename_i heq
      obtain ⟨rfl, rfl⟩ := heq
      constructor
      · intro hu
        exact Or.inr ⟨(Option.some.inj hu).symm, rfl, rfl⟩
      · rintro (hu | ⟨rfl, _⟩)
        · rw [← ho]
          exact h.reported s i u hu
        · rfl
    · rename_i hne
      constructor
      · exact Or.inl
      · rintro (hu | ⟨_, rfl, rfl⟩)
        · exact hu
        · exact absurd ⟨rfl, rfl⟩ hne

/-! ## What the invariant says of a namespace -/

theorem owner_of_get? {n : Namespace} (h : Titled g) (hn : g.get? s i = some n)
    (hu : n.owner = some u) : ∃ m, g.get? .user u = some m ∧ i ∈ m.owned s := by
  have howner : g.owner? s i = some u := by
    unfold Graph.owner?
    rw [hn]
    exact hu
  have howned := (h.agree s i u).1 howner
  unfold Graph.ownedBy at howned
  cases hm : g.get? .user u with
  | none =>
    rw [hm] at howned
    cases howned
  | some m =>
    rw [hm] at howned
    exact ⟨m, rfl, howned⟩

theorem owned_of_get? {m : Namespace} (h : Titled g) (hm : g.get? .user u = some m)
    (hi : i ∈ m.owned s) : ∃ n, g.get? s i = some n ∧ n.owner = some u := by
  have howned : i ∈ g.ownedBy u s := by
    unfold Graph.ownedBy
    rw [hm]
    exact hi
  exact Option.bind_eq_some_iff.1 ((h.agree s i u).2 howned)

end Titled

end NamespaceAtlas
