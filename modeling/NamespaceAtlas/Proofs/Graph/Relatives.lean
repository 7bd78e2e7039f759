-- Parents and children in a graph. What a change does to them is settled here,
-- so that the laws of whole graphs never look into a namespace.
import NamespaceAtlas.Graph.Lookup

namespace NamespaceAtlas

/-- Whether a kind is the one that namespaces of a species have. -/
def Kind.fits : Kind → Species → Bool
  | .user _, s => s = .user
  | .hierarchical _, s => s = .pid
  | .plain, s => !s.hasParents

/-- Namespaces of the species that have parents, and no others, have relatives. -/
theorem Kind.isSome_hierarchy_of_fits {k : Kind} {s : Species} (h : k.fits s = true) :
    k.hierarchy?.isSome = s.hasParents := by
  cases k with
  | plain => simpa [Kind.fits, Kind.hierarchy?] using h.symm
  | hierarchical _ =>
    simp only [Kind.fits, decide_eq_true_eq] at h
    subst h
    rfl
  | user _ =>
    simp only [Kind.fits, decide_eq_true_eq] at h
    subst h
    rfl

theorem Kind.fits_ofSpecies (s : Species) : (Kind.ofSpecies s).fits s = true := by
  cases s <;> rfl

theorem Kind.hierarchy_ofSpecies (s : Species) :
    (Kind.ofSpecies s).hierarchy? = if s.hasParents then some {} else none := by
  cases s <;> rfl

@[simp] theorem Kind.fits_mapHierarchy (k : Kind) (s : Species) (f : Hierarchy → Hierarchy) :
    (k.mapHierarchy f).fits s = k.fits s := by
  cases k <;> rfl

@[simp] theorem Kind.fits_mapHoldings (k : Kind) (s : Species) (f : Holdings → Holdings) :
    (k.mapHoldings f).fits s = k.fits s := by
  cases k <;> rfl

@[simp] theorem Kind.hierarchy_mapHierarchy (k : Kind) (f : Hierarchy → Hierarchy) :
    (k.mapHierarchy f).hierarchy? = k.hierarchy?.map f := by
  cases k <;> rfl

/-- A change of the holdings that leaves the relatives alone. -/
theorem Kind.hierarchy_mapHoldings (k : Kind) {f : Holdings → Holdings}
    (hf : ∀ u, (f u).hierarchy = u.hierarchy) : (k.mapHoldings f).hierarchy? = k.hierarchy? := by
  cases k with
  | user u => simp [Kind.mapHoldings, Kind.hierarchy?, hf]
  | plain => rfl
  | hierarchical _ => rfl

/-- What puts a namespace in its place in a hierarchy. The rest of it may change without any
trace there. -/
structure Place where
  id : Identity
  species : Species
  /-- The species that its kind fits. -/
  fits : Species → Bool
  hierarchy : Option Hierarchy

/-- All of a namespace but its relatives and its holdings. -/
structure Record where
  id : Identity
  species : Species
  fits : Species → Bool
  reference : Reference
  leaders : List Pid
  ownerId : Option Identity
  owner : Option Identity

namespace Namespace

variable (n : Namespace)

def place : Place := ⟨n.id, n.species, n.kind.fits, n.kind.hierarchy?⟩

def record : Record :=
  ⟨n.id, n.species, n.kind.fits, n.reference, n.leaders, n.ownerId, n.owner⟩

@[simp] theorem place_setReference (r : Reference) : (n.setReference r).place = n.place := rfl

@[simp] theorem place_setOwnerId (i : Identity) : (n.setOwnerId i).place = n.place := rfl

@[simp] theorem place_setOwner (i : Identity) : (n.setOwner i).place = n.place := rfl

@[simp] theorem place_clearLeaders : n.clearLeaders.place = n.place := rfl

@[simp] theorem place_addLeader (p : Pid) : (n.addLeader p).place = n.place := by
  unfold addLeader
  split
  · rfl
  · rfl

/-- A change of the holdings that leaves the relatives alone. -/
theorem place_mapHoldings {f : Holdings → Holdings} (hf : ∀ u, (f u).hierarchy = u.hierarchy) :
    place { n with kind := n.kind.mapHoldings f } = n.place := by
  unfold place
  rw [Kind.hierarchy_mapHoldings _ hf, show (n.kind.mapHoldings f).fits = n.kind.fits from
    funext fun _ => Kind.fits_mapHoldings ..]

@[simp] theorem place_setCreator (uid : UInt32) : (n.setCreator uid).place = n.place :=
  n.place_mapHoldings fun _ => rfl

@[simp] theorem place_addOwned (s : Species) (i : Identity) :
    (n.addOwned s i).place = n.place := by
  refine n.place_mapHoldings fun u => ?_
  split
  · rfl
  · rfl

@[simp] theorem record_setParent (i : Identity) : (n.setParent i).record = n.record := by
  unfold record
  rw [show (n.setParent i).kind.fits = n.kind.fits from
    funext fun _ => Kind.fits_mapHierarchy ..]
  rfl

@[simp] theorem record_addChild (i : Identity) : (n.addChild i).record = n.record := by
  unfold record
  rw [show (n.addChild i).kind.fits = n.kind.fits from
    funext fun _ => Kind.fits_mapHierarchy ..]
  rfl

@[simp] theorem record_setCreator (uid : UInt32) : (n.setCreator uid).record = n.record := by
  unfold record
  rw [show (n.setCreator uid).kind.fits = n.kind.fits from
    funext fun _ => Kind.fits_mapHoldings ..]
  rfl

@[simp] theorem record_addOwned (s : Species) (i : Identity) :
    (n.addOwned s i).record = n.record := by
  unfold record
  rw [show (n.addOwned s i).kind.fits = n.kind.fits from
    funext fun _ => Kind.fits_mapHoldings ..]
  rfl

/-! ### Creators -/

@[simp] theorem creator?_setParent (i : Identity) : (n.setParent i).creator? = n.creator? := by
  unfold creator? setParent
  cases n.kind <;> rfl

@[simp] theorem creator?_addChild (i : Identity) : (n.addChild i).creator? = n.creator? := by
  unfold creator? addChild
  cases n.kind <;> rfl

theorem creator?_setCreator (uid : UInt32) (h : n.kind.fits .user = true) :
    (n.setCreator uid).creator? = some uid := by
  unfold creator? setCreator
  revert h
  cases n.kind with
  | user u => exact fun _ => rfl
  | hierarchical _ => simp [Kind.fits]
  | plain => simp [Kind.fits, Species.hasParents]

end Namespace

namespace Graph

variable {g g' : Graph} {s t : Species} {i j p c : Identity}

/-- The children of a namespace; none of one that is not known. -/
def children (g : Graph) (s : Species) (id : Identity) : List Identity :=
  ((g.hierarchy? s id).map (·.children)).getD []

theorem parent?_eq : g.parent? s i = (g.hierarchy? s i).bind (·.parent) := by
  unfold parent? hierarchy? Namespace.parent?
  rw [Option.bind_assoc]

theorem hierarchy?_of_get? {n : Namespace} (h : g.get? s i = some n) :
    g.hierarchy? s i = n.kind.hierarchy? := by
  unfold hierarchy?
  rw [h, Option.bind_some]

theorem parent?_of_get? {n : Namespace} (h : g.get? s i = some n) :
    g.parent? s i = n.parent? := by
  unfold parent?
  rw [h, Option.bind_some]

theorem children_of_get? {n : Namespace} (h : g.get? s i = some n) :
    g.children s i = n.children := by
  unfold children Namespace.children
  rw [hierarchy?_of_get? h]

theorem contains_of_hierarchy (h : (g.hierarchy? s i).isSome) : g.contains s i = true := by
  unfold hierarchy? at h
  rw [contains_iff]
  cases hn : g.get? s i with
  | none => simp [hn] at h
  | some n => exact ⟨n, rfl⟩

theorem contains_of_parent? (h : g.parent? s i = some p) : g.contains s i = true := by
  rw [parent?_eq] at h
  cases hh : g.hierarchy? s i with
  | none => simp [hh] at h
  | some _ => exact contains_of_hierarchy (by simp [hh])

theorem contains_of_mem_children (h : c ∈ g.children s p) : g.contains s p = true := by
  unfold children at h
  cases hh : g.hierarchy? s p with
  | none => simp [hh] at h
  | some _ => exact contains_of_hierarchy (by simp [hh])

/-! ## Changes that leave the hierarchy alone -/

/-- Two graphs with the same namespaces in the same places. -/
def SamePlaces (g g' : Graph) : Prop :=
  ∀ s i, (g'.get? s i).map Namespace.place = (g.get? s i).map Namespace.place

theorem SamePlaces.trans {h : Graph} (h1 : SamePlaces g g') (h2 : SamePlaces g' h) :
    SamePlaces g h := fun s i => (h2 s i).trans (h1 s i)

/-- A change of one namespace that leaves it in its place. -/
theorem samePlaces_modify {f : Namespace → Namespace} (hf : ∀ n, (f n).place = n.place) :
    SamePlaces g (g.modify s i f) := by
  intro t j
  rw [get?_modify]
  split
  · rw [Option.map_map]
    exact congrArg (Option.map · _) (funext hf)
  · rfl

theorem hierarchy?_eq_place :
    g.hierarchy? s i = ((g.get? s i).map Namespace.place).bind (·.hierarchy) := by
  unfold hierarchy?
  rw [Option.bind_map]
  rfl

theorem SamePlaces.hierarchy? (h : SamePlaces g g') (s : Species) (i : Identity) :
    g'.hierarchy? s i = g.hierarchy? s i := by
  rw [hierarchy?_eq_place, hierarchy?_eq_place, h]

theorem SamePlaces.parent? (h : SamePlaces g g') (s : Species) (i : Identity) :
    g'.parent? s i = g.parent? s i := by
  rw [parent?_eq, parent?_eq, h.hierarchy?]

theorem SamePlaces.children (h : SamePlaces g g') (s : Species) (i : Identity) :
    g'.children s i = g.children s i := by
  unfold Graph.children
  rw [h.hierarchy?]

/-! ## First sightings -/

theorem hierarchy?_insertNew (r : Reference) :
    (g.insertNew s i r).hierarchy? t j =
      if s = t ∧ i = j ∧ g.contains t j = false then (if t.hasParents then some {} else none)
      else g.hierarchy? t j := by
  unfold hierarchy?
  rw [get?_insertNew]
  by_cases hij : s = t ∧ i = j
  · obtain ⟨rfl, rfl⟩ := hij
    cases hn : g.get? s i with
    | none =>
      have : g.contains s i = false := by
        simp [Bool.eq_false_iff, contains_iff, hn]
      simp [this, Namespace.new, Kind.hierarchy_ofSpecies]
    | some n =>
      have : g.contains s i = true := contains_iff.2 ⟨n, hn⟩
      simp [this]
  · have : ¬ (s = t ∧ i = j ∧ g.contains t j = false) := fun h => hij ⟨h.1, h.2.1⟩
    simp only [hij, this, if_false]

/-- A first sighting gives no parent. -/
theorem parent?_insertNew (r : Reference) : (g.insertNew s i r).parent? t j = g.parent? t j := by
  rw [parent?_eq, hierarchy?_insertNew]
  split
  · rename_i h
    have hnone : g.parent? t j = none := by
      cases hp : g.parent? t j with
      | none => rfl
      | some p =>
        rw [contains_of_parent? hp] at h
        simp at h
    rw [hnone]
    split
    · rfl
    · rfl
  · exact parent?_eq.symm

/-- A first sighting gives no children. -/
theorem children_insertNew (r : Reference) :
    (g.insertNew s i r).children t j = g.children t j := by
  unfold children
  rw [hierarchy?_insertNew]
  split
  · rename_i h
    have hnone : g.hierarchy? t j = none := by
      cases hh : g.hierarchy? t j with
      | none => rfl
      | some _ =>
        rw [contains_of_hierarchy (by simp [hh])] at h
        simp at h
    rw [hnone]
    split
    · rfl
    · rfl
  · rfl

theorem contains_insertNew (r : Reference) :
    (g.insertNew s i r).contains t j = true ↔ (s = t ∧ i = j) ∨ g.contains t j = true := by
  rw [contains_iff, contains_iff, get?_insertNew]
  by_cases hij : s = t ∧ i = j
  · simp [hij]
  · simp [hij]

/-! ## Records -/

def record? (g : Graph) (s : Species) (i : Identity) : Option Record :=
  (g.get? s i).map Namespace.record

/-- The creator that is recorded of a user namespace. -/
def creator? (g : Graph) (s : Species) (i : Identity) : Option UInt32 :=
  (g.get? s i).bind Namespace.creator?

theorem record?_of_get? {n : Namespace} (h : g.get? s i = some n) :
    g.record? s i = some n.record := by
  unfold record?
  rw [h, Option.map_some]

theorem contains_eq_record : g.contains s i = (g.record? s i).isSome := by
  unfold record?
  rw [Option.isSome_map]
  rfl

/-- A change of one namespace that leaves its record alone. -/
theorem record?_modify {f : Namespace → Namespace} (hf : ∀ n, (f n).record = n.record) :
    (g.modify s i f).record? t j = g.record? t j := by
  unfold record?
  rw [get?_modify]
  split
  · rw [Option.map_map]
    exact congrArg (Option.map · _) (funext hf)
  · rfl

/-- A change of one namespace that leaves its creator alone. -/
theorem creator?_modify {f : Namespace → Namespace} (hf : ∀ n, (f n).creator? = n.creator?) :
    (g.modify s i f).creator? t j = g.creator? t j := by
  unfold creator?
  rw [get?_modify]
  split
  · rw [Option.bind_map]
    exact congrArg (Option.bind _) (funext hf)
  · rfl

theorem record?_insertNew (r : Reference) :
    (g.insertNew s i r).record? t j =
      if s = t ∧ i = j then some ((g.record? t j).getD (Namespace.new s i r).record)
      else g.record? t j := by
  unfold record?
  rw [get?_insertNew]
  split
  · cases g.get? t j <;> rfl
  · rfl

/-- A first sighting tells no creator. -/
theorem creator?_insertNew (r : Reference) :
    (g.insertNew s i r).creator? t j = g.creator? t j := by
  unfold creator?
  rw [get?_insertNew]
  split
  · cases g.get? t j with
    | none => cases s <;> rfl
    | some n => rfl
  · rfl

theorem creator?_setCreator {n : Namespace} (uid : UInt32) (hn : g.get? .user i = some n)
    (hfits : n.kind.fits .user = true) :
    (g.modify .user i (·.setCreator uid)).creator? .user j =
      if i = j then some uid else g.creator? .user j := by
  unfold creator?
  rw [get?_modify]
  by_cases hij : i = j
  · subst hij
    simp [hn, n.creator?_setCreator uid hfits]
  · simp [hij]

/-! ## New edges -/

/-- The graph with a new edge from a child to its parent. -/
def link (g : Graph) (s : Species) (parent child : Identity) : Graph :=
  (g.modify s child (·.setParent parent)).modify s parent (·.addChild child)

theorem hierarchy?_modify {f : Namespace → Namespace} {h : Hierarchy → Hierarchy}
    (hf : ∀ n, (f n).kind.hierarchy? = n.kind.hierarchy?.map h) :
    (g.modify s i f).hierarchy? t j =
      if s = t ∧ i = j then (g.hierarchy? t j).map h else g.hierarchy? t j := by
  unfold hierarchy?
  rw [get?_modify]
  split
  · cases g.get? t j with
    | none => rfl
    | some n => simp [hf]
  · rfl

theorem hierarchy?_setParent :
    (g.modify s c (·.setParent p)).hierarchy? t j =
      if s = t ∧ c = j then (g.hierarchy? t j).map fun h => { h with parent := some p }
      else g.hierarchy? t j :=
  hierarchy?_modify fun n => by simp [Namespace.setParent]

theorem hierarchy?_addChild :
    (g.modify s p (·.addChild c)).hierarchy? t j =
      if s = t ∧ p = j then
        (g.hierarchy? t j).map fun h =>
          if c ∈ h.children then h else { h with children := h.children ++ [c] }
      else g.hierarchy? t j :=
  hierarchy?_modify fun n => by simp [Namespace.addChild]

/-- A new edge gives the child its parent, and no other namespace another one. -/
theorem parent?_link (hc : (g.hierarchy? s c).isSome) :
    (g.link s p c).parent? t j = if s = t ∧ c = j then some p else g.parent? t j := by
  have hadd : ∀ g : Graph, (g.modify s p (·.addChild c)).parent? t j = g.parent? t j := by
    intro g
    rw [parent?_eq, parent?_eq, hierarchy?_addChild]
    split
    · cases g.hierarchy? t j with
      | none => rfl
      | some h =>
        simp only [Option.map_some, Option.bind_some]
        split
        · rfl
        · rfl
    · rfl
  unfold link
  rw [hadd, parent?_eq, hierarchy?_setParent]
  split
  · rename_i heq
    obtain ⟨rfl, rfl⟩ := heq
    obtain ⟨h, hh⟩ := Option.isSome_iff_exists.1 hc
    simp [hh]
  · exact parent?_eq.symm

/-- A new edge adds the child to the children of the parent, and no other namespace has others
than before. -/
theorem children_link (hp : (g.hierarchy? s p).isSome) (hnew : c ∉ g.children s p) :
    (g.link s p c).children t j =
      if s = t ∧ p = j then g.children t j ++ [c] else g.children t j := by
  have hset : ∀ t j, (g.modify s c (·.setParent p)).children t j = g.children t j := by
    intro t j
    unfold children
    rw [hierarchy?_setParent]
    split
    · cases g.hierarchy? t j <;> rfl
    · rfl
  rw [← hset t j, ← hset s p] at *
  unfold link
  unfold children at hnew ⊢
  rw [hierarchy?_addChild]
  split
  · rename_i heq
    obtain ⟨rfl, rfl⟩ := heq
    have hsome : ((g.modify s c (·.setParent p)).hierarchy? s p).isSome := by
      rw [hierarchy?_setParent]
      split
      · simpa using hp
      · exact hp
    obtain ⟨h, hh⟩ := Option.isSome_iff_exists.1 hsome
    rw [hh] at hnew ⊢
    simp only [Option.map_some, Option.getD_some] at hnew ⊢
    rw [if_neg hnew]
  · rfl

/-- A new edge leaves all records alone. -/
theorem record?_link : (g.link s p c).record? t j = g.record? t j := by
  unfold link
  rw [record?_modify (by simp), record?_modify (by simp)]

theorem creator?_link : (g.link s p c).creator? t j = g.creator? t j := by
  unfold link
  rw [creator?_modify (by simp), creator?_modify (by simp)]

theorem contains_link : (g.link s p c).contains t j = g.contains t j := by
  rw [contains_eq_record, contains_eq_record, record?_link]

/-- What linking a child with a parent comes to. Either the edge was there, or it is new and
closes no circle. -/
theorem addChild_eq_ok (h : g.addChild s p c = .ok g') :
    (g.parent? s c = some p ∧ g' = g) ∨
      (p ≠ c ∧ g.contains s p = true ∧ (g.hierarchy? s c).isSome ∧ g.parent? s c = none ∧
        c ∉ g.ancestors s p ∧ g' = g.link s p c) := by
  unfold addChild at h
  split at h
  · cases h
  rename_i hne
  split at h
  · cases h
  rename_i hknown
  cases hh : g.hierarchy? s c with
  | none => simp [hh] at h
  | some h' =>
    have hparent : g.parent? s c = h'.parent := by rw [parent?_eq, hh, Option.bind_some]
    rw [hh] at h
    simp only at h
    cases hp : h'.parent with
    | some existing =>
      rw [hp] at h
      simp only at h
      split at h
      · rename_i heq
        cases h
        exact Or.inl ⟨by rw [hparent, hp, heq], rfl⟩
      · cases h
    | none =>
      rw [hp] at h
      simp only at h
      split at h
      · cases h
      · rename_i hcycle
        cases h
        exact Or.inr ⟨hne, by simpa using hknown, rfl, by rw [hparent, hp], hcycle, rfl⟩

/-- An edge that can be there is taken. -/
theorem addChild_eq_link (hne : p ≠ c) (hknown : g.contains s p = true)
    (hh : (g.hierarchy? s c).isSome) (hp : g.parent? s c = none) (hc : c ∉ g.ancestors s p) :
    g.addChild s p c = .ok (g.link s p c) := by
  obtain ⟨h, hh⟩ := Option.isSome_iff_exists.1 hh
  rw [parent?_eq, hh, Option.bind_some] at hp
  unfold addChild
  simp only [hne, hknown, hh, hp, hc, if_false, Bool.not_true, Bool.false_eq_true]
  rfl

end Graph

end NamespaceAtlas
