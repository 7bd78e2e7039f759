-- The phases after the scans of the processes. They find more namespaces and
-- relate them to each other; what was known before they take nothing of.
import NamespaceAtlas.Proofs.Discovery.Steady
import NamespaceAtlas.Proofs.Discovery.Scan
import NamespaceAtlas.Proofs.Graph.Owners

namespace NamespaceAtlas

variable {σ φ : Type} {k : Kernel σ φ} {s t : Species} {i : Identity}

/-! ## One namespace -/

/-- What was known of a namespace is still known of it. It may have got a parent, more children
and more that it owns. -/
structure Namespace.Grows (n m : Namespace) : Prop where
  reference : m.reference = n.reference
  leaders : m.leaders = n.leaders
  ownerId : m.ownerId = n.ownerId
  parent : ∀ parent, n.parent? = some parent → m.parent? = some parent
  children : n.children <+: m.children
  owned : ∀ t, n.owned t <+: m.owned t

namespace Namespace.Grows

variable {n m m' : Namespace}

theorem refl (n : Namespace) : n.Grows n :=
  ⟨rfl, rfl, rfl, fun _ h => h, List.prefix_rfl, fun _ => List.prefix_rfl⟩

theorem trans (h : n.Grows m) (h' : m.Grows m') : n.Grows m' where
  reference := h'.reference.trans h.reference
  leaders := h'.leaders.trans h.leaders
  ownerId := h'.ownerId.trans h.ownerId
  parent p hp := h'.parent p (h.parent p hp)
  children := h.children.trans h'.children
  owned t := (h.owned t).trans (h'.owned t)

/-- A change that leaves the relatives alone. -/
theorem of_place (hrecord : m.record = n.record) (hplace : m.place = n.place)
    (howned : ∀ t, n.owned t <+: m.owned t) : n.Grows m where
  reference := congrArg Record.reference hrecord
  leaders := congrArg Record.leaders hrecord
  ownerId := congrArg Record.ownerId hrecord
  parent p hp := by
    unfold Namespace.parent? at hp ⊢
    rwa [show m.kind.hierarchy? = n.kind.hierarchy? from congrArg Place.hierarchy hplace]
  children := by
    unfold Namespace.children
    rw [show m.kind.hierarchy? = n.kind.hierarchy? from congrArg Place.hierarchy hplace]
  owned := howned

theorem setCreator (n : Namespace) (uid : UInt32) : n.Grows (n.setCreator uid) :=
  of_place (n.record_setCreator uid) (n.place_setCreator uid) fun t => by
    rw [show (n.setCreator uid).owned = n.owned from congrArg Title.owned (n.title_setCreator uid)]

theorem setOwner (n : Namespace) (owner : Identity) : n.Grows (n.setOwner owner) :=
  ⟨rfl, rfl, rfl, fun _ h => h, List.prefix_rfl, fun _ => List.prefix_rfl⟩

theorem addOwned (n : Namespace) (s : Species) (i : Identity) : n.Grows (n.addOwned s i) := by
  apply of_place (n.record_addOwned s i) (n.place_addOwned s i)
  intro t
  unfold Namespace.owned Namespace.addOwned
  cases n.kind with
  | plain => exact List.prefix_rfl
  | hierarchical _ => exact List.prefix_rfl
  | user u =>
    simp only [Kind.mapHoldings, Kind.holdings?, Option.map_some, Option.getD_some]
    split
    · exact List.prefix_rfl
    · by_cases ht : t = s
      · subst ht
        rw [BySpecies.get_set]
        exact List.prefix_append _ _
      · rw [BySpecies.get_set_of_ne _ _ ht]

/-- A first parent. -/
theorem setParent (hnone : n.parent? = none) (parent : Identity) : n.Grows (n.setParent parent) where
  reference := rfl
  leaders := rfl
  ownerId := rfl
  parent p hp := by
    rw [hnone] at hp
    cases hp
  children := by
    unfold Namespace.children Namespace.setParent
    rw [Kind.hierarchy_mapHierarchy]
    cases n.kind.hierarchy? with
    | none => exact List.prefix_rfl
    | some h => exact List.prefix_rfl
  owned t := by
    rw [show (n.setParent parent).owned = n.owned from
      congrArg Title.owned (n.title_setParent parent)]

theorem addChild (n : Namespace) (child : Identity) : n.Grows (n.addChild child) where
  reference := rfl
  leaders := rfl
  ownerId := rfl
  parent p hp := by
    unfold Namespace.parent? Namespace.addChild at *
    rw [Kind.hierarchy_mapHierarchy]
    cases h : n.kind.hierarchy? with
    | none =>
      rw [h] at hp
      cases hp
    | some h' =>
      rw [h] at hp
      dsimp only [Option.map_some, Option.bind_some] at hp ⊢
      split
      · exact hp
      · exact hp
  children := by
    unfold Namespace.children Namespace.addChild
    rw [Kind.hierarchy_mapHierarchy]
    cases n.kind.hierarchy? with
    | none => exact List.prefix_rfl
    | some h =>
      dsimp only [Option.map_some, Option.getD_some]
      split
      · exact List.prefix_rfl
      · exact List.prefix_append _ _
  owned t := by
    rw [show (n.addChild child).owned = n.owned from congrArg Title.owned (n.title_addChild child)]

end Namespace.Grows

/-! ## All namespaces -/

/-- No namespace is lost, and what was known of each is still known of it. -/
def Graph.Grows (g g' : Graph) : Prop :=
  ∀ s id n, g.get? s id = some n → ∃ m, g'.get? s id = some m ∧ n.Grows m

namespace Graph.Grows

variable {g g' g'' : Graph}

theorem refl (g : Graph) : g.Grows g := fun _ _ n hn => ⟨n, hn, .refl n⟩

theorem trans (h : g.Grows g') (h' : g'.Grows g'') : g.Grows g'' := by
  intro s id n hn
  obtain ⟨m, hm, hgrows⟩ := h s id n hn
  obtain ⟨m', hm', hgrows'⟩ := h' s id m hm
  exact ⟨m', hm', hgrows.trans hgrows'⟩

theorem modify {f : Namespace → Namespace} (hf : ∀ n, g.get? s i = some n → n.Grows (f n)) :
    g.Grows (g.modify s i f) := by
  intro t j n hn
  rw [Graph.get?_modify]
  split
  · obtain ⟨rfl, rfl⟩ := ‹s = t ∧ i = j›
    exact ⟨f n, by rw [hn, Option.map_some], hf n hn⟩
  · exact ⟨n, hn, .refl n⟩

theorem insertNew (g : Graph) (s : Species) (i : Identity) (r : Reference) :
    g.Grows (g.insertNew s i r) := by
  intro t j n hn
  refine ⟨n, ?_, .refl n⟩
  rw [Graph.get?_insertNew, hn, Option.getD_some, ite_self]

/-- An edge is laid only to a child that has no parent yet. -/
theorem addChild {parent child : Identity} (hok : g.addChild s parent child = .ok g') :
    g.Grows g' := by
  rcases Graph.addChild_eq_ok hok with ⟨_, rfl⟩ | ⟨_, _, _, hnone, _, rfl⟩
  · exact refl g'
  · apply (modify fun n hn => ?_).trans (modify fun n _ => .addChild n child)
    rw [Graph.parent?_of_get? hn] at hnone
    exact .setParent hnone parent

theorem resolveOwner (hok : g.resolveOwner? s i = some g') : g.Grows g' := by
  obtain ⟨owner, _, _, _, _, rfl⟩ := Graph.resolveOwner?_eq_some hok
  exact (modify fun n _ => .addOwned n s i).trans (modify fun n _ => .setOwner n owner)

theorem resolveOwners (s : Species) (ids : List Identity) :
    ∀ g : Graph, g.Grows (Survey.resolveOwners g s ids).1 := by
  induction ids with
  | nil => exact fun g => refl g
  | cons id rest ih =>
    intro g
    unfold Survey.resolveOwners
    cases hok : g.resolveOwner? s id with
    | none => exact ih g
    | some g' => exact (resolveOwner hok).trans (ih g')

end Graph.Grows

/-! ## Surveys -/

/-- The processes are those of before, and every namespace is as it was. -/
structure Survey.Widens (v w : Survey) : Prop where
  processes : w.processes = v.processes
  known : ∀ s id n, v.graph.get? s id = some n → w.graph.get? s id = some n

/-- The processes are those of before, and nothing that was known of a namespace is lost. -/
structure Survey.Grows (v w : Survey) : Prop where
  processes : w.processes = v.processes
  graph : v.graph.Grows w.graph

namespace Survey

variable {u v w : Survey}

theorem Widens.refl (v : Survey) : v.Widens v := ⟨rfl, fun _ _ _ h => h⟩

theorem Widens.trans (h : u.Widens v) (h' : v.Widens w) : u.Widens w :=
  ⟨h'.processes.trans h.processes, fun s id n hn => h'.known s id n (h.known s id n hn)⟩

theorem Widens.grows (h : v.Widens w) : v.Grows w :=
  ⟨h.processes, fun s id n hn => ⟨n, h.known s id n hn, .refl n⟩⟩

/-- A change of the account alone. -/
theorem Grows.of_graph_eq (hgraph : w.graph = v.graph) (hprocesses : w.processes = v.processes) :
    v.Grows w := ⟨hprocesses, hgraph ▸ .refl v.graph⟩

theorem Grows.trans (h : u.Grows v) (h' : v.Grows w) : u.Grows w :=
  ⟨h'.processes.trans h.processes, h.graph.trans h'.graph⟩

/-- Open files and mount points show namespaces that were not known, and touch no other. -/
theorem Widens.steadyInFiles (u : Survey) : SteadyInFiles (Widens u) where
  sighted v s id reference owner _ hnew _ h := by
    refine ⟨h.processes, fun t i n hn => ?_⟩
    have hv := h.known t i n hn
    rw [get?_sighted, if_neg, hv]
    rintro ⟨rfl, rfl⟩
    rw [Graph.contains_iff.2 ⟨n, hv⟩] at hnew
    cases hnew
  skipFileList _ h := ⟨h.processes, h.known⟩
  skipFile _ h := ⟨h.processes, h.known⟩
  skipBindMount _ h := ⟨h.processes, h.known⟩
  unreached _ _ h := ⟨h.processes, h.known⟩
  countSandboxes _ _ h := ⟨h.processes, h.known⟩
  note _ _ h := ⟨h.processes, h.known⟩

/-- The way up adds creators, hidden parents and edges. -/
theorem Grows.steadyUpwards (u : Survey) (s : Species) : SteadyUpwards s (Grows u) where
  createdBy v id creator h := h.trans ⟨rfl, .modify fun n _ => .setCreator n creator⟩
  metParent v parent h := by
    unfold Survey.metParent
    split
    · exact h
    · exact h.trans ⟨rfl, .insertNew v.graph s parent .empty⟩
  addChild _ _ _ _ hok h := h.trans ⟨rfl, .addChild hok⟩

theorem Grows.withOwners (h : u.Grows v) (s : Species) : u.Grows (v.withOwners s) := by
  unfold Survey.withOwners
  split
  · exact h
  · exact h.trans ⟨rfl, .resolveOwners s _ v.graph⟩

end Survey

/-! ## Phases -/

/-- The phases that find more namespaces, and relate them to each other. -/
inductive LaterPhase where
  | held
  | mounted
  | ancestors (s : Species)
  | owners (s : Species)

namespace LaterPhase

/-- The phase itself. -/
def phase (k : Kernel σ φ) : LaterPhase → Phase σ Unit
  | held => k.findHeld
  | mounted => k.findMounted
  | ancestors s => k.findAncestors s
  | owners s => Phase.linkOwners s

/-- Whether it only looks into files. -/
def inFiles : LaterPhase → Bool
  | held | mounted => true
  | ancestors _ | owners _ => false

/-- What phases leave that run one after the other, however each of them comes out. -/
def runAll (k : Kernel σ φ) (l : List LaterPhase) (r : Run σ) : Run σ :=
  l.foldl (fun r p => ((p.phase k).run r).2) r

theorem widens (k : Kernel σ φ) {p : LaterPhase} (hp : p.inFiles = true) (r : Run σ) :
    r.survey.Widens ((p.phase k).run r).2.survey := by
  have h := Survey.Widens.steadyInFiles r.survey
  cases p with
  | held => exact h.findHeld r (.refl r.survey)
  | mounted => exact h.findMounted r (.refl r.survey)
  | ancestors _ => cases hp
  | owners _ => cases hp

theorem grows (k : Kernel σ φ) (p : LaterPhase) (r : Run σ) :
    r.survey.Grows ((p.phase k).run r).2.survey := by
  have hrefl := (Survey.Widens.refl r.survey).grows
  cases p with
  | held => exact (widens k (p := .held) rfl r).grows
  | mounted => exact (widens k (p := .mounted) rfl r).grows
  | ancestors s => exact (Survey.Grows.steadyUpwards r.survey s).findAncestors r hrefl
  | owners s => exact hrefl.withOwners s

theorem widens_runAll (k : Kernel σ φ) (l : List LaterPhase) :
    (∀ p ∈ l, p.inFiles = true) → ∀ r : Run σ, r.survey.Widens (runAll k l r).survey := by
  induction l with
  | nil => exact fun _ r => .refl r.survey
  | cons p rest ih =>
    intro hl r
    exact (widens k (hl p List.mem_cons_self) r).trans
      (ih (fun p hp => hl p (List.mem_cons_of_mem _ hp)) _)

theorem grows_runAll (k : Kernel σ φ) (l : List LaterPhase) :
    ∀ r : Run σ, r.survey.Grows (runAll k l r).survey := by
  induction l with
  | nil => exact fun r => (Survey.Widens.refl r.survey).grows
  | cons p rest ih => exact fun r => (grows k p r).trans (ih _)

end LaterPhase

/-! ## The law -/

/-- Whatever the host answers, whatever was found before, and however each phase comes out: phases
that find namespaces in files and at mount points, go up their hierarchies or link their owners,
in any order and any number, leave the processes as they were and lose no namespace. Each that was
known keeps its reference, its leaders and the owner that was reported, and its parent if it had
one; its children and what it owns stay and come first. Phases that only look into files leave it
as it was. -/
theorem later_phases_take_nothing_back (k : Kernel σ φ) (l : List LaterPhase) (r : Run σ) :
    let w := (LaterPhase.runAll k l r).survey
    w.processes = r.survey.processes ∧
      ∀ s id n, r.survey.graph.get? s id = some n → ∃ m, w.graph.get? s id = some m ∧
        m.reference = n.reference ∧ m.leaders = n.leaders ∧ m.ownerId = n.ownerId ∧
        (∀ parent, n.parent? = some parent → m.parent? = some parent) ∧
        n.children <+: m.children ∧ (∀ t, n.owned t <+: m.owned t) ∧
        ((∀ p ∈ l, p = .held ∨ p = .mounted) → m = n) := by
  intro w
  have hgrows := LaterPhase.grows_runAll k l r
  refine ⟨hgrows.processes, fun s id n hn => ?_⟩
  obtain ⟨m, hm, h⟩ := hgrows.graph s id n hn
  refine ⟨m, hm, h.reference, h.leaders, h.ownerId, h.parent, h.children, h.owned, fun hl => ?_⟩
  have hfiles : ∀ p ∈ l, p.inFiles = true := by
    intro p hp
    rcases hl p hp with rfl | rfl
    · rfl
    · rfl
  have hsame := (LaterPhase.widens_runAll k l hfiles r).known s id n hn
  exact Option.some.inj (hm.symm.trans hsame)

end NamespaceAtlas
