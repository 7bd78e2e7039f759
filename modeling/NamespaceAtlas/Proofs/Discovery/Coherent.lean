-- Surveys in which every reference stands: what a process, a namespace or a
-- mount table refers to is there, and refers back where it should. Each change
-- that a discovery makes keeps a survey so.
import NamespaceAtlas.Discovery
import NamespaceAtlas.Proofs.Discovery.Settling
import NamespaceAtlas.Proofs.Discovery.Survivors
import NamespaceAtlas.Proofs.Graph.Forest
import NamespaceAtlas.Proofs.Graph.Owners

namespace NamespaceAtlas

/-! ## Graphs that outlast a change -/

/-- No namespace is lost, and none gets a leader. -/
structure Graph.Outlasts (g g' : Graph) : Prop where
  known : ∀ s id, g.contains s id = true → g'.contains s id = true
  leaders : ∀ s id n' pid, g'.get? s id = some n' → pid ∈ n'.leaders →
    ∃ n, g.get? s id = some n ∧ pid ∈ n.leaders

namespace Graph.Outlasts

variable {g g' g'' : Graph} {s : Species} {i : Identity}

theorem trans (h : g.Outlasts g') (h' : g'.Outlasts g'') : g.Outlasts g'' where
  known s id hid := h'.known s id (h.known s id hid)
  leaders s id n pid hn hpid := by
    obtain ⟨m, hm, hpid⟩ := h'.leaders s id n pid hn hpid
    exact h.leaders s id m pid hm hpid

theorem modify (g : Graph) (s : Species) (i : Identity) (f : Namespace → Namespace)
    (hf : ∀ n, (f n).leaders = n.leaders) : g.Outlasts (g.modify s i f) where
  known t j hj := by rwa [Graph.contains_modify]
  leaders t j n pid hn hpid := by
    rw [Graph.get?_modify] at hn
    split at hn
    · obtain ⟨m, hm, rfl⟩ := Option.map_eq_some_iff.1 hn
      exact ⟨m, hm, hf m ▸ hpid⟩
    · exact ⟨n, hn, hpid⟩

theorem insertNew (g : Graph) (s : Species) (i : Identity) (r : Reference) :
    g.Outlasts (g.insertNew s i r) where
  known t j hj := (Graph.contains_insertNew r).2 (Or.inr hj)
  leaders t j n pid hn hpid := by
    rw [Graph.get?_insertNew] at hn
    split at hn
    · cases hm : g.get? t j with
      | none =>
        rw [hm] at hn
        cases hn
        cases hpid
      | some m =>
        rw [hm] at hn
        cases hn
        exact ⟨m, rfl, hpid⟩
    · exact ⟨n, hn, hpid⟩

end Graph.Outlasts

/-! ## The invariant -/

namespace Survey

theorem outlasts_sighted (v : Survey) (s : Species) (id : Identity) (r : Reference)
    (owner : Option Identity) : v.graph.Outlasts (v.sighted s id r owner).graph := by
  unfold sighted mapGraph
  cases owner with
  | none => exact .insertNew v.graph s id r
  | some owner =>
    exact (Graph.Outlasts.insertNew v.graph s id r).trans
      (.modify _ s id (·.setOwnerId owner) fun _ => rfl)

/-- The leaders of a species have joined the namespaces that they lead. -/
def LedIn (v : Survey) (s : Species) : Prop :=
  ∀ id n pid, v.graph.get? s id = some n → pid ∈ n.leaders →
    ∃ p, v.processes.get? pid = some p ∧ p.joined.get s = some id

/-- No process has joined a namespace of a species yet. -/
def Unjoined (v : Survey) (s : Species) : Prop :=
  ∀ pid p, v.processes.get? pid = some p → p.joined.get s = none

variable {v : Survey} {s t : Species} {id : Identity} {pid x : Pid} {p : Process}

theorem of_get?_joinedBy (hp : (v.joinedBy pid s id).processes.get? x = some p) :
    ∃ q, v.processes.get? x = some q ∧
      (p = q ∨ p = { q with joined := q.joined.set s (some id) }) := by
  change (v.processes.registry.modify pid _).get? x = some p at hp
  rw [Registry.get?_modify] at hp
  split at hp
  · obtain ⟨q, hq, rfl⟩ := Option.map_eq_some_iff.1 hp
    exact ⟨q, hq, Or.inr rfl⟩
  · exact ⟨p, hp, Or.inl rfl⟩

/-- What a process has joined of another species stays. -/
theorem exists_get?_joinedBy (hp : v.processes.get? x = some p) (pid : Pid) (ht : t ≠ s)
    (id : Identity) : ∃ q, (v.joinedBy pid s id).processes.get? x = some q ∧
      q.joined.get t = p.joined.get t := by
  have hget : (v.joinedBy pid s id).processes.get? x =
      if Ranked.rank pid = Ranked.rank x then
        (v.processes.get? x).map fun p => { p with joined := p.joined.set s (some id) }
      else v.processes.get? x := Registry.get?_modify ..
  rw [hp] at hget
  split at hget
  · exact ⟨_, hget, BySpecies.get_set_of_ne _ _ ht⟩
  · exact ⟨p, hget, rfl⟩

theorem Unjoined.joinedBy (h : v.Unjoined t) (ht : t ≠ s) (pid : Pid) (id : Identity) :
    (v.joinedBy pid s id).Unjoined t := by
  intro x p hp
  obtain ⟨q, hq, heq | heq⟩ := of_get?_joinedBy hp
  · rw [heq]
    exact h x q hq
  · rw [heq]
    exact (BySpecies.get_set_of_ne _ _ ht).trans (h x q hq)

theorem Unjoined.withoutProcess (h : v.Unjoined t) (pid : Pid) :
    (v.withoutProcess pid).Unjoined t := by
  unfold Survey.withoutProcess
  split
  · rename_i hpid
    obtain ⟨p, hp⟩ := Registry.contains_iff.1 hpid
    intro x q hq
    have hget := ProcessTable.get?_erase (x := x) hp
    rw [hq] at hget
    split at hget
    · cases hget
    · obtain ⟨m, hm, rfl⟩ := Option.map_eq_some_iff.1 hget.symm
      exact h x m hm
  · exact h

/-- Settling takes processes out, and lets none join. -/
theorem Unjoined.settled (h : v.Unjoined t) (s : Species) (unreadable : List Pid) :
    (v.settled s unreadable).Unjoined t :=
  settled_induction (Q := fun v => v.Unjoined t) (fun _ _ h => h)
    (fun _ pid h => h.withoutProcess pid) v s unreadable h

end Survey

/-- Every reference of a survey stands, but perhaps those to leaders. -/
structure Grounded (o : Options) (v : Survey) : Prop where
  options : v.options = o
  included : ∀ s id, v.graph.contains s id = true → o.includes s = true
  linked : v.processes.Linked
  joined : ∀ pid p s id, v.processes.get? pid = some p → p.joined.get s = some id →
    v.graph.contains s id = true
  forest : Forest v.graph
  titled : Titled v.graph
  mounted : ∀ id l, v.mounts.get? id = some l → v.graph.contains .mount id = true

/-- Every reference of a survey stands. -/
structure Coherent (o : Options) (v : Survey) : Prop extends Grounded o v where
  led : ∀ s, v.LedIn s

namespace Coherent

variable {o : Options} {v : Survey} {s t : Species} {id : Identity} {pid : Pid}

/-- There are no namespaces of species that are not in scope. -/
theorem isEmpty_ofSpecies (h : Coherent o v) (hs : o.includes s = false) :
    (v.graph.ofSpecies s).isEmpty = true := by
  cases hentries : (v.graph.ofSpecies s).entries with
  | nil => exact List.isEmpty_iff.2 hentries
  | cons e rest =>
    have hget : v.graph.get? s e.1 = some e.2 :=
      Registry.mem_entries_iff.1 (hentries ▸ List.mem_cons_self)
    rw [h.included s e.1 (Graph.contains_iff.2 ⟨e.2, hget⟩)] at hs
    cases hs

/-- The children of a namespace have it as their parent. -/
theorem parent_of_mem_children (h : Coherent o v) {n : Namespace} (hn : v.graph.get? s id = some n)
    {child : Identity} (hchild : child ∈ n.children) :
    ∃ m, v.graph.get? s child = some m ∧ m.parent? = some id := by
  obtain ⟨m, hm⟩ := Graph.contains_iff.1 (h.forest.contains_of_mem_children hn hchild)
  exact ⟨m, hm, (h.forest.parent?_eq_some_iff hm).2 ⟨n, hn, hchild⟩⟩

/-- Only user namespaces own others. -/
theorem eq_user_of_mem_owned (h : Coherent o v) {n : Namespace}
    (hn : v.graph.get? s id = some n) {i : Identity} (hi : i ∈ n.owned t) : s = .user := by
  have hfits := (h.forest.filed s id n hn).2.2
  unfold Namespace.owned at hi
  revert hfits hi
  cases n.kind with
  | user u => simp [Kind.fits]
  | hierarchical _ => simp [Kind.holdings?]
  | plain => simp [Kind.holdings?]

/-- Where no process has joined a namespace there are no leaders. -/
theorem leaders_eq_nil (h : Coherent o v) (hs : v.Unjoined s) {n : Namespace}
    (hn : v.graph.get? s id = some n) : n.leaders = [] := by
  apply List.eq_nil_iff_forall_not_mem.2
  intro pid hpid
  obtain ⟨p, hp, hjoined⟩ := h.led s id n pid hn hpid
  rw [hs pid p hp] at hjoined
  cases hjoined

/-! ## Changes of the account -/

theorem mapDiagnostics (h : Coherent o v) (f : Diagnostics → Diagnostics) :
    Coherent o (v.mapDiagnostics f) :=
  ⟨⟨h.options, h.included, h.linked, h.joined, h.forest, h.titled, h.mounted⟩, h.led⟩

/-! ## Changes of the graph -/

theorem withGraph (h : Coherent o v) {g : Graph} (hg : v.graph.Outlasts g)
    (hscope : ∀ s id, g.contains s id = true → v.graph.contains s id = true ∨ o.includes s = true)
    (hforest : Forest g) (htitled : Titled g) : Coherent o { v with graph := g } where
  options := h.options
  included s id hid := by
    rcases hscope s id hid with hold | hnew
    · exact h.included s id hold
    · exact hnew
  linked := h.linked
  joined pid p s id hp hid := hg.known s id (h.joined pid p s id hp hid)
  forest := hforest
  titled := htitled
  mounted id l hl := hg.known .mount id (h.mounted id l hl)
  led s id n pid hn hpid := by
    obtain ⟨m, hm, hpid⟩ := hg.leaders s id n pid hn hpid
    exact h.led s id m pid hm hpid

/-- A change of one namespace that leaves its place, its title and its leaders alone. -/
theorem modify (h : Coherent o v) (s : Species) (id : Identity) {f : Namespace → Namespace}
    (hleaders : ∀ n, (f n).leaders = n.leaders) (hplace : ∀ n, (f n).place = n.place)
    (htitle : ∀ n, (f n).title = n.title) : Coherent o (v.mapGraph (·.modify s id f)) := by
  apply h.withGraph (.modify v.graph s id f hleaders)
  · intro t j hj
    rw [Graph.contains_modify] at hj
    exact Or.inl hj
  · exact h.forest.samePlaces (Graph.samePlaces_modify hplace)
  · exact h.titled.sameTitles (Graph.sameTitles_modify htitle)

theorem insertNew (h : Coherent o v) (hs : o.includes s = true) (id : Identity) (r : Reference) :
    Coherent o (v.mapGraph (·.insertNew s id r)) := by
  apply h.withGraph (.insertNew v.graph s id r)
  · intro t j hj
    rcases (Graph.contains_insertNew r).1 hj with ⟨rfl, _⟩ | hj
    · exact Or.inr hs
    · exact Or.inl hj
  · exact h.forest.insertNew s id r
  · exact h.titled.insertNew s id r

theorem setOwnerId (h : Coherent o v) (hnone : v.graph.ownerId? s id = none) (owner : Identity) :
    Coherent o (v.mapGraph (·.modify s id (·.setOwnerId owner))) := by
  apply h.withGraph (.modify v.graph s id (·.setOwnerId owner) fun _ => rfl)
  · intro t j hj
    rw [Graph.contains_modify] at hj
    exact Or.inl hj
  · exact h.forest.samePlaces (Graph.samePlaces_modify (by simp))
  · exact h.titled.setOwnerId hnone owner

/-- A sighting tells an owner only of a namespace of which none was reported. -/
theorem sighted (h : Coherent o v) (hs : o.includes s = true) {owner : Option Identity}
    (howner : owner = none ∨ v.graph.ownerId? s id = none) (r : Reference) :
    Coherent o (v.sighted s id r owner) := by
  have hnew := h.insertNew hs id r
  cases owner with
  | none => exact hnew
  | some owner =>
    refine hnew.setOwnerId ?_ owner
    exact Graph.ownerId?_insertNew.trans (howner.resolve_left nofun)

theorem metParent (h : Coherent o v) (hs : o.includes s = true) (parent : Identity) :
    Coherent o (v.metParent s parent) := by
  unfold Survey.metParent
  split
  · exact h
  · exact (h.insertNew hs parent .empty).mapDiagnostics fun d => { d with hidden := d.hidden + 1 }

theorem createdBy (h : Coherent o v) (id : Identity) (creator : UInt32) :
    Coherent o (v.createdBy id creator) :=
  h.modify .user id (fun _ => rfl) (by simp) (by simp)

theorem addChild (h : Coherent o v) {parent child : Identity} {g : Graph}
    (hok : v.graph.addChild s parent child = .ok g) : Coherent o { v with graph := g } := by
  rcases Graph.addChild_eq_ok hok with ⟨_, rfl⟩ | ⟨_, _, _, _, _, rfl⟩
  · exact h
  · apply h.withGraph
    · exact (Graph.Outlasts.modify _ s child (·.setParent parent) fun _ => rfl).trans
        (.modify _ s parent (·.addChild child) fun _ => rfl)
    · intro t j hj
      rw [Graph.contains_link] at hj
      exact Or.inl hj
    · exact h.forest.addChild hok
    · apply h.titled.sameTitles
      exact (Graph.sameTitles_modify fun n => n.title_setParent parent).trans
        (Graph.sameTitles_modify fun n => n.title_addChild child)

theorem resolveOwner (h : Coherent o v) {g : Graph} (hok : v.graph.resolveOwner? s id = some g) :
    Coherent o { v with graph := g } := by
  obtain ⟨owner, user, _, _, _, hg⟩ := Graph.resolveOwner?_eq_some hok
  apply h.withGraph
  · rw [hg]
    exact (Graph.Outlasts.modify _ .user owner (·.addOwned s id) fun _ => rfl).trans
      (.modify _ s id (·.setOwner owner) fun _ => rfl)
  · intro t j hj
    rw [hg, Graph.contains_modify, Graph.contains_modify] at hj
    exact Or.inl hj
  · exact h.forest.resolveOwner hok
  · exact h.titled.resolveOwner hok

theorem resolveOwners (s : Species) (ids : List Identity) :
    ∀ v, Coherent o v → Coherent o { v with graph := (Survey.resolveOwners v.graph s ids).1 } := by
  induction ids with
  | nil => exact fun v h => h
  | cons id rest ih =>
    intro v h
    unfold Survey.resolveOwners
    cases hok : v.graph.resolveOwner? s id with
    | none => exact ih v h
    | some g => exact ih { v with graph := g } (h.resolveOwner hok)

theorem withOwners (h : Coherent o v) (s : Species) : Coherent o (v.withOwners s) := by
  unfold Survey.withOwners
  split
  · exact h
  · exact (resolveOwners s _ v h).mapDiagnostics fun d => { d with unowned := _ }

/-! ## Scans of the processes -/

theorem joinedBy (h : Coherent o v) (hknown : v.graph.contains s id = true)
    (hs : ∀ i n, v.graph.get? s i = some n → n.leaders = []) (pid : Pid) :
    Coherent o (v.joinedBy pid s id) where
  options := h.options
  included := h.included
  linked := h.linked.join pid (·.set s (some id))
  joined x p t i hp hjoined := by
    obtain ⟨q, hq, hrest⟩ := Survey.of_get?_joinedBy hp
    rcases hrest with heq | heq
    · rw [heq] at hjoined
      exact h.joined x q t i hq hjoined
    · rw [heq] at hjoined
      by_cases ht : t = s
      · subst ht
        rw [BySpecies.get_set] at hjoined
        cases hjoined
        exact hknown
      · rw [BySpecies.get_set_of_ne _ _ ht] at hjoined
        exact h.joined x q t i hq hjoined
  forest := h.forest
  titled := h.titled
  mounted := h.mounted
  led t i n x hn hx := by
    have ht : t ≠ s := by
      rintro rfl
      rw [hs i n hn] at hx
      cases hx
    obtain ⟨p, hp, hjoined⟩ := h.led t i n x hn hx
    obtain ⟨q, hq, hsame⟩ := Survey.exists_get?_joinedBy hp pid ht id
    exact ⟨q, hq, hsame.trans hjoined⟩

end Coherent

/-! ## Settling -/

namespace Grounded

variable {o : Options} {v : Survey} {s t : Species} {id : Identity} {pid : Pid}

theorem withoutProcess (h : Grounded o v) (pid : Pid) : Grounded o (v.withoutProcess pid) := by
  unfold Survey.withoutProcess
  split
  · rename_i hpid
    obtain ⟨p, hp⟩ := Registry.contains_iff.1 hpid
    exact {
      options := h.options
      included := h.included
      linked := h.linked.erase pid
      joined := by
        intro x q t i hq hjoined
        have hget := ProcessTable.get?_erase (x := x) hp
        rw [hq] at hget
        split at hget
        · cases hget
        · obtain ⟨m, hm, rfl⟩ := Option.map_eq_some_iff.1 hget.symm
          exact h.joined x m t i hm hjoined
      forest := h.forest
      titled := h.titled
      mounted := h.mounted }
  · exact h

theorem foldl_withoutProcess (pids : List Pid) :
    ∀ v, Grounded o v → Grounded o (pids.foldl Survey.withoutProcess v) ∧
      (pids.foldl Survey.withoutProcess v).graph = v.graph := by
  induction pids with
  | nil => exact fun v h => ⟨h, rfl⟩
  | cons pid rest ih =>
    intro v h
    obtain ⟨hrest, hgraph⟩ := ih (v.withoutProcess pid) (h.withoutProcess pid)
    refine ⟨hrest, hgraph.trans ?_⟩
    unfold Survey.withoutProcess
    split
    · rfl
    · rfl

/-- Elections give every species leaders that have joined, if each of the others has such
already. -/
theorem foldl_withLeaders (h : Grounded o v) {ts : List Species} (hts : ts.Nodup)
    (hrest : ∀ t, t ∉ ts → v.LedIn t) : Coherent o (ts.foldl Survey.withLeaders v) := by
  obtain ⟨g, hg, hget⟩ := Survey.foldl_withLeaders ts v hts
  have hcontains : ∀ t i, g.contains t i = v.graph.contains t i := by
    intro t i
    change (g.get? t i).isSome = (v.graph.get? t i).isSome
    rw [hget]
    split
    · exact Option.isSome_map
    · rfl
  have hview : ∀ {α : Type} (view : Namespace → α),
      (∀ n leaders reference, view { n with leaders, reference } = view n) →
      ∀ t i, (g.get? t i).map view = (v.graph.get? t i).map view := by
    intro α view hsame t i
    rw [hget]
    split
    · rw [Option.map_map]
      refine congrArg (Option.map · _) (funext fun n => ?_)
      obtain ⟨leaders, reference, helect⟩ :=
        Namespace.elect_eq v.processes v.options.procfs t i n
      rw [Function.comp_apply, helect]
      exact hsame n leaders reference
    · rfl
  rw [hg]
  exact {
    options := h.options
    included := fun t i hi => h.included t i (hcontains t i ▸ hi)
    linked := h.linked
    joined := fun x p t i hp hjoined => (hcontains t i).symm ▸ h.joined x p t i hp hjoined
    forest := h.forest.samePlaces (hview Namespace.place fun _ _ _ => rfl)
    titled := h.titled.sameTitles (hview Namespace.title fun _ _ _ => rfl)
    mounted := fun i l hl => (hcontains .mount i).symm ▸ h.mounted i l hl
    led := by
      intro t i n pid hn hpid
      change g.get? t i = some n at hn
      rw [hget] at hn
      split at hn
      · obtain ⟨m, _, rfl⟩ := Option.map_eq_some_iff.1 hn
        exact Namespace.joined_of_mem_elect h.linked hpid
      · rename_i ht
        exact hrest t ht i n pid hn hpid }

end Grounded

namespace Coherent

variable {o : Options} {v : Survey} {s t : Species} {id : Identity} {pid : Pid}

theorem settled (h : Coherent o v) (s : Species) (unreadable : List Pid) :
    Coherent o (v.settled s unreadable) := by
  unfold Survey.settled
  split
  · exact h.foldl_withLeaders (List.nodup_singleton s) fun t _ => h.led t
  · obtain ⟨hrest, hgraph⟩ := Grounded.foldl_withoutProcess unreadable v h.toGrounded
    apply hrest.foldl_withLeaders (Survey.nodup_otherSpecies _ s)
    intro t ht i n pid hn
    have hempty : (v.graph.ofSpecies t).isEmpty = true := by
      rw [← hgraph]
      simp only [List.mem_cons, Survey.mem_otherSpecies, not_or] at ht
      simpa [ht.1] using ht.2
    rw [hgraph, Graph.get?_of_isEmpty hempty i] at hn
    cases hn

/-- At the start there are processes only, and nothing is recorded of them. -/
theorem fresh {l : List Process} (hl : ∀ p ∈ l, p.Fresh) (o : Options)
    (own : BySpecies (Option Identity)) :
    Coherent o { options := o, processes := .ofList l, own } ∧
      ∀ s, Survey.Unjoined { options := o, processes := .ofList l, own } s := by
  have hunlinked : ∀ p ∈ l, p.Unlinked := fun p hp => (hl p hp).1
  have hjoined : ∀ pid p s, (ProcessTable.ofList l).get? pid = some p → p.joined.get s = none := by
    intro pid p s hp
    rw [ProcessTable.get?_ofList hunlinked] at hp
    obtain ⟨q, hq, rfl⟩ := Option.map_eq_some_iff.1 hp
    change q.joined.get s = none
    rw [(hl q (ProcessTable.mem_of_get?_register hq).1).2]
    exact BySpecies.get_same ..
  refine ⟨?_, fun s pid p hp => hjoined pid p s hp⟩
  constructor
  · exact {
      options := rfl
      included := fun s id hid => by
        obtain ⟨n, hn⟩ := Graph.contains_iff.1 hid
        simp at hn
      linked := .ofList hunlinked
      joined := fun pid p s id hp hid => by
        rw [hjoined pid p s hp] at hid
        cases hid
      forest := .empty
      titled := .empty
      mounted := fun id l hl => by cases hl }
  · intro s id n pid hn
    simp at hn

end Coherent

end NamespaceAtlas
