-- One scan of the processes. Each process that can be read joins the namespace
-- that was read, which is known then; the scan tells which processes could
-- not be read.
import NamespaceAtlas.Discovery.Joined
import NamespaceAtlas.Proofs.ProcessTable
import NamespaceAtlas.Proofs.Graph.Relatives
import NamespaceAtlas.Proofs.Discovery.Reports

namespace NamespaceAtlas

/-- The process once it was tried to read its namespace of a species. -/
def Process.tried (p : Process) (s : Species) (found : Option Identity) : Process :=
  match found with
  | some id => { p with joined := p.joined.set s (some id) }
  | none => p

/-- Where nothing is found there was nothing recorded before. -/
theorem Process.tried_eq {p : Process} {s : Species} {found : Option Identity}
    (h : found = none → p.joined.get s = none) :
    p.tried s found = { p with joined := p.joined.set s found } := by
  unfold tried
  cases found with
  | some id => rfl
  | none =>
    have hset : p.joined.set s none = p.joined := by
      rw [← h rfl, BySpecies.set_get]
    rw [hset]

/-- `w` comes from `v` by a scan of the processes of a list for one species. -/
structure Scanned (read : Pid → Species → Option Identity) (s : Species) (pids : List Pid)
    (v w : Survey) : Prop where
  rest : ∃ g t, w = { v with graph := g, processes := t }
  table : ∀ pid, w.processes.get? pid = (v.processes.get? pid).map fun p =>
    if pid ∈ pids then p.tried s (read pid s) else p
  others : ∀ t, t ≠ s → w.graph.ofSpecies t = v.graph.ofSpecies t
  known : ∀ id, w.graph.contains s id = true ↔
    v.graph.contains s id = true ∨ ∃ pid ∈ pids, read pid s = some id
  kinds : ∀ id n, w.graph.get? s id = some n →
    n.kind = .ofSpecies s ∨ ∃ m, v.graph.get? s id = some m ∧ n.kind = m.kind

/-- The namespace with the owner that is reported of it, if one is. -/
def Namespace.reportedBy (n : Namespace) (owner : Option Identity) : Namespace :=
  { n with ownerId := owner.or n.ownerId }

namespace Survey

variable {v : Survey} {s t : Species} {id i : Identity} {r : Reference} {owner : Option Identity}

theorem contains_sighted :
    (v.sighted s id r owner).graph.contains t i = (v.graph.insertNew s id r).contains t i := by
  unfold sighted mapGraph
  cases owner with
  | none => rfl
  | some o => exact Graph.contains_modify ..

theorem ofSpecies_sighted_of_ne (h : t ≠ s) :
    (v.sighted s id r owner).graph.ofSpecies t = v.graph.ofSpecies t := by
  unfold sighted mapGraph
  cases owner with
  | none => exact Graph.ofSpecies_insertNew_of_ne _ _ _ h
  | some o =>
    exact (Graph.ofSpecies_modify_of_ne _ _ _ h).trans (Graph.ofSpecies_insertNew_of_ne _ _ _ h)

/-- A namespace that was sighted is the one that was known, or else a new one, with the owner
that was reported. -/
theorem get?_sighted : (v.sighted s id r owner).graph.get? t i =
    if s = t ∧ id = i then some (((v.graph.get? t i).getD (.new s id r)).reportedBy owner)
    else v.graph.get? t i := by
  unfold sighted mapGraph Namespace.reportedBy
  cases owner with
  | none => exact Graph.get?_insertNew ..
  | some owner =>
    dsimp only
    rw [Graph.get?_modify, Graph.get?_insertNew]
    split
    · rfl
    · rfl

/-- A known namespace stays as it is when it is met again and no other owner is reported. -/
theorem sighted_eq_self {n : Namespace} (hn : v.graph.get? s id = some n)
    (howner : owner.or n.ownerId = n.ownerId) : v.sighted s id r owner = v := by
  have hgraph : (v.sighted s id r owner).graph = v.graph := by
    refine Graph.ext_get? fun t i => ?_
    rw [get?_sighted]
    split
    · rename_i heq
      rw [← heq.1, ← heq.2, hn, Option.getD_some]
      unfold Namespace.reportedBy
      rw [howner]
    · rfl
  exact congrArg (fun graph => { v with graph }) hgraph

/-- A process that is recorded in a namespace already is recorded in it once. -/
theorem joinedBy_eq_self {pid : Pid} {p : Process} (hp : v.processes.get? pid = some p)
    (hjoined : p.joined.get s = some id) : v.joinedBy pid s id = v := by
  have hprocesses : (v.joinedBy pid s id).processes = v.processes := by
    refine ProcessTable.ext_get? fun x => ?_
    refine (Registry.get?_modify ..).trans ?_
    split
    · rename_i hx
      change (v.processes.get? x).map _ = v.processes.get? x
      rw [← Registry.rank_inj.1 hx, hp, Option.map_some, ← hjoined, BySpecies.set_get]
    · rfl
  exact congrArg (fun processes => { v with processes }) hprocesses

/-- A sighting gives a new namespace the kind of its species, and no other a new kind. -/
theorem kind_sighted {n : Namespace} (h : (v.sighted s id r owner).graph.get? t i = some n) :
    n.kind = .ofSpecies t ∨ ∃ m, v.graph.get? t i = some m ∧ n.kind = m.kind := by
  rw [get?_sighted] at h
  split at h
  · rename_i heq
    cases h
    cases hm : v.graph.get? t i with
    | none => exact Or.inl (congrArg Kind.ofSpecies heq.1)
    | some m => exact Or.inr ⟨m, rfl, rfl⟩
  · exact Or.inr ⟨n, h, rfl⟩

end Survey

namespace Scanned

variable {read : Pid → Species → Option Identity} {s : Species} {pids : List Pid} {pid : Pid}
  {id : Identity} {v w u : Survey}

theorem nil : Scanned read s [] v v where
  rest := ⟨_, _, rfl⟩
  table pid := by simp
  others _ _ := rfl
  known id := by simp
  kinds _ n hn := Or.inr ⟨n, hn, rfl⟩

/-- A process that cannot be read leaves no trace. -/
theorem unread (h : read pid s = none) : Scanned read s [pid] v v where
  rest := ⟨_, _, rfl⟩
  table x := by
    have htried :
        (fun p : Process => if x ∈ [pid] then p.tried s (read x s) else p) = fun p => p := by
      refine funext fun p => ?_
      split
      · rename_i hx
        rw [List.mem_singleton.1 hx, h]
        rfl
      · rfl
    rw [htried, Option.map_id']
  others _ _ := rfl
  known id := by simp [h]
  kinds _ n hn := Or.inr ⟨n, hn, rfl⟩

/-- One process that is read. -/
theorem one (h : read pid s = some id) (owner : Option Identity) :
    Scanned read s [pid] v ((v.sighted s id .empty owner).joinedBy pid s id) where
  rest := ⟨_, _, rfl⟩
  table x := by
    refine (Registry.get?_modify ..).trans ?_
    simp only [Registry.rank_inj, List.mem_singleton]
    by_cases hx : pid = x
    · subst hx
      rw [if_pos rfl, h]
      simp only [if_true]
      rfl
    · rw [if_neg hx]
      simp only [Ne.symm hx, if_false]
      exact Option.map_id'.symm
  others t ht := Survey.ofSpecies_sighted_of_ne ht
  known i := by
    change (v.sighted s id .empty owner).graph.contains s i = true ↔ _
    rw [Survey.contains_sighted, Graph.contains_insertNew]
    simp [h, or_comm]
  kinds _ _ hn := Survey.kind_sighted hn

/-- One scan after the other. -/
theorem cons (h : Scanned read s [pid] v w) (h' : Scanned read s pids w u) :
    Scanned read s (pid :: pids) v u where
  rest := by
    obtain ⟨_, _, rfl⟩ := h.rest
    obtain ⟨g, t, rfl⟩ := h'.rest
    exact ⟨g, t, rfl⟩
  table x := by
    have htwice : ∀ p : Process,
        (p.tried s (read x s)).tried s (read x s) = p.tried s (read x s) := by
      intro p
      unfold Process.tried
      split
      · simp
      · rfl
    rw [h'.table, h.table, Option.map_map]
    refine congrArg (Option.map · _) (funext fun p => ?_)
    by_cases hx : x = pid
    · by_cases hin : x ∈ pids
      · simp [hx, hx ▸ hin, hx ▸ htwice p]
      · simp [hx, hx ▸ hin]
    · simp [hx]
  others t ht := (h'.others t ht).trans (h.others t ht)
  known id := by
    rw [h'.known, h.known]
    simp [or_assoc]
  kinds id n hn := by
    rcases h'.kinds id n hn with hkind | ⟨m, hm, hkind⟩
    · exact Or.inl hkind
    · rw [hkind]
      exact h.kinds id m hm

end Scanned

/-! ## The questions -/

section Questions

variable {σ φ : Type} {k : Kernel σ φ} {stands : φ → Identity → Prop}
  {read : Pid → Species → Option Identity} {s : Species} {pid : Pid} {w : Survey}

theorem ends_readJoined (hread : k.Reads stands w.options.procfs read pid s) (st : σ) :
    Ends (k.readJoined s pid) ⟨st, w⟩ fun outcome r =>
      outcome = .ok (read pid s).isSome ∧ Scanned read s [pid] w r.survey := by
  unfold Kernel.readJoined
  rw [ends_bind, ends_survey, andThen_ok, ends_bind, ends_attempt]
  refine Ends.mono (hread st) ?_
  rintro _ st (⟨id, f, rfl, _, hid⟩ | ⟨⟨why, rfl⟩, hnone⟩)
  · rw [andThen_ok, hid]
    dsimp only
    cases (w.graph.get? s id).bind (·.ownerId) with
    | some _ => exact ⟨rfl, Scanned.one hid none⟩
    | none => exact ⟨rfl, Scanned.one hid _⟩
  · rw [hnone]
    exact ⟨rfl, Scanned.unread hnone⟩

/-- A scan that does not run out of time tells which processes cannot be read, and finds the
namespaces of the others. -/
theorem ends_readAllJoined {procfs : Path} (pids : List Pid)
    (hread : ∀ pid ∈ pids, k.Reads stands procfs read pid s) :
    ∀ st w, w.options.procfs = procfs →
      Ends (k.readAllJoined s pids) ⟨st, w⟩
        (barring (w.options.OutOfTime "processes") fun unreadable r =>
          unreadable = (pids.filter fun pid => (read pid s).isNone) ∧
            Scanned read s pids w r.survey) := by
  induction pids with
  | nil => exact fun st w _ => ⟨rfl, Scanned.nil⟩
  | cons pid rest ih =>
    intro st w hprocfs
    unfold Kernel.readAllJoined
    rw [ends_bind]
    refine ends_checkTime_barring (fun st => ?_) fun why st hlate => hlate
    rw [andThen_ok, ends_bind]
    refine (ends_readJoined (hprocfs ▸ hread pid List.mem_cons_self) st).mono ?_
    rintro _ ⟨st, w'⟩ ⟨rfl, h : Scanned read s [pid] w w'⟩
    have hoptions : w'.options = w.options := by
      obtain ⟨g, t, hw⟩ := h.rest
      rw [hw]
    rw [andThen_ok, ends_bind]
    refine (ih (fun x hx => hread x (List.mem_cons_of_mem pid hx)) st w'
      (hoptions ▸ hprocfs)).mono ?_
    rintro (why | unreadable) r hafter
    · rw [hoptions] at hafter
      exact hafter
    · obtain ⟨rfl, h'⟩ := hafter
      rw [andThen_ok, ends_pure, barring_ok, List.filter_cons]
      refine ⟨?_, h.cons h'⟩
      cases read pid s with
      | some _ => rfl
      | none => rfl

end Questions

end NamespaceAtlas
