-- Mount tables that lead from one mount namespace to the next. A world says
-- what each table holds and where its mount points lead; it settles which
-- namespaces are within reach, whatever kernel shows it.
import NamespaceAtlas.Proofs.Kept
import NamespaceAtlas.Proofs.Discovery.Scan

namespace NamespaceAtlas

variable {σ φ : Type}

/-- A namespace that was not known is recorded as a new one, with its owner. -/
theorem Survey.get?_sighted_new {v : Survey} {s t : Species} {id i : Identity} {r : Reference}
    {owner : Option Identity} (h : v.graph.contains s id = false) :
    (v.sighted s id r owner).graph.get? t i =
      if s = t ∧ id = i then some { Namespace.new s id r with ownerId := owner }
      else v.graph.get? t i := by
  have hnone : v.graph.get? s id = none := Graph.get?_of_contains_eq_false h
  rw [get?_sighted]
  split
  · rename_i heq
    rw [← heq.1, ← heq.2, hnone, Option.getD_none]
    exact congrArg (fun ownerId => some { Namespace.new s id r with ownerId }) (Option.or_none)
  · rfl

/-- The mount tables of a host, and what stands at their mount points. -/
structure MountWorld where
  /-- Our own mount namespace. -/
  own : Identity
  /-- How our own mount namespace is addressed. -/
  home : Reference
  /-- The mount namespaces that can be opened. -/
  opens : Identity → Bool
  /-- The mount table of each mount namespace, where it can be read. -/
  table : Identity → Option Bytes
  /-- The namespace that a mount point of a mount namespace leads to. -/
  found : Identity → Path → Option Identity

namespace MountWorld

variable (W : MountWorld)

/-- The mounted namespace files that a mount namespace lists. -/
def entries (place : Identity) : List Mount :=
  match W.table place with
  | none => []
  | some table => (Mount.ofTable table).filter Mount.isNamespace

/-- An entry gives a namespace: its root names one of a species in scope, and the mount point
leads to a file with the inode that is named. -/
def Gives (o : Options) (place : Identity) (m : Mount) (s : Species) (id : Identity) : Prop :=
  ∃ inode, Species.parseText? m.root = some (s, inode) ∧ o.includes s = true ∧
    W.found place m.point = some id ∧ id.hasInode inode = true

/-- The namespaces within reach: those that are known, those that our own mount table gives, and
those that the table of another mount namespace within reach gives, if that can be opened. -/
inductive Reachable (v : Survey) : Species → Identity → Prop
  | known {s id} : v.graph.contains s id = true → Reachable v s id
  | home {m s id} : m ∈ W.entries W.own → W.Gives v.options W.own m s id → Reachable v s id
  | inside {place m s id} : Reachable v .mount place → place ≠ W.own → W.opens place = true →
      m ∈ W.entries place → W.Gives v.options place m s id → Reachable v s id

/-- The record of a mount namespace that was found at a path. -/
def FoundAt (reference : Reference) (id : Identity) (n : Namespace) : Prop :=
  ∃ owner, n = { Namespace.new .mount id reference with ownerId := owner }

/-- The records that mount namespaces within reach can have. One that is found by a mount is
addressed by way of the mount namespace that lists it. -/
inductive Recorded (v : Survey) : Identity → Namespace → Prop
  | known {id n} : v.graph.get? .mount id = some n → Recorded v id n
  | home {m id n} : m ∈ W.entries W.own → W.Gives v.options W.own m .mount id →
      FoundAt (W.home.join m.point) id n → Recorded v id n
  | inside {place p m id n} : Recorded v place p → place ≠ W.own → W.opens place = true →
      m ∈ W.entries place → W.Gives v.options place m .mount id →
      FoundAt (p.reference.join m.point) id n → Recorded v id n

variable {W} {o : Options} {place : Identity} {m : Mount} {s t : Species} {id i : Identity}

theorem gives_iff {inode : UInt64} (hroot : Species.parseText? m.root = some (s, inode))
    (hs : o.includes s = true) : W.Gives o place m t i ↔
      t = s ∧ W.found place m.point = some i ∧ i.hasInode inode = true := by
  unfold Gives
  rw [hroot]
  constructor
  · rintro ⟨_, heq, _, hi, hinode⟩
    cases heq
    exact ⟨rfl, hi, hinode⟩
  · rintro ⟨rfl, hi, hinode⟩
    exact ⟨inode, rfl, hs, hi, hinode⟩

/-! ## What the entries of a table add -/

/-- `g'` comes from `g` by what the entries of a list give, and `found` are the new mount
namespaces. The reference is that of the mount namespace that lists them. -/
structure Gleaned (W : MountWorld) (o : Options) (place : Identity) (reference : Reference)
    (l : List Mount) (found : List Identity) (g g' : Graph) : Prop where
  known : ∀ s id, g'.contains s id = true ↔
    g.contains s id = true ∨ ∃ m ∈ l, W.Gives o place m s id
  record : ∀ id n, g'.get? .mount id = some n → g.get? .mount id = some n ∨
    ∃ m ∈ l, W.Gives o place m .mount id ∧ FoundAt (reference.join m.point) id n
  nodup : found.Nodup
  new : ∀ id, id ∈ found ↔ g.contains .mount id = false ∧ g'.contains .mount id = true

variable {reference : Reference} {l l' : List Mount} {found found' : List Identity}
  {g g' g'' : Graph}

/-- Where nothing is given but what is known, nothing is new. -/
theorem Gleaned.stay (h : ∀ m ∈ l, ∀ s id, W.Gives o place m s id → g.contains s id = true) :
    W.Gleaned o place reference l [] g g where
  known s id := by
    constructor
    · exact Or.inl
    · rintro (hid | ⟨m, hm, hgives⟩)
      · exact hid
      · exact h m hm s id hgives
  record id n hn := Or.inl hn
  nodup := List.nodup_nil
  new id := by simp

theorem Gleaned.pass (h : ∀ s id, W.Gives o place m s id → g.contains s id = true) :
    W.Gleaned o place reference [m] [] g g :=
  .stay fun _ hm s id hgives => h s id (List.mem_singleton.1 hm ▸ hgives)

theorem Gleaned.trans (h : W.Gleaned o place reference l found g g')
    (h' : W.Gleaned o place reference l' found' g' g'') :
    W.Gleaned o place reference (l ++ l') (found ++ found') g g'' where
  known s id := by
    simp only [h'.known, h.known, List.mem_append, or_and_right, exists_or, or_assoc]
  record id n hn := by
    rcases h'.record id n hn with hn | ⟨m, hm, hgives, hfound⟩
    · rcases h.record id n hn with hn | ⟨m, hm, hgives, hfound⟩
      · exact Or.inl hn
      · exact Or.inr ⟨m, List.mem_append_left l' hm, hgives, hfound⟩
    · exact Or.inr ⟨m, List.mem_append_right l hm, hgives, hfound⟩
  nodup := by
    refine List.nodup_append.2 ⟨h.nodup, h'.nodup, ?_⟩
    rintro id hid _ hid' rfl
    have hknown := ((h.new id).1 hid).2
    rw [((h'.new id).1 hid').1] at hknown
    cases hknown
  new id := by
    have hmore := (h.known .mount id).2 ∘ Or.inl
    have hmore' := (h'.known .mount id).2 ∘ Or.inl
    rw [List.mem_append, h.new, h'.new]
    cases hg : g.contains .mount id with
    | true => simp [hmore hg]
    | false =>
      cases hg' : g'.contains .mount id with
      | true => simp [hmore' hg']
      | false => simp

/-- As many mount namespaces come in as are found. -/
theorem Gleaned.length_ids (h : W.Gleaned o place reference l found g g') :
    (g'.ids .mount).length = (g.ids .mount).length + found.length := by
  have hnodup : (g.ids .mount ++ found).Nodup := by
    refine List.nodup_append.2 ⟨Graph.nodup_ids _ _, h.nodup, ?_⟩
    rintro id hid _ hid' rfl
    rw [Graph.mem_ids_iff, ((h.new id).1 hid').1] at hid
    cases hid
  have hperm : (g'.ids .mount).Perm (g.ids .mount ++ found) := by
    rw [List.perm_ext_iff_of_nodup (Graph.nodup_ids _ _) hnodup]
    intro id
    rw [List.mem_append, h.new, Graph.mem_ids_iff, Graph.mem_ids_iff]
    cases hid : g.contains .mount id with
    | true => simp [(h.known .mount id).2 (Or.inl hid)]
    | false => simp
  rw [hperm.length_eq, List.length_append]

/-- One new namespace is recorded. -/
theorem Gleaned.sighted {v : Survey} (hnew : v.graph.contains s id = false)
    (hgives : W.Gives o place m s id)
    (honly : ∀ t i, W.Gives o place m t i → t = s ∧ i = id) (owner : Option Identity) :
    W.Gleaned o place reference [m] (if s = .mount then [id] else []) v.graph
      (v.sighted s id (reference.join m.point) owner).graph := by
  have hknown : ∀ t i, (v.sighted s id (reference.join m.point) owner).graph.contains t i = true ↔
      (s = t ∧ id = i) ∨ v.graph.contains t i = true := by
    intro t i
    rw [Survey.contains_sighted, Graph.contains_insertNew]
  constructor
  · intro t i
    rw [hknown, or_comm]
    refine or_congr_right ⟨?_, ?_⟩
    · rintro ⟨rfl, rfl⟩
      exact ⟨m, List.mem_singleton_self m, hgives⟩
    · rintro ⟨m', hm', hgives'⟩
      rw [List.mem_singleton.1 hm'] at hgives'
      obtain ⟨rfl, rfl⟩ := honly t i hgives'
      exact ⟨rfl, rfl⟩
  · intro i n hn
    rw [Survey.get?_sighted_new hnew] at hn
    split at hn
    · rename_i heq
      obtain ⟨rfl, rfl⟩ := heq
      exact Or.inr ⟨m, List.mem_singleton_self m, hgives, owner, (Option.some.inj hn).symm⟩
    · exact Or.inl hn
  · split
    · exact List.nodup_singleton id
    · exact List.nodup_nil
  · intro i
    rw [hknown]
    split
    · rename_i hs
      subst hs
      rw [List.mem_singleton]
      constructor
      · rintro rfl
        exact ⟨hnew, Or.inl ⟨rfl, rfl⟩⟩
      · rintro ⟨hi, ⟨_, rfl⟩ | hi'⟩
        · rfl
        · rw [hi] at hi'
          cases hi'
    · rename_i hs
      simp [hs]

end MountWorld

/-! ## Kernels that show a world -/

namespace Kernel

variable (k : Kernel σ φ)

/-- The answers of a kernel are those of a world. Between visits it is `calm`; while a mount
namespace is visited, `shows` says that its files are seen through a gateway. -/
structure Shows (W : MountWorld) (calm : σ → Prop) (shows : Gateway → Identity → σ → Prop) :
    Prop where
  identity : ∀ st, calm st → Ends (k.identityAt "/proc/self/ns/mnt") st fun outcome st' =>
    outcome = .ok W.own ∧ calm st'
  reference : ∀ st, calm st → (k.ownReference W.own st).1 = W.home ∧
    calm (k.ownReference W.own st).2
  home : ∀ st, calm st → shows (.own W.home) W.own st
  table : ∀ g place st, shows g place st →
    (k.contents g.tablePath st).1.toOption = W.table place ∧
    shows g place (k.contents g.tablePath st).2
  found : ∀ g place m st, m ∈ W.entries place → shows g place st →
    Ends (k.openedMountPoint g m) st fun outcome st' =>
      outcome.toOption.map (·.1) = W.found place m.point ∧ shows g place st'
  owner : ∀ g place s f st, shows g place st → shows g place (k.reportedOwner s f st).2
  close : ∀ g place st, shows g place st → calm (k.close g st).2

/-- Whether a mount namespace can be opened depends on its identity alone, whichever record of it
is used: a gateway shows it, or there is none. -/
def Admits (W : MountWorld) (calm : σ → Prop) (shows : Gateway → Identity → σ → Prop)
    (v : Survey) : Prop :=
  ∀ id n st, W.Recorded v id n → id ≠ W.own → calm st →
    Ends (k.gatewayOf n v.processes v.options.attachLimit) st fun outcome st' =>
      (∃ g, outcome = .ok g ∧ W.opens id = true ∧ shows g id st') ∨
      (∃ why, outcome = .error why) ∧ W.opens id = false ∧ calm st'

end Kernel

/-! ## Looking at one table -/

/-- What a look at mount tables leaves alone in a survey. -/
structure Survey.Beside (v w : Survey) : Prop where
  options : w.options = v.options
  processes : w.processes = v.processes
  unreachable : w.diagnostics.unreachable = v.diagnostics.unreachable

theorem Survey.Beside.rfl {v : Survey} : v.Beside v := by
  constructor <;> exact Eq.refl _

theorem Survey.Beside.trans {u v w : Survey} (h : u.Beside v) (h' : v.Beside w) : u.Beside w where
  options := h'.options.trans h.options
  processes := h'.processes.trans h.processes
  unreachable := h'.unreachable.trans h.unreachable

/-- How a look at some entries of a table ends. -/
def MountWorld.Looked (W : MountWorld) (shows : Gateway → Identity → σ → Prop) (g : Gateway)
    (place : Identity) (l : List Mount) (v : Survey) (outcome : Except Error (List Identity))
    (r : Run σ) : Prop :=
  ∃ found, outcome = .ok found ∧ shows g place r.kernel ∧ v.Beside r.survey ∧
    W.Gleaned v.options place g.reference l found v.graph r.survey.graph

namespace Kernel.Shows

variable {k : Kernel σ φ} {W : MountWorld} {calm : σ → Prop}
  {shows : Gateway → Identity → σ → Prop} {g : Gateway} {place : Identity} {m : Mount}
  {s : Species} {inode : UInt64} {r : Run σ}

theorem ends_findMountedAt (hk : k.Shows W calm shows) (hm : m ∈ W.entries place)
    (hroot : Species.parseText? m.root = some (s, inode))
    (hs : r.survey.options.includes s = true) (h : shows g place r.kernel) :
    Ends (k.findMountedAt g m s inode) r fun outcome r' =>
      W.Looked shows g place [m] r.survey (outcome.map Option.toList) r' := by
  unfold findMountedAt
  rw [ends_bind, ends_attempt]
  refine Ends.mono (hk.found g place m r.kernel hm h) ?_
  rintro outcome st ⟨hfound, hst⟩
  rw [andThen_ok]
  have hgives : ∀ {t i}, W.Gives r.survey.options place m t i →
      t = s ∧ W.found place m.point = some i ∧ i.hasInode inode = true :=
    (MountWorld.gives_iff hroot hs).1
  cases outcome with
  | error why =>
    refine ⟨[], rfl, hst, ⟨rfl, rfl, rfl⟩, .pass fun t i hi => ?_⟩
    obtain ⟨_, hi, _⟩ := hgives hi
    rw [← hfound] at hi
    cases hi
  | ok x =>
    obtain ⟨id, f⟩ := x
    have hfound : W.found place m.point = some id := hfound.symm
    have honly : ∀ t i, W.Gives r.survey.options place m t i → t = s ∧ i = id := by
      intro t i hi
      obtain ⟨ht, hi, _⟩ := hgives hi
      rw [hfound] at hi
      exact ⟨ht, (Option.some.inj hi).symm⟩
    dsimp only
    split
    · rename_i hinode
      refine ⟨[], rfl, hst, ⟨rfl, rfl, rfl⟩, .pass fun t i hi => ?_⟩
      obtain ⟨rfl, rfl⟩ := honly t i hi
      simp [(hgives hi).2.2] at hinode
    · rename_i hinode
      rw [Bool.not_eq_true, Bool.not_eq_false'] at hinode
      rw [ends_bind, ends_survey, andThen_ok]
      split
      · rename_i hknown
        refine ⟨[], rfl, hst, .rfl, .pass fun t i hi => ?_⟩
        obtain ⟨rfl, rfl⟩ := honly t i hi
        exact hknown
      · rename_i hnew
        have hid := (MountWorld.gives_iff hroot hs).2 ⟨rfl, hfound, hinode⟩
        refine ⟨if s = .mount then [id] else [], ?_, hk.owner g place s f _ hst, ⟨rfl, rfl, rfl⟩,
          .sighted (Bool.eq_false_iff.2 hnew) hid honly _⟩
        by_cases hmount : s = .mount
        · simp only [hmount, if_true]
          rfl
        · simp only [hmount, if_false]
          rfl

theorem ends_lookAtMount (hk : k.Shows W calm shows) (hlimit : r.survey.options.limit = none)
    (hm : m ∈ W.entries place) (h : shows g place r.kernel) :
    Ends (k.lookAtMount g m) r fun outcome r' =>
      W.Looked shows g place [m] r.survey (outcome.map Option.toList) r' := by
  unfold lookAtMount
  rw [ends_bind]
  apply ends_checkTime hlimit
  rw [andThen_ok]
  split
  · rename_i hroot
    refine ⟨[], rfl, h, .rfl, .pass fun s id hid => ?_⟩
    obtain ⟨inode, hsome, _⟩ := hid
    rw [hroot] at hsome
    cases hsome
  · rename_i s inode hroot
    rw [ends_bind, ends_survey, andThen_ok]
    split
    · rename_i hs
      exact hk.ends_findMountedAt hm hroot hs h
    · rename_i hs
      refine ⟨[], rfl, h, .rfl, .pass fun t id hid => ?_⟩
      obtain ⟨_, hsome, ht, _⟩ := hid
      rw [hroot] at hsome
      cases hsome
      exact absurd ht hs

theorem ends_lookAtMounts (hk : k.Shows W calm shows) (hlimit : r.survey.options.limit = none)
    {l : List Mount} (hl : ∀ m ∈ l, m ∈ W.entries place) (h : shows g place r.kernel) :
    Ends (k.lookAtMounts g l) r (W.Looked shows g place l r.survey) := by
  induction l generalizing r with
  | nil => exact ⟨[], rfl, h, .rfl, .stay fun m hm => absurd hm List.not_mem_nil⟩
  | cons m rest ih =>
    unfold lookAtMounts
    rw [ends_bind]
    refine Ends.mono (hk.ends_lookAtMount hlimit (hl m List.mem_cons_self) h) ?_
    rintro outcome r₁ ⟨found, hok, h₁, hbeside, hglean⟩
    cases outcome with
    | error why => cases hok
    | ok first =>
      cases hok
      rw [andThen_ok, ends_bind]
      have hlimit₁ : r₁.survey.options.limit = none := by rw [hbeside.options, hlimit]
      refine Ends.mono (ih hlimit₁ (fun m hm => hl m (List.mem_cons_of_mem _ hm)) h₁) ?_
      rintro _ r₂ ⟨more, rfl, h₂, hbeside', hglean'⟩
      rw [hbeside.options] at hglean'
      exact ⟨first.toList ++ more, rfl, h₂, hbeside.trans hbeside', hglean.trans hglean'⟩

theorem ends_findMountedIn (hk : k.Shows W calm shows) (hlimit : r.survey.options.limit = none)
    (h : shows g place r.kernel) :
    Ends (k.findMountedIn g) r (W.Looked shows g place (W.entries place) r.survey) := by
  obtain ⟨htable, hst⟩ := hk.table g place r.kernel h
  unfold findMountedIn
  rw [ends_bind, ends_sure, andThen_ok]
  cases hcontents : (k.contents g.tablePath r.kernel).1 with
  | error why =>
    rw [hcontents] at htable
    have hnone : W.entries place = [] := by
      unfold MountWorld.entries
      rw [← htable]
      rfl
    rw [hnone]
    exact ⟨[], rfl, hst, ⟨rfl, rfl, rfl⟩, .stay fun m hm => absurd hm List.not_mem_nil⟩
  | ok table =>
    rw [hcontents] at htable
    have hsome : W.entries place = (Mount.ofTable table).filter Mount.isNamespace := by
      unfold MountWorld.entries
      rw [← htable]
      rfl
    dsimp only
    rw [← hsome]
    refine hk.ends_lookAtMounts ?_ (fun m hm => hm) hst
    exact hlimit

end Kernel.Shows

end NamespaceAtlas
