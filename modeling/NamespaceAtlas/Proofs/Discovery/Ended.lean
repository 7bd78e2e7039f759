-- The way up ends on every kernel, whatever it reports. A turn of it that goes on
-- has given a parent to a namespace that had none, so there are no more turns
-- than there are namespaces; and since it only ever links a namespace without a
-- parent, it never comes upon a second one. Its runs are told turn by turn here,
-- as many as there are, so that they end is no matter of a bound.
import NamespaceAtlas.Proofs.Discovery.Ascent
import NamespaceAtlas.Proofs.Graph.NewEdge

namespace NamespaceAtlas

variable {σ φ : Type}

/-! ## The edges of a graph -/

namespace Graph

variable {g g' : Graph} {s : Species} {p c : Identity}

/-- The edges between the namespaces of a species, each with its parent and its child. -/
def edges (g : Graph) (s : Species) : List (Identity × Identity) :=
  (g.ids s).filterMap fun id => (g.parent? s id).map (·, id)

theorem mem_edges_iff : (p, c) ∈ g.edges s ↔ g.parent? s c = some p := by
  simp only [edges, List.mem_filterMap, Option.map_eq_some_iff, Prod.mk.injEq]
  constructor
  · rintro ⟨_, _, _, hparent, rfl, rfl⟩
    exact hparent
  · intro hparent
    obtain ⟨n, hn, _⟩ := Option.bind_eq_some_iff.1 hparent
    exact ⟨c, mem_ids_iff.2 (contains_iff.2 ⟨n, hn⟩), p, hparent, rfl, rfl⟩

theorem nodup_edges (g : Graph) (s : Species) : (g.edges s).Nodup := by
  refine (g.nodup_ids s).filterMap fun c c' e hc hc' => ?_
  simp only [Option.mem_def, Option.map_eq_some_iff] at hc hc'
  obtain ⟨_, _, rfl⟩ := hc
  obtain ⟨_, _, heq⟩ := hc'
  exact (Prod.mk.inj heq).2.symm

/-- There are no more edges than namespaces. -/
theorem length_edges_le (g : Graph) (s : Species) : (g.edges s).length ≤ (g.ids s).length :=
  List.length_filterMap_le ..

theorem edges_perm (h : ∀ c, g'.parent? s c = g.parent? s c) : (g'.edges s).Perm (g.edges s) := by
  rw [List.perm_ext_iff_of_nodup (nodup_edges _ _) (nodup_edges _ _)]
  rintro ⟨p, c⟩
  rw [mem_edges_iff, mem_edges_iff, h]

theorem edges_link (h : Forest g) (hjoin : g.Joinable s p c) (hroot : g.parent? s c = none) :
    ((g.link s p c).edges s).Perm ((p, c) :: g.edges s) := by
  have hnew : (p, c) ∉ g.edges s := by
    rw [mem_edges_iff, hroot]
    exact nofun
  rw [List.perm_ext_iff_of_nodup (nodup_edges _ _) ((nodup_edges _ _).cons hnew)]
  rintro ⟨q, d⟩
  rw [List.mem_cons, mem_edges_iff, mem_edges_iff, h.parent?_link hjoin]
  by_cases hd : c = d
  · subst hd
    simp [hroot, eq_comm]
  · simp [hd, Ne.symm hd]

end Graph

/-! ## The way up, turn by turn -/

/-- What becomes of one turn of the way up. -/
inductive Rise (φ : Type) where
  /-- The kernel reports no parent. -/
  | top
  /-- The parent is linked, and had a parent before. -/
  | met (parent : Identity)
  /-- The parent is linked, and the way goes on from it. -/
  | on (parent : Identity) (above : φ)

/-- The errors that can end a way up: of all that stand against an edge, the only ones are that a
namespace is its own parent and that it would stand above itself. -/
inductive AscentFault (o : Options) (s : Species) : Error → Prop
  | late {why} : o.OutOfTime "hierarchy" why → AscentFault o s why
  | nameless (child : Identity) (why : FileFault) :
      AscentFault o s (.contract (.namelessParent s child why))
  | cycle (child parent : Identity) : AscentFault o s (.contract (.cycle s child parent))
  | ownParent (id : Identity) : AscentFault o s (.namespaces (.ownParent s id))

theorem Survey.samePlaces_createdBy (v : Survey) (id : Identity) (creator : UInt32) :
    v.graph.SamePlaces (v.createdBy id creator).graph :=
  Graph.samePlaces_modify fun n => n.place_setCreator creator

/-- Where a turn of the way up begins: at a namespace that is known and has no parent. -/
structure Rising (s : Species) (child : Identity) (v : Survey) : Prop where
  forest : Forest v.graph
  known : v.graph.contains s child = true
  top : v.graph.parent? s child = none

namespace Rising

variable {s : Species} {v : Survey} {child : Identity}

theorem createdBy (h : Rising s child v) (id : Identity) (creator : UInt32) :
    Rising s child (v.createdBy id creator) := by
  have hsame := v.samePlaces_createdBy id creator
  exact ⟨h.forest.samePlaces hsame, (Graph.contains_modify ..).trans h.known,
    (hsame.parent? s child).trans h.top⟩

theorem metParent (h : Rising s child v) (parent : Identity) :
    Rising s child (v.metParent s parent) := by
  have hgraph := v.graph_metParent (s := s) (p := parent)
  refine ⟨hgraph ▸ h.forest.insertNew s parent .empty, ?_, ?_⟩
  · rw [hgraph, Graph.contains_insertNew]
    exact .inr h.known
  · rw [hgraph, Graph.parent?_insertNew, h.top]

end Rising

namespace Kernel

variable (k : Kernel σ φ)

/-- One turn of the way up. -/
def rise (s : Species) (child : Identity) (f : φ) : Phase σ (Rise φ) := do
  k.findCreator s child f
  match ← Phase.sure (k.parent f) with
  | .error _ => return .top
  | .ok above =>
    match ← Phase.sure (k.identify above) with
    | .error why => throw (.contract (.namelessParent s child why))
    | .ok parent =>
      Phase.change (·.metParent s parent)
      let above? := (← Phase.survey).graph.parent? s parent
      Phase.linkParent s parent child
      return if above?.isNone then .on parent above else .met parent

theorem climb_succ (s : Species) (steps : Nat) (child : Identity) (f : φ) :
    k.climb s (steps + 1) child f = k.rise s child f >>= fun
      | .top | .met _ => pure ()
      | .on parent above => k.climb s steps parent above := by
  rw [climb]
  unfold rise
  simp only [bind_assoc]
  refine bind_congr fun _ => bind_congr fun answer => ?_
  cases answer with
  | error why => rfl
  | ok above =>
    simp only [bind_assoc]
    refine bind_congr fun answer => ?_
    cases answer with
    | error why => rfl
    | ok parent =>
      simp only [bind_assoc]
      refine bind_congr fun _ => bind_congr fun v => bind_congr fun _ => ?_
      rw [pure_bind]
      cases v.graph.parent? s parent <;> rfl

/-- Opens a namespace to go up from, if its parent is not known and it can be opened. -/
def setOut (s : Species) (id : Identity) : Phase σ (Option φ) := do
  k.checkTime "hierarchy"
  let v ← Phase.survey
  match v.graph.get? s id with
  | none => return none
  | some n =>
    if n.parent?.isSome || n.isHidden then return none
    else return (← Phase.attempt (k.openedReference n.reference v.options.attachLimit)).toOption

theorem climbFrom_eq (s : Species) (id : Identity) :
    k.climbFrom s id = k.setOut s id >>= fun
      | none => pure ()
      | some f => k.climb s (Identity.count + 1) id f := by
  unfold climbFrom setOut
  simp only [bind_assoc]
  refine bind_congr fun _ => bind_congr fun v => ?_
  cases v.graph.get? s id with
  | none => rfl
  | some n =>
    dsimp only
    split
    · rfl
    · simp only [bind_assoc, pure_bind]
      refine bind_congr fun answer => ?_
      cases answer <;> rfl

/-- A way up from one namespace that ends, with the edges it makes: turn by turn, as many as it
takes. -/
inductive Climbs (s : Species) : Identity → φ → Run σ → List (Identity × Identity) →
    Except Error Unit → Run σ → Prop
  | fails {child f r r' why} : (k.rise s child f).run r = (.error why, r') →
      Climbs s child f r [] (.error why) r'
  | top {child f r r'} : (k.rise s child f).run r = (.ok .top, r') →
      Climbs s child f r [] (.ok ()) r'
  | met {child f r r' parent} : (k.rise s child f).run r = (.ok (.met parent), r') →
      Climbs s child f r [(parent, child)] (.ok ()) r'
  | on {child f r r' r'' parent above links out} :
      (k.rise s child f).run r = (.ok (.on parent above), r') →
      Climbs s parent above r' links out r'' →
      Climbs s child f r ((parent, child) :: links) out r''

/-- Ways up from one namespace after the other that all end, with the edges they make. -/
inductive Ascends (s : Species) : List Identity → Run σ → List (Identity × Identity) →
    Except Error Unit → Run σ → Prop
  | done {r} : Ascends s [] r [] (.ok ()) r
  | late {id ids r r' why} : (k.setOut s id).run r = (.error why, r') →
      Ascends s (id :: ids) r [] (.error why) r'
  | past {id ids r r' r'' links out} : (k.setOut s id).run r = (.ok none, r') →
      Ascends s ids r' links out r'' → Ascends s (id :: ids) r links out r''
  | fails {id ids r r' r'' f links why} : (k.setOut s id).run r = (.ok (some f), r') →
      k.Climbs s id f r' links (.error why) r'' → Ascends s (id :: ids) r links (.error why) r''
  | climbs {id ids r r' r'' r₃ f links links' out} : (k.setOut s id).run r = (.ok (some f), r') →
      k.Climbs s id f r' links (.ok ()) r'' → Ascends s ids r'' links' out r₃ →
      Ascends s (id :: ids) r (links ++ links') out r₃

/-! ## What the way up makes of a survey -/

/-- The kernel reports a namespace as the parent of some file, now or then. -/
def Reports (id : Identity) : Prop :=
  ∃ f above st st', (k.parent f st).1 = .ok above ∧ (k.identify above st').1 = .ok id

/-- A survey with some more edges, and with no namespace of the species but what was known or is
reported as a parent. -/
structure Adds (s : Species) (v : Survey) (links : List (Identity × Identity)) (w : Survey) :
    Prop where
  forest : Forest w.graph
  options : w.options = v.options
  edges : (w.graph.edges s).Perm (links ++ v.graph.edges s)
  known : ∀ id, w.graph.contains s id = true → v.graph.contains s id = true ∨ k.Reports id

/-- What a part of the way up comes to. -/
structure Comes (s : Species) (v : Survey) (links : List (Identity × Identity))
    (out : Except Error Unit) (w : Survey) : Prop extends k.Adds s v links w where
  fault : ∀ why, out = .error why → AscentFault v.options s why

variable {k} {s : Species} {v w w' : Survey} {links links' : List (Identity × Identity)}
  {out : Except Error Unit} {child parent : Identity}

namespace Adds

theorem refl (h : Forest v.graph) : k.Adds s v [] v := ⟨h, rfl, .refl _, fun _ => .inl⟩

theorem trans (h : k.Adds s v links w) (h' : k.Adds s w links' w') :
    k.Adds s v (links ++ links') w' where
  forest := h'.forest
  options := h'.options.trans h.options
  edges := by
    refine h'.edges.trans ((h.edges.append_left links').trans ?_)
    rw [← List.append_assoc]
    exact List.perm_append_comm.append_right _
  known id hid := by
    rcases h'.known id hid with hid | hid
    · exact h.known id hid
    · exact .inr hid

/-- A change that adds no edge, and no namespace but one that is reported as a parent. -/
theorem of_parent_eq (h : Forest w.graph) (hoptions : w.options = v.options)
    (hparent : ∀ c, w.graph.parent? s c = v.graph.parent? s c)
    (hknown : ∀ id, w.graph.contains s id = true → v.graph.contains s id = true ∨ k.Reports id) :
    k.Adds s v [] w := ⟨h, hoptions, Graph.edges_perm hparent, hknown⟩

theorem createdBy (h : Forest v.graph) (id : Identity) (creator : UInt32) :
    k.Adds s v [] (v.createdBy id creator) := by
  have hsame := v.samePlaces_createdBy id creator
  refine of_parent_eq (h.samePlaces hsame) rfl (hsame.parent? s) fun i hi => .inl ?_
  rwa [Survey.createdBy, Survey.mapGraph, Graph.contains_modify] at hi

theorem metParent (h : Forest v.graph) (hparent : k.Reports parent) :
    k.Adds s v [] (v.metParent s parent) := by
  have hgraph := v.graph_metParent (s := s) (p := parent)
  refine of_parent_eq (hgraph ▸ h.insertNew s parent .empty) ?_ (fun c => ?_) fun i hi => ?_
  · unfold Survey.metParent
    split <;> rfl
  · rw [hgraph, Graph.parent?_insertNew]
  · rw [hgraph, Graph.contains_insertNew] at hi
    rcases hi with ⟨_, rfl⟩ | hi
    · exact .inr hparent
    · exact .inl hi

theorem link (h : Forest v.graph) (hjoin : v.graph.Joinable s parent child)
    (hroot : v.graph.parent? s child = none) (hout : child ∉ v.graph.ancestors s parent) :
    k.Adds s v [(parent, child)] { v with graph := v.graph.link s parent child } where
  forest := h.forest_link hjoin hroot hout
  options := rfl
  edges := Graph.edges_link h hjoin hroot
  known id hid := .inl (by rwa [Graph.contains_link] at hid)

end Adds

/-- A part that comes through has only to add something. -/
theorem Comes.of_adds (h : k.Adds s v links w) : k.Comes s v links (.ok ()) w where
  toAdds := h
  fault why hwhy := by cases hwhy

/-! ## One turn -/

/-- What a turn of the way up comes to. Where it goes on, it goes on as it began. -/
def Risen (k : Kernel σ φ) (s : Species) (v : Survey) (child : Identity) :
    Except Error (Rise φ) → Run σ → Prop
  | .error why, r => k.Adds s v [] r.survey ∧ AscentFault v.options s why
  | .ok .top, r => k.Adds s v [] r.survey
  | .ok (.met parent), r => k.Adds s v [(parent, child)] r.survey
  | .ok (.on parent _), r => k.Adds s v [(parent, child)] r.survey ∧ Rising s parent r.survey

/-- The parent that is met is linked at once, or the way ends in an error. -/
theorem ends_linkParent_rising (hs : s.hasParents = true) (h : Rising s child v)
    (hparent : v.graph.contains s parent = true) (st : σ) :
    Ends (Phase.linkParent s parent child) ⟨st, v⟩ fun outcome r =>
      (∃ why, outcome = .error why ∧ r.survey = v ∧ AscentFault v.options s why) ∨
      (outcome = .ok () ∧ k.Adds s v [(parent, child)] r.survey ∧
        (v.graph.parent? s parent = none → Rising s parent r.survey)) := by
  unfold Phase.linkParent
  rw [ends_bind, ends_survey, andThen_ok]
  by_cases hself : parent = child
  · subst hself
    have hrefused : v.graph.addChild s parent parent = .error (.namespaces (.ownParent s parent)) :=
      if_pos rfl
    rw [hrefused]
    exact .inl ⟨_, rfl, rfl, .ownParent parent⟩
  have hjoin : v.graph.Joinable s parent child := ⟨hself, hparent, h.known, hs⟩
  -- The child has no parent yet, so the edge is new, or refused as it would close a circle.
  have hedge := h.forest.edgeOutcome s parent child
  generalize v.graph.addChild s parent child = added at hedge ⊢
  cases hedge with
  | unfit _ hunfit => exact absurd hjoin hunfit
  | second existing _ hup _ =>
    rw [h.top] at hup
    cases hup
  | circle _ _ _ => exact .inl ⟨_, rfl, rfl, .cycle child parent⟩
  | present _ hup =>
    rw [h.top] at hup
    cases hup
  | new _ _ hout =>
    have hadds : k.Adds s v [(parent, child)] { v with graph := v.graph.link s parent child } :=
      .link h.forest hjoin h.top hout
    refine .inr ⟨rfl, hadds, fun hnone => ⟨hadds.forest, ?_, ?_⟩⟩
    · exact Graph.contains_link.trans hparent
    · refine (h.forest.parent?_link hjoin).trans ?_
      rw [if_neg fun heq => hself heq.2.symm, hnone]

/-- Who created the child may be recorded first. That makes no edge. -/
theorem ends_findCreator_rising (h : Rising s child v) (f : φ) (st : σ) :
    Ends (k.findCreator s child f) ⟨st, v⟩ fun outcome r =>
      outcome = .ok () ∧ Rising s child r.survey ∧ k.Adds s v [] r.survey := by
  unfold findCreator
  split
  · rw [ends_bind, ends_sure, andThen_ok]
    cases (k.creator f st).1 with
    | ok creator => exact ⟨rfl, h.createdBy child creator, .createdBy h.forest child creator⟩
    | error why => exact ⟨rfl, h, .refl h.forest⟩
  · exact ⟨rfl, h, .refl h.forest⟩

theorem ends_rise (hs : s.hasParents = true) (h : Rising s child v) (f : φ) (st : σ) :
    Ends (k.rise s child f) ⟨st, v⟩ (k.Risen s v child) := by
  unfold rise
  rw [ends_bind]
  refine (ends_findCreator_rising (k := k) h f st).mono ?_
  rintro _ ⟨st, w⟩ ⟨rfl, hw, hadds⟩
  rw [andThen_ok]
  rw [ends_bind, ends_sure, andThen_ok]
  cases habove : (k.parent f st).1 with
  | error why => exact hadds
  | ok above =>
    dsimp only
    rw [ends_bind, ends_sure, andThen_ok]
    cases hparent : (k.identify above (k.parent f st).2).1 with
    | error why => exact ⟨hadds, .nameless child why⟩
    | ok parent =>
      have hmet : k.Adds s v [] (w.metParent s parent) :=
        hadds.trans (.metParent hw.forest ⟨f, above, _, _, habove, hparent⟩)
      have hknown : (w.metParent s parent).graph.contains s parent = true := by
        rw [Survey.graph_metParent, Graph.contains_insertNew]
        exact .inl ⟨rfl, rfl⟩
      dsimp only
      rw [ends_bind, ends_change, andThen_ok, ends_bind, ends_survey, andThen_ok, ends_bind]
      refine (ends_linkParent_rising (k := k) hs (hw.metParent parent) hknown _).mono ?_
      rintro _ ⟨st', w'⟩ (⟨why, rfl, rfl, hfault⟩ | ⟨rfl, hlink, hnext⟩)
      · rw [andThen_error]
        exact ⟨hmet, hmet.options ▸ hfault⟩
      · rw [andThen_ok, ends_pure]
        cases hup : (w.metParent s parent).graph.parent? s parent with
        | none => exact ⟨hmet.trans hlink, hnext hup⟩
        | some _ => exact hmet.trans hlink

/-! ## Whole ways -/

/-- A way up ends before its steps are used up: each turn that goes on makes an edge, and there are
no more edges than identities. -/
theorem ends_climb_rising (hs : s.hasParents = true) (steps : Nat) :
    ∀ (child : Identity) (f : φ) (r : Run σ), Rising s child r.survey →
      Identity.count < steps + (r.survey.graph.edges s).length →
      Ends (k.climb s steps child f) r fun out r' =>
        ∃ links, k.Climbs s child f r links out r' ∧ k.Comes s r.survey links out r'.survey := by
  induction steps with
  | zero =>
    intro child f r _ hfew
    have hedges := r.survey.graph.length_edges_le s
    have hids := Identity.length_le_count (r.survey.graph.nodup_ids s)
    omega
  | succ steps ih =>
    intro child f r h hfew
    have hrun : Ends (k.rise s child f) r fun x r' => (k.rise s child f).run r = (x, r') := rfl
    rw [k.climb_succ, ends_bind]
    refine (hrun.and (ends_rise hs h f r.kernel)).mono ?_
    rintro (why | rise) r' ⟨hrun, hrisen⟩
    · obtain ⟨hadds, hfault⟩ := hrisen
      rw [andThen_error]
      refine ⟨[], .fails hrun, hadds, ?_⟩
      rintro _ ⟨⟩
      exact hfault
    cases rise with
    | top =>
      rw [andThen_ok, ends_pure]
      exact ⟨[], .top hrun, .of_adds hrisen⟩
    | met parent =>
      rw [andThen_ok, ends_pure]
      exact ⟨_, .met hrun, .of_adds hrisen⟩
    | on parent above =>
      obtain ⟨hadds, hnext⟩ := hrisen
      have hlength : (r'.survey.graph.edges s).length = (r.survey.graph.edges s).length + 1 :=
        hadds.edges.length_eq
      rw [andThen_ok]
      refine (ih parent above r' hnext (by omega)).mono ?_
      rintro out r'' ⟨links, hclimbs, hcomes⟩
      refine ⟨_, .on hrun hclimbs, hadds.trans hcomes.toAdds, fun why hwhy => ?_⟩
      exact hadds.options ▸ hcomes.fault why hwhy

theorem ends_setOut (id : Identity) (r : Run σ) (h : Forest r.survey.graph) :
    Ends (k.setOut s id) r fun outcome r' => r'.survey = r.survey ∧
      match outcome with
      | .error why => r.survey.options.OutOfTime "hierarchy" why
      | .ok none => True
      | .ok (some _) => Rising s id r.survey := by
  unfold setOut
  rw [ends_bind]
  apply ends_checkTime_barring
  · intro st
    rw [andThen_ok, ends_bind, ends_survey, andThen_ok]
    cases hn : r.survey.graph.get? s id with
    | none => exact ⟨rfl, trivial⟩
    | some n =>
      dsimp only
      split
      · exact ⟨rfl, trivial⟩
      · rename_i hbegin
        rw [Bool.or_eq_true, not_or, Option.not_isSome_iff_eq_none] at hbegin
        have hrising : Rising s id r.survey :=
          ⟨h, Graph.contains_iff.2 ⟨n, hn⟩, (Graph.parent?_of_get? hn).trans hbegin.1⟩
        rw [ends_bind, ends_attempt]
        refine ends_iff_run.2 fun opened st' _ => ?_
        cases opened with
        | error why => exact ⟨rfl, trivial⟩
        | ok f => exact ⟨rfl, hrising⟩
  · exact fun why st hlate => ⟨rfl, hlate⟩

/-- The ways up from one namespace after the other all end. -/
theorem ends_ascents (hs : s.hasParents = true) (ids : List Identity) :
    ∀ r : Run σ, Forest r.survey.graph → Ends (ids.forM (k.climbFrom s)) r fun out r' =>
      ∃ links, k.Ascends s ids r links out r' ∧ k.Comes s r.survey links out r'.survey := by
  induction ids with
  | nil => exact fun r h => ⟨[], .done, .of_adds (.refl h)⟩
  | cons id ids ih =>
    intro r h
    have hrun : Ends (k.setOut s id) r fun x r' => (k.setOut s id).run r = (x, r') := rfl
    change Ends (k.climbFrom s id >>= fun _ => ids.forM (k.climbFrom s)) r _
    rw [k.climbFrom_eq, bind_assoc, ends_bind]
    refine (hrun.and (ends_setOut id r h)).mono ?_
    rintro (why | _ | f) r₁ ⟨hrun, hsame, hset⟩
    · refine ⟨[], .late hrun, ?_, ?_⟩
      · rw [hsame]
        exact .refl h
      · rintro _ ⟨⟩
        exact .late hset
    · rw [andThen_ok, pure_bind]
      refine (ih r₁ (hsame ▸ h)).mono ?_
      rintro out r' ⟨links, hascends, hcomes⟩
      exact ⟨links, .past hrun hascends, hsame ▸ hcomes⟩
    · rw [andThen_ok, ends_bind]
      refine (ends_climb_rising hs (Identity.count + 1) id f r₁ (hsame ▸ hset) (by omega)).mono ?_
      rw [hsame]
      rintro (why | _) r₂ ⟨links, hclimbs, hcomes⟩
      · exact ⟨links, .fails hrun hclimbs, hcomes⟩
      · rw [andThen_ok]
        refine (ih r₂ hcomes.forest).mono ?_
        rintro out r' ⟨links', hascends, hcomes'⟩
        refine ⟨links ++ links', .climbs hrun hclimbs hascends, hcomes.trans hcomes'.toAdds, ?_⟩
        exact fun why hwhy => hcomes.options ▸ hcomes'.fault why hwhy

end Kernel

/-! ## The law -/

/-- The ways up from all known namespaces of a species end on every kernel, however contradictory,
changing or circular the parents are that it reports. The edges that there are in the end are those
of before and the ones that were made, which are no more than there are namespaces of the species:
than are known in the end, and than are known before or reported. There is an error only when the
time is up, the kernel gives a parent no identity, or a namespace would come to stand above itself;
so there never is one of a second parent, or of an end of an edge that is not known. -/
theorem the_ways_up_end_on_every_kernel (k : Kernel σ φ) (s : Species) (hs : s.hasParents = true)
    (changes : List Change) (v : Survey) (hgraph : v.graph = Graph.after changes) (st : σ) :
    Ends (k.findAncestors s) ⟨st, v⟩ fun out r =>
      ∃ links, k.Ascends s (v.graph.ids s) ⟨st, v⟩ links out r ∧
        (r.survey.graph.edges s).Perm (links ++ v.graph.edges s) ∧
        links.length ≤ (r.survey.graph.ids s).length ∧
        (∀ all : List Identity,
          (∀ id, v.graph.contains s id = true ∨ k.Reports id → id ∈ all) →
            links.length ≤ all.length) ∧
        ∀ why, out = .error why → AscentFault v.options s why := by
  have hforest : Forest v.graph := hgraph ▸ Forest.after changes
  unfold Kernel.findAncestors
  rw [ends_bind, ends_survey, andThen_ok]
  refine (Kernel.ends_ascents hs (v.graph.ids s) ⟨st, v⟩ hforest).mono ?_
  rintro out r ⟨links, hascends, hcomes⟩
  have hfew : links.length ≤ (r.survey.graph.ids s).length := by
    have hlength := hcomes.edges.length_eq
    have hle := r.survey.graph.length_edges_le s
    rw [List.length_append] at hlength
    omega
  refine ⟨links, hascends, hcomes.edges, hfew, fun all hall => hfew.trans ?_, hcomes.fault⟩
  refine (List.subperm_of_subset (r.survey.graph.nodup_ids s) fun id hid => ?_).length_le
  exact hall id (hcomes.known id (Graph.mem_ids_iff.1 hid))

/-- A host that reports another parent of the same namespace each time it is asked. -/
def fickleHost : Kernel Nat Identity :=
  { Kernel.plain with
    openFile := fun _ => return .ok ⟨4, 1⟩
    identify := fun f => return .ok f
    speciesFlag := fun _ => return .ok Species.pid.flag
    parent := fun _ asked => (.ok (if asked = 0 then ⟨4, 2⟩ else ⟨4, 1⟩), asked + 1) }

/-- On such a host one edge is made, and then the way up ends, as the parent's parent would be the
child. -/
theorem a_host_that_contradicts_itself_ends_the_way_up :
    let v : Survey :=
      { options := .nothing
        graph := Graph.after [.insertNew .pid ⟨4, 1⟩ (.single "/proc/7/ns/pid")] }
    Species.pid.hasParents = true ∧
    ∃ r, (fickleHost.findAncestors .pid).run ⟨0, v⟩ =
        (.error (.contract (.cycle .pid ⟨4, 2⟩ ⟨4, 1⟩)), r) ∧
      fickleHost.Ascends .pid [⟨4, 1⟩] ⟨0, v⟩ [(⟨4, 2⟩, ⟨4, 1⟩)]
        (.error (.contract (.cycle .pid ⟨4, 2⟩ ⟨4, 1⟩))) r := by
  intro v
  have hout : ((fickleHost.findAncestors .pid).run ⟨0, v⟩).1 =
      .error (.contract (.cycle .pid ⟨4, 2⟩ ⟨4, 1⟩)) := by
    decide +kernel
  obtain ⟨links, hascends, hedges, _⟩ :=
    the_ways_up_end_on_every_kernel fickleHost .pid rfl _ v rfl 0
  have hids : v.graph.ids .pid = [⟨4, 1⟩] := by decide +kernel
  have hbefore : v.graph.edges .pid = [] := by decide +kernel
  have hafter : ((fickleHost.findAncestors .pid).run ⟨0, v⟩).2.survey.graph.edges .pid =
      [(⟨4, 2⟩, ⟨4, 1⟩)] := by
    decide +kernel
  rw [hafter, hbefore, List.append_nil] at hedges
  rw [← List.singleton_perm.1 hedges, hids] at hascends
  generalize (fickleHost.findAncestors .pid).run ⟨0, v⟩ = ran at hout hascends ⊢
  obtain ⟨out, r⟩ := ran
  cases hout
  exact ⟨rfl, r, rfl, hascends⟩

end NamespaceAtlas
