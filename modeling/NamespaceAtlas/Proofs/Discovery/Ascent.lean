-- The way up rebuilds the hierarchy of the kernel. However the ways overlap,
-- and whatever known, hidden and unopened namespaces lie on them, each
-- namespace that a way meets gets the parent that the kernel reports.
import NamespaceAtlas.Proofs.Discovery.Climbed
import NamespaceAtlas.Proofs.Identity

namespace NamespaceAtlas

variable {σ φ : Type}

/-! ## Where the ways start -/

/-- The namespaces to start from: known, not hidden, and with a reference that opens. -/
def Survey.Opened (v : Survey) (s : Species) (opens : Identity → Prop) (id : Identity) : Prop :=
  ∃ n, v.graph.get? s id = some n ∧ n.isHidden = false ∧ opens id

/-- The namespaces that the ways up from some others meet, these among them. -/
def Met (up : Identity → Option Identity) (starts : Identity → Prop) (id : Identity) : Prop :=
  ∃ c, starts c ∧ (c = id ∨ Above up c id)

/-! ## One way up -/

variable {k : Kernel σ φ} {stands : φ → Identity → Prop} {L : Lineage} {s : Species}
  {v w : Survey} {asked : Identity → Prop} {i p : Identity}

theorem ends_findCreator {f : φ}
    (hcreator : s = .user → ∀ st, (k.creator f st).1.toOption = L.creator i) (st : σ) :
    Ends (k.findCreator s i f) ⟨st, w⟩ fun outcome r =>
      outcome = .ok () ∧ r.survey = w.withCreator i (L.creatorOf s i) := by
  unfold Kernel.findCreator Lineage.creatorOf
  split
  · rename_i hs
    rw [← hcreator hs st, ends_bind, ends_sure, andThen_ok]
    cases (k.creator f st).1 with
    | ok uid => exact ⟨rfl, rfl⟩
    | error why => exact ⟨rfl, rfl⟩
  · exact ⟨rfl, rfl⟩

theorem ends_linkParent (hne : p ≠ i) (hi : (w.graph.hierarchy? s i).isSome)
    (hroot : w.graph.parent? s i = none) (hcycle : ¬ Above (w.graph.parent? s) p i) (st : σ) :
    Ends (Phase.linkParent s p i) ⟨st, w.metParent s p⟩ fun outcome r =>
      outcome = .ok () ∧ r.survey = w.withParent s i (some p) := by
  have hgraph := w.graph_metParent (s := s) (p := p)
  have hknown : (w.metParent s p).graph.contains s p = true := by
    rw [hgraph, Graph.contains_insertNew]
    exact Or.inl ⟨rfl, rfl⟩
  have hlink : (w.metParent s p).graph.addChild s p i =
      .ok ((w.metParent s p).graph.link s p i) := by
    refine Graph.addChild_eq_link hne hknown ?_ ?_ ?_
    · rw [w.hierarchy?_metParent hi]
      exact hi
    · rw [hgraph, Graph.parent?_insertNew, hroot]
    · intro hin
      refine hcycle ((Graph.above_of_mem_ancestors hin).mono fun x y hxy => ?_)
      rwa [hgraph, Graph.parent?_insertNew] at hxy
  unfold Phase.linkParent
  rw [ends_bind, ends_survey, andThen_ok, hlink]
  exact ⟨rfl, rfl⟩

/-- Where the kernel reports no parent the way up ends. -/
theorem ends_climb_top {f : φ}
    (hcreator : s = .user → ∀ st, (k.creator f st).1.toOption = L.creator i)
    (hparent : ∀ st, ∃ why, (k.parent f st).1 = .error why) (hup : L.up i = none) (steps : Nat)
    (st : σ) :
    Ends (k.climb s (steps + 1) i f) ⟨st, w⟩ fun outcome r =>
      outcome = .ok () ∧ r.survey = w.stepped L s i := by
  unfold Kernel.climb Survey.stepped
  rw [ends_bind, hup]
  refine (ends_findCreator hcreator st).mono ?_
  rintro _ ⟨st, _⟩ ⟨rfl, rfl⟩
  obtain ⟨why, hwhy⟩ := hparent st
  rw [andThen_ok, ends_bind, ends_sure, andThen_ok, hwhy]
  exact ⟨rfl, rfl⟩

/-- Where it reports one the two are linked. The way goes on from the parent, unless the way up
from there is gone already. -/
theorem ends_climb_parent {f : φ}
    (hcreator : s = .user → ∀ st, (k.creator f st).1.toOption = L.creator i)
    (hparent : ∀ st, ∃ above, (k.parent f st).1 = .ok above ∧ stands above p ∧
      ∀ st, (k.identify above st).1 = .ok p) (steps : Nat) (st : σ)
    {post : Except Error Unit → Run σ → Prop}
    (hlink : ∀ above st, stands above p →
      Ends (Phase.linkParent s p i) ⟨st, (w.withCreator i (L.creatorOf s i)).metParent s p⟩
        (andThen (fun _ => if (w.graph.parent? s p).isNone then k.climb s steps p above else pure ())
          post)) :
    Ends (k.climb s (steps + 1) i f) ⟨st, w⟩ post := by
  unfold Kernel.climb
  rw [ends_bind]
  refine (ends_findCreator hcreator st).mono ?_
  rintro _ ⟨st, _⟩ ⟨rfl, rfl⟩
  obtain ⟨above, hreported, habove, hidentity⟩ := hparent st
  rw [andThen_ok, ends_bind, ends_sure, andThen_ok, hreported]
  dsimp only
  rw [ends_bind, ends_sure, andThen_ok, hidentity]
  dsimp only
  rw [ends_bind, ends_change, andThen_ok, ends_bind, ends_survey, andThen_ok, ends_bind]
  have hsame : ((w.withCreator i (L.creatorOf s i)).metParent s p).graph.parent? s p =
      w.graph.parent? s p := by
    rw [Survey.graph_metParent, Graph.parent?_insertNew, Survey.parent?_withCreator]
  rw [hsame]
  exact hlink above _ habove

/-- The parent is linked unless it stands below. -/
theorem ends_climb_step {f : φ}
    (hcreator : s = .user → ∀ st, (k.creator f st).1.toOption = L.creator i)
    (hparent : ∀ st, ∃ above, (k.parent f st).1 = .ok above ∧ stands above p ∧
      ∀ st, (k.identify above st).1 = .ok p)
    (hup : L.up i = some p) (hne : p ≠ i) (hi : (w.graph.hierarchy? s i).isSome)
    (hroot : w.graph.parent? s i = none) (hcycle : ¬ Above (w.graph.parent? s) p i) (steps : Nat)
    (st : σ) {post : Except Error Unit → Run σ → Prop}
    (hnext : ∀ above st, stands above p →
      Ends (if (w.graph.parent? s p).isNone then k.climb s steps p above else pure ())
        ⟨st, w.stepped L s i⟩ post) :
    Ends (k.climb s (steps + 1) i f) ⟨st, w⟩ post := by
  refine ends_climb_parent hcreator hparent steps st fun above st habove => ?_
  refine (ends_linkParent hne ?_ ?_ ?_ st).mono ?_
  · rwa [Survey.hierarchy?_withCreator]
  · rwa [Survey.parent?_withCreator]
  · intro habove
    refine hcycle (habove.mono fun x y hxy => ?_)
    rwa [Survey.parent?_withCreator] at hxy
  rintro _ ⟨st', w'⟩ ⟨rfl, rfl⟩
  have hgoOn := hnext above st' habove
  unfold Survey.stepped at hgoOn
  rw [hup] at hgoOn
  exact hgoOn

/-! What a kernel reports of a parent, in the two cases. -/

theorem Kernel.Follows.parent_of_none (hk : k.Follows stands s L) {f : φ} (hf : stands f i)
    (hup : L.up i = none) (st : σ) : ∃ why, (k.parent f st).1 = .error why := by
  rcases hk.parent f i st hf with ⟨above, p, _, hp, _⟩ | ⟨hwhy, _⟩
  · rw [hup] at hp
    cases hp
  · exact hwhy

theorem Kernel.Follows.parent_of_some (hk : k.Follows stands s L) {f : φ} (hf : stands f i)
    (hup : L.up i = some p) (st : σ) :
    ∃ above, (k.parent f st).1 = .ok above ∧ stands above p ∧
      ∀ st, (k.identify above st).1 = .ok p := by
  rcases hk.parent f i st hf with ⟨above, q, hreported, hq, habove, hidentity⟩ | ⟨_, hnone⟩
  · rw [hup] at hq
    cases hq
    exact ⟨above, hreported, habove, hidentity⟩
  · rw [hup] at hnone
    cases hnone

/-- Going up from a namespace asks it and all that are above it. -/
theorem ends_climb (hk : k.Follows stands s L) (hs : s.hasParents = true)
    (hv : ∀ id n, v.graph.get? s id = some n → n.kind.fits s = true) {l : List Identity}
    (hway : Way L.up i l) :
    ∀ steps asked f st w, l.length < steps → stands f i → Climbed L s v asked (some i) w →
      w.graph.parent? s i = none →
      Ends (k.climb s steps i f) ⟨st, w⟩ fun outcome r =>
        outcome = .ok () ∧ Climbed L s v (fun j => asked j ∨ j = i ∨ j ∈ l) none r.survey := by
  induction hway with
  | @top i hup =>
    intro steps asked f st w hsteps hf h hroot
    obtain ⟨n, rfl⟩ := Nat.exists_eq_succ_of_ne_zero (Nat.ne_of_gt hsteps)
    have hstep := h.step hs hv hroot
    rw [hup] at hstep
    refine (ends_climb_top (fun h st => hk.creator h f i st hf) (hk.parent_of_none hf hup) hup n
      st).mono ?_
    rintro _ ⟨st, _⟩ ⟨rfl, rfl⟩
    exact ⟨rfl, hstep.congr fun j => by simp⟩
  | @step i p l hup hway ih =>
    intro steps asked f st w hsteps hf h hroot
    obtain ⟨n, rfl⟩ := Nat.exists_eq_succ_of_ne_zero (Nat.ne_of_gt (Nat.zero_lt_of_lt hsteps))
    have hstep := h.step hs hv hroot
    have hnot : i ∉ p :: l := (Way.step hup hway).not_mem
    have hne : p ≠ i := fun heq => hnot (heq ▸ List.mem_cons_self)
    have hi := h.isSome_hierarchy hs hv h.contains_next
    have hcycle : ¬ Above (w.graph.parent? s) p i := fun hcycle =>
      hnot (List.mem_cons_of_mem p (hway.mem_iff.2 (hcycle.mono fun x y => h.up_of_parent)))
    rw [hup] at hstep
    refine ends_climb_step (fun h st => hk.creator h f i st hf) (hk.parent_of_some hf hup) hup hne hi
      hroot hcycle n st fun above st habove => ?_
    cases hp : w.graph.parent? s p with
    | none =>
      -- The parent is to be asked in turn.
      have hroot' : (w.stepped L s i).graph.parent? s p = none := by
        rw [Survey.parent?_stepped _ _ hi hroot, if_neg hne.symm, hp]
      simp only [List.length_cons] at hsteps
      refine (ih n _ above st _ (by omega) habove hstep hroot').mono ?_
      rintro _ ⟨st, w'⟩ ⟨rfl, h'⟩
      exact ⟨rfl, h'.congr fun j => by simp [or_assoc]⟩
    | some _ =>
      -- The parent was asked before, and all above it with it.
      have hasked := h.asked_of_parent hp
      have hdone := hstep.done fun q hq => by
        cases hq
        exact Or.inl hasked
      refine ⟨rfl, hdone.congr fun j => ?_⟩
      rw [List.mem_cons, hway.mem_iff]
      constructor
      · rintro (hj | hj)
        · exact Or.inl hj
        · exact Or.inr (Or.inl hj)
      · rintro (hj | hj | rfl | hj)
        · exact Or.inl hj
        · exact Or.inr hj
        · exact Or.inl hasked
        · exact hdone.asked_of_above (Or.inl hasked) hj

/-! ## The ways up from all namespaces -/

variable {opens : Identity → Prop}

/-- Going up from one namespace. Nothing is to be done where its parent is known, or where it
is not opened. -/
theorem ends_climbFrom_cases (hlimit : v.options.limit = none)
    (hopens : ∀ id n, v.graph.get? s id = some n → n.isHidden = false →
      k.Addresses stands v.options.attachLimit n.reference id (opens id))
    (hi : v.graph.contains s i = true) (h : Climbed L s v asked none w) (st : σ)
    {post : Except Error Unit → Run σ → Prop}
    (hasked : asked i → post (.ok ()) ⟨st, w⟩)
    (hshut : ¬ v.Opened s opens i → ∀ st, post (.ok ()) ⟨st, w⟩)
    (hopen : v.Opened s opens i → w.graph.parent? s i = none → ∀ f st, stands f i →
      Ends (k.climb s (Identity.count + 1) i f) ⟨st, w⟩ post) :
    Ends (k.climbFrom s i) ⟨st, w⟩ post := by
  obtain ⟨g, hidden, hrest⟩ := h.rest
  have hoptions : w.options = v.options := by
    rw [hrest]
    rfl
  obtain ⟨n₀, hn₀⟩ := Graph.contains_iff.1 hi
  obtain ⟨n, hn⟩ := Graph.contains_iff.1 ((h.known i).2 (Or.inl hi))
  have hreference := h.reference_eq hn₀ hn
  have hsame : n.isHidden = n₀.isHidden := by
    unfold Namespace.isHidden
    rw [hreference]
  have hopened : v.Opened s opens i ↔ n.isHidden = false ∧ opens i := by
    unfold Survey.Opened
    rw [hn₀, hsame]
    simp
  unfold Kernel.climbFrom
  rw [ends_bind]
  refine ends_checkTime (by rw [hoptions, hlimit]) ?_
  rw [andThen_ok, ends_bind, ends_survey, andThen_ok, hn]
  dsimp only
  by_cases hparent : n.parent?.isSome
  · obtain ⟨p, hp⟩ := Option.isSome_iff_exists.1 hparent
    rw [← Graph.parent?_of_get? hn] at hp
    simp only [hparent, Bool.true_or, if_true]
    exact hasked (h.asked_of_parent hp)
  rw [Bool.not_eq_true] at hparent
  cases hhidden : n.isHidden with
  | true =>
    simp only [hparent, Bool.or_true, if_true]
    exact hshut (by simp [hopened, hhidden]) st
  | false =>
    simp only [hparent, Bool.or_false, Bool.false_eq_true, if_false]
    have haddress := hopens i n₀ hn₀ (hsame ▸ hhidden) st
    rw [← hreference, ← hoptions] at haddress
    rw [ends_bind, ends_attempt]
    refine haddress.mono ?_
    rintro _ st (⟨f, rfl, hf, hopens⟩ | ⟨⟨why, rfl⟩, hclosed⟩)
    · have hroot : w.graph.parent? s i = none := by
        rw [Graph.parent?_of_get? hn]
        simpa using hparent
      exact hopen (hopened.2 ⟨hhidden, hopens⟩) hroot f st hf
    · exact hshut (fun h => hclosed (hopened.1 h).2) st

/-- Going up from one namespace asks what stands above it, if it opens. -/
theorem ends_climbFrom (hk : k.Follows stands s L) (hac : Acyclic L.up) (hs : s.hasParents = true)
    (hlimit : v.options.limit = none)
    (hv : ∀ id n, v.graph.get? s id = some n → n.kind.fits s = true)
    (hopens : ∀ id n, v.graph.get? s id = some n → n.isHidden = false →
      k.Addresses stands v.options.attachLimit n.reference id (opens id))
    (hi : v.graph.contains s i = true) (h : Climbed L s v asked none w) (st : σ) :
    Ends (k.climbFrom s i) ⟨st, w⟩ fun outcome r => outcome = .ok () ∧
      Climbed L s v (fun j => asked j ∨ (v.Opened s opens i ∧ (i = j ∨ Above L.up i j))) none
        r.survey := by
  refine ends_climbFrom_cases hlimit hopens hi h st ?_ ?_ ?_
  · -- Its parent is known: the way up from it is gone already.
    intro hasked
    refine ⟨rfl, h.congr fun j => ⟨Or.inl, ?_⟩⟩
    rintro (hj | ⟨_, rfl | hj⟩)
    · exact hj
    · exact hasked
    · exact h.asked_of_above hasked hj
  · intro hshut st
    refine ⟨rfl, h.congr fun j => ⟨Or.inl, ?_⟩⟩
    rintro (hj | ⟨hj, _⟩)
    · exact hj
    · exact absurd hj hshut
  · intro hopen hroot f st hf
    obtain ⟨l, hl⟩ := hac.exists_way i
    have hlength : l.length < Identity.count + 1 :=
      Nat.lt_succ_of_le (Identity.length_le_count (List.nodup_cons.1 hl.nodup).2)
    refine (ends_climb hk hs hv hl _ asked f st w hlength hf (h.ask hi) hroot).mono ?_
    rintro _ r ⟨rfl, h'⟩
    refine ⟨rfl, h'.congr fun j => ?_⟩
    rw [hl.mem_iff, eq_comm]
    simp [hopen]

/-- Going up from all namespaces asks those that the ways up from the opened ones meet. -/
theorem ends_findAncestors (hk : k.Follows stands s L) (hac : Acyclic L.up)
    (hs : s.hasParents = true) (hlimit : v.options.limit = none)
    (hv : ∀ id n, v.graph.get? s id = some n → n.kind.fits s = true)
    (hroots : ∀ id, v.graph.parent? s id = none)
    (hopens : ∀ id n, v.graph.get? s id = some n → n.isHidden = false →
      k.Addresses stands v.options.attachLimit n.reference id (opens id)) (st : σ) :
    Ends (k.findAncestors s) ⟨st, v⟩ fun outcome r =>
      outcome = .ok () ∧ Climbed L s v (Met L.up (v.Opened s opens)) none r.survey := by
  let inv : List Identity → Run σ → Prop := fun done r =>
    Climbed L s v (fun j => ∃ c ∈ done, v.Opened s opens c ∧ (c = j ∨ Above L.up c j)) none
      r.survey
  unfold Kernel.findAncestors
  rw [ends_bind, ends_survey, andThen_ok]
  refine (ends_forM inv (v.graph.ids s) ?_ ?_).mono ?_
  · rintro done i rest ⟨st, w⟩ hids h
    have hi : i ∈ v.graph.ids s := by simp [hids]
    refine (ends_climbFrom hk hac hs hlimit hv hopens (Graph.mem_ids_iff.1 hi) h st).mono ?_
    rintro _ r ⟨rfl, h'⟩
    refine ⟨rfl, h'.congr fun j => ?_⟩
    simp only [List.mem_append, List.mem_singleton, or_and_right, exists_or, exists_eq_left]
  · exact (Climbed.start hroots).congr fun j => by simp
  · rintro _ r ⟨rfl, h⟩
    refine ⟨rfl, h.congr fun j => ⟨?_, ?_⟩⟩
    · rintro ⟨c, _, hc⟩
      exact ⟨c, hc⟩
    · rintro ⟨c, hc, hj⟩
      obtain ⟨n, hn, _⟩ := hc
      exact ⟨c, Graph.mem_ids_iff.2 (Graph.contains_iff.2 ⟨n, hn⟩), ⟨n, hn, ‹_›⟩, hj⟩

/-! ## The law -/

/-- However the ways up overlap, and whatever known, hidden and unopened namespaces lie on them:
each namespace that was opened has the whole way up that the kernel reports as its ancestors.
The namespaces on the ways are known then, and no others; new ones are hidden, and counted. -/
theorem the_way_up_rebuilds_the_hierarchy (k : Kernel σ φ) (stands : φ → Identity → Prop)
    (L : Lineage) (s : Species) (v : Survey) (opens : Identity → Prop) (st : σ)
    (hk : k.Follows stands s L) (hac : Acyclic L.up) (hs : s.hasParents = true)
    (hlimit : v.options.limit = none)
    (hv : ∀ id n, v.graph.get? s id = some n → n.kind.fits s = true)
    (hroots : ∀ id, v.graph.parent? s id = none)
    (hopens : ∀ id n, v.graph.get? s id = some n → n.isHidden = false →
      k.Addresses stands v.options.attachLimit n.reference id (opens id)) :
    ∃ r, (k.findAncestors s).run ⟨st, v⟩ = (.ok (), r) ∧
      let g := r.survey.graph
      (∀ id, v.Opened s opens id → Way L.up id (g.ancestors s id)) ∧
      (∀ id, g.contains s id = true ↔
        v.graph.contains s id = true ∨ ∃ c, v.Opened s opens c ∧ Above L.up c id) ∧
      (∀ id, Met L.up (v.Opened s opens) id → g.parent? s id = L.up id) ∧
      (∀ id, ¬ Met L.up (v.Opened s opens) id → g.parent? s id = none) ∧
      (∀ id n, g.get? s id = some n → v.graph.contains s id = false →
        n.reference = .empty ∧ n.leaders = []) ∧
      r.survey.diagnostics.hidden =
        v.diagnostics.hidden + (v.graph.newcomers g s).length ∧
      (∀ id, Met L.up (v.Opened s opens) id →
        g.creator? s id = (L.creatorOf s id).or (v.graph.creator? s id)) ∧
      (∀ id, ¬ Met L.up (v.Opened s opens) id → g.creator? s id = v.graph.creator? s id) ∧
      (∀ id, v.graph.contains s id = true → g.record? s id = v.graph.record? s id) ∧
      (∀ t, t ≠ s → g.ofSpecies t = v.graph.ofSpecies t) ∧
      ∃ hidden, r.survey = v.withWay g hidden := by
  obtain ⟨hok, h⟩ := ends_findAncestors hk hac hs hlimit hv hroots hopens st
  refine ⟨((k.findAncestors s).run ⟨st, v⟩).2, Prod.ext hok rfl, fun id hid => ?_, fun id => ?_,
    h.parent_asked, h.parent_other, fun id n hn hid => ?_, h.hidden, h.creator_asked,
    h.creator_other, fun id hid => ?_, h.others, ?_⟩
  · obtain ⟨l, hl⟩ := hac.exists_way id
    exact h.way_ancestors ⟨id, hid, Or.inl rfl⟩ hl
  · rw [h.known]
    constructor
    · rintro (hid | ⟨c, hc, rfl | hid⟩ | hid)
      · exact Or.inl hid
      · obtain ⟨n, hn, _⟩ := hc
        exact Or.inl (Graph.contains_iff.2 ⟨n, hn⟩)
      · exact Or.inr ⟨c, hc, hid⟩
      · cases hid
    · rintro (hid | ⟨c, hc, hid⟩)
      · exact Or.inl hid
      · exact Or.inr (Or.inl ⟨c, hc, Or.inr hid⟩)
  · have hrecord := h.newcomer hn hid
    exact ⟨congrArg Record.reference hrecord, congrArg Record.leaders hrecord⟩
  · obtain ⟨n, hn⟩ := Graph.contains_iff.1 hid
    rw [h.record id ((h.known id).2 (Or.inl hid)), Graph.record?_of_get? hn, Option.getD_some]
  · obtain ⟨g, hidden, hw⟩ := h.rest
    refine ⟨hidden, ?_⟩
    rw [hw]
    rfl

/-- Only the innermost of three namespaces is known, by its process. The way up finds the
others. -/
theorem the_way_up_shows_hidden_namespaces :
    let v : Survey := {
      options := .nothing
      graph := Graph.empty.insertNew .user ⟨4, 3⟩ (.single (Path.proc.ofNamespace ⟨7⟩ .user)) }
    ∃ r, (Tableau.nested.kernel.findAncestors .user).run ⟨(), v⟩ = (.ok (), r) ∧
      Way Tableau.nested.lineage.up ⟨4, 3⟩ (r.survey.graph.ancestors .user ⟨4, 3⟩) ∧
      r.survey.graph.contains .user ⟨4, 2⟩ = true ∧
      r.survey.graph.creator? .user ⟨4, 3⟩ = some 1000 := by
  intro v
  have hread : Tableau.nested.joined Path.proc ⟨7⟩ .user = some ⟨4, 3⟩ := by
    decide +kernel
  have hget : ∀ id n, v.graph.get? .user id = some n →
      id = ⟨4, 3⟩ ∧ n = .new .user ⟨4, 3⟩ (.single (Path.proc.ofNamespace ⟨7⟩ .user)) := by
    intro id n hn
    rw [Graph.get?_insertNew] at hn
    split at hn
    · rename_i hid
      obtain ⟨_, rfl⟩ := hid
      cases hn
      exact ⟨rfl, rfl⟩
    · simp at hn
  obtain ⟨r, hrun, hways, hknown, _, _, _, _, hcreator, _⟩ :=
    the_way_up_rebuilds_the_hierarchy Tableau.nested.kernel Eq Tableau.nested.lineage .user v
      (fun _ => True) () (Tableau.nested.follows .user) Tableau.acyclic_nested rfl rfl
      (fun id n hn => by
        obtain ⟨_, rfl⟩ := hget id n hn
        rfl)
      (fun id => by
        rw [Graph.parent?_insertNew]
        simp [Graph.parent?])
      (fun id n hn _ => by
        obtain ⟨rfl, rfl⟩ := hget id n hn
        exact (Tableau.nested.reads Path.proc ⟨7⟩ .user).addresses hread _)
  have hstart : v.Opened .user (fun _ => True) ⟨4, 3⟩ := by
    refine ⟨.new .user ⟨4, 3⟩ (.single (Path.proc.ofNamespace ⟨7⟩ .user)), ?_, rfl, trivial⟩
    rw [Graph.get?_insertNew]
    rfl
  refine ⟨r, hrun, hways _ hstart, ?_, ?_⟩
  · exact (hknown _).2 (Or.inr ⟨_, hstart, Above.single (by decide)⟩)
  · rw [hcreator _ ⟨_, hstart, Or.inl rfl⟩]
    decide

end NamespaceAtlas
