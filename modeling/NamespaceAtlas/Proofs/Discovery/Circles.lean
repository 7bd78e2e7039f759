-- Circles. Where the kernel reports a namespace to stand above itself, the way
-- up ends in an error. The error is fatal, unless it is on a namespace that is
-- reported to be its own parent: such an error is noted like any other.
import NamespaceAtlas.Discovery
import NamespaceAtlas.Proofs.Discovery.Ascent

namespace NamespaceAtlas

variable {σ φ : Type}

/-! ## What a kernel answers -/

/-- Whenever the kernel is asked about the namespaces of a species, it answers as `L` says. The file
of a parent may also be one that cannot be identified; then `L` names no parent. -/
structure Kernel.Answers (k : Kernel σ φ) (stands : φ → Identity → Prop) (s : Species)
    (L : Lineage) : Prop where
  parent : ∀ f id, stands f id →
    (∃ p, L.up id = some p ∧ ∀ st, ∃ above, (k.parent f st).1 = .ok above ∧ stands above p ∧
      ∀ st, (k.identify above st).1 = .ok p) ∨
    L.up id = none ∧ ((∀ st, ∃ why, (k.parent f st).1 = .error why) ∨
      ∀ st, ∃ above, (k.parent f st).1 = .ok above ∧
        ∀ st, ∃ why, (k.identify above st).1 = .error why)
  creator : s = .user → ∀ f id, stands f id → ∀ st, (k.creator f st).1.toOption = L.creator id

variable {k : Kernel σ φ} {stands : φ → Identity → Prop} {L : Lineage} {s : Species}
  {v w : Survey} {asked : Identity → Prop} {i p : Identity}

/-- A kernel that follows a lineage answers as it says. -/
theorem Kernel.Follows.answers (hk : k.Follows stands s L) : k.Answers stands s L where
  parent f id hf := by
    cases hup : L.up id with
    | none => exact Or.inr ⟨rfl, Or.inl (hk.parent_of_none hf hup)⟩
    | some p => exact Or.inl ⟨p, rfl, hk.parent_of_some hf hup⟩
  creator hs f id hf st := hk.creator hs f id st hf

/-! ## The errors of a way up -/

/-- The errors that may end a way up past the namespaces of `met`. -/
def CircleFault (L : Lineage) (s : Species) (met : Identity → Prop) (why : Error) : Prop :=
  why.isFatal = true ∨ ∃ i, met i ∧ L.up i = some i ∧ why = .namespaces (.ownParent s i)

theorem CircleFault.mono {met met' : Identity → Prop} {why : Error}
    (h : CircleFault L s met why) (hsub : ∀ j, met j → met' j) : CircleFault L s met' why := by
  rcases h with h | ⟨i, hi, hown⟩
  · exact Or.inl h
  · exact Or.inr ⟨i, hsub i hi, hown⟩

/-- A file of a parent that cannot be identified ends the way up. -/
theorem ends_climb_nameless {f : φ}
    (hcreator : s = .user → ∀ st, (k.creator f st).1.toOption = L.creator i)
    (hparent : ∀ st, ∃ above, (k.parent f st).1 = .ok above ∧
      ∀ st, ∃ why, (k.identify above st).1 = .error why) (steps : Nat) (st : σ) :
    Ends (k.climb s (steps + 1) i f) ⟨st, w⟩ fun outcome _ =>
      ∃ why, outcome = .error (.contract (.namelessParent s i why)) := by
  unfold Kernel.climb
  rw [ends_bind]
  refine (ends_findCreator hcreator st).mono ?_
  rintro _ ⟨st, _⟩ ⟨rfl, rfl⟩
  obtain ⟨above, hreported, hnameless⟩ := hparent st
  rw [andThen_ok, ends_bind, ends_sure, andThen_ok, hreported]
  dsimp only
  obtain ⟨why, hwhy⟩ := hnameless (k.parent f st).2
  rw [ends_bind, ends_sure, andThen_ok, hwhy]
  exact ⟨why, rfl⟩

/-- A namespace is not linked with itself. -/
theorem ends_linkParent_own (st : σ) :
    Ends (Phase.linkParent s i i) ⟨st, w⟩ fun outcome _ =>
      outcome = .error (.namespaces (.ownParent s i)) := by
  have hrefused : w.graph.addChild s i i = .error (.namespaces (.ownParent s i)) := by
    unfold Graph.addChild
    rw [if_pos rfl]
  unfold Phase.linkParent
  rw [ends_bind, ends_survey, andThen_ok, hrefused]
  rfl

/-- A parent is not linked if it stands below. -/
theorem ends_linkParent_circle (hac : Acyclic (w.graph.parent? s)) (hknown : w.graph.ParentsKnown s)
    (hne : p ≠ i) (hp : w.graph.contains s p = true) (hi : (w.graph.hierarchy? s i).isSome)
    (hroot : w.graph.parent? s i = none) (hbelow : Above (w.graph.parent? s) p i) (st : σ) :
    Ends (Phase.linkParent s p i) ⟨st, w⟩ fun outcome _ =>
      outcome = .error (.contract (.cycle s i p)) := by
  have hin : i ∈ w.graph.ancestors s p := by
    obtain ⟨l, hl⟩ := hac.exists_way p
    rw [hknown.ancestors_eq hl]
    exact hl.mem_iff.2 hbelow
  have hrefused : w.graph.addChild s p i = .error (.contract (.cycle s i p)) := by
    obtain ⟨h, hh⟩ := Option.isSome_iff_exists.1 hi
    have hnone : h.parent = none := by
      rw [Graph.parent?_eq, hh] at hroot
      exact hroot
    unfold Graph.addChild
    rw [if_neg hne, if_neg (by simp [hp]), hh]
    dsimp only
    rw [hnone]
    dsimp only
    rw [if_pos hin]
  unfold Phase.linkParent
  rw [ends_bind, ends_survey, andThen_ok, hrefused]
  rfl

/-! ## One way up -/

/-- A step up makes no circle if the parent does not stand below. -/
theorem Climbed.acyclic_stepped (h : Climbed L s v asked (some i) w) (hs : s.hasParents = true)
    (hv : ∀ id n, v.graph.get? s id = some n → n.kind.fits s = true)
    (hroot : w.graph.parent? s i = none) (hac : Acyclic (w.graph.parent? s))
    (hup : ∀ p, L.up i = some p → i ≠ p ∧ ¬ Above (w.graph.parent? s) p i) :
    Acyclic ((w.stepped L s i).graph.parent? s) := by
  have hi := h.isSome_hierarchy hs hv h.contains_next
  cases hparent : L.up i with
  | none =>
    refine hac.mono fun x y hxy => ?_
    rw [Survey.parent?_stepped _ _ hi hroot, hparent] at hxy
    split at hxy
    · cases hxy
    · exact hxy
  | some p =>
    obtain ⟨hne, hbelow⟩ := hup p hparent
    refine (hac.link hne hbelow).mono fun x y hxy => ?_
    rw [Survey.parent?_stepped _ _ hi hroot, hparent] at hxy
    simpa [eq_comm] using hxy

/-- On a way up a parent that was met is not linked if it stands below. -/
theorem Climbed.ends_linkParent_circle (h : Climbed L s v asked (some i) w)
    (hac : Acyclic (w.graph.parent? s)) (hne : p ≠ i) (hi : (w.graph.hierarchy? s i).isSome)
    (hroot : w.graph.parent? s i = none) (hbelow : Above (w.graph.parent? s) p i) (st : σ) :
    Ends (Phase.linkParent s p i)
      ⟨st, (w.withCreator i (L.creatorOf s i)).metParent s p⟩ fun outcome _ =>
        outcome = .error (.contract (.cycle s i p)) := by
  have hgraph := (w.withCreator i (L.creatorOf s i)).graph_metParent (s := s) (p := p)
  have hsame : ∀ j, ((w.withCreator i (L.creatorOf s i)).metParent s p).graph.parent? s j =
      w.graph.parent? s j := by
    intro j
    rw [hgraph, Graph.parent?_insertNew, Survey.parent?_withCreator]
  have hcontains : ∀ j, w.graph.contains s j = true →
      ((w.withCreator i (L.creatorOf s i)).metParent s p).graph.contains s j = true := by
    intro j hj
    rw [hgraph, Graph.contains_insertNew, Survey.contains_withCreator]
    exact Or.inr hj
  apply NamespaceAtlas.ends_linkParent_circle
  · exact hac.mono fun x y hxy => hsame x ▸ hxy
  · exact fun x y hxy => hcontains y (h.parentsKnown x y (hsame x ▸ hxy))
  · exact hne
  · rw [hgraph, Graph.contains_insertNew]
    exact Or.inl ⟨rfl, rfl⟩
  · rw [Survey.hierarchy?_metParent, Survey.hierarchy?_withCreator]
    · exact hi
    · rwa [Survey.hierarchy?_withCreator]
  · rw [hsame, hroot]
  · exact hbelow.mono fun x y hxy => (hsame x).trans hxy

/-- Going up from a namespace either asks it, and closes no circle, or ends in an error. There are
steps enough, since those of `l` were asked on the way and none is asked twice. -/
theorem ends_climb_or_fault (hk : k.Answers stands s L) (hs : s.hasParents = true)
    (hv : ∀ id n, v.graph.get? s id = some n → n.kind.fits s = true) (steps : Nat) :
    ∀ (l : List Identity) (asked : Identity → Prop) (i : Identity) (f : φ) (st : σ) (w : Survey),
      l.Nodup → (∀ j ∈ l, asked j) → Identity.count < l.length + steps → stands f i →
      Climbed L s v asked (some i) w → Acyclic (w.graph.parent? s) →
      w.graph.parent? s i = none →
      Ends (k.climb s steps i f) ⟨st, w⟩
        (barring (CircleFault L s fun j => i = j ∨ Above L.up i j) fun _ r =>
          ∃ asked', Climbed L s v asked' none r.survey ∧ Acyclic (r.survey.graph.parent? s) ∧
            asked' i ∧ ∀ j, asked j → asked' j) := by
  induction steps with
  | zero =>
    intro l asked i f st w hl _ hlength
    have := Identity.length_le_count hl
    omega
  | succ steps ih =>
    intro l asked i f st w hl hasked hlength hf h hac hroot
    have hi := h.isSome_hierarchy hs hv h.contains_next
    have hcreator := fun hs => hk.creator hs f i hf
    have hstep := h.step hs hv hroot
    rcases hk.parent f i hf with ⟨p, hup, hparent⟩ | ⟨hup, hparent | hparent⟩
    · by_cases hown : p = i
      · subst hown
        refine ends_climb_parent hcreator hparent steps st fun above st _ => ?_
        refine (ends_linkParent_own st).mono ?_
        rintro _ _ rfl
        exact Or.inr ⟨p, Or.inl rfl, hup, rfl⟩
      by_cases hbelow : Above (w.graph.parent? s) p i
      · refine ends_climb_parent hcreator hparent steps st fun above st _ => ?_
        refine (h.ends_linkParent_circle hac hown hi hroot hbelow st).mono ?_
        rintro _ _ rfl
        exact Or.inl rfl
      · -- The parent is linked, and asked in turn unless it was asked before.
        rw [hup] at hstep
        have hac' := h.acyclic_stepped hs hv hroot hac fun q hq => by
          cases hup.symm.trans hq
          exact ⟨Ne.symm hown, hbelow⟩
        refine ends_climb_step hcreator hparent hup hown hi hroot hbelow steps st
          fun above st habove => ?_
        cases hp : w.graph.parent? s p with
        | some _ =>
          have hdone := hstep.done fun q hq => by
            cases hq
            exact Or.inl (h.asked_of_parent hp)
          exact ⟨_, hdone, hac', Or.inr rfl, fun j => Or.inl⟩
        | none =>
          have hroot' : (w.stepped L s i).graph.parent? s p = none := by
            rw [Survey.parent?_stepped _ _ hi hroot, if_neg (Ne.symm hown), hp]
          have hnew : i ∉ l := by
            intro hin
            have hasked' := h.parent_asked i (hasked i hin)
            rw [hroot, hup] at hasked'
            cases hasked'
          have hlist : ∀ j ∈ i :: l, asked j ∨ j = i := by
            intro j hj
            rcases List.mem_cons.1 hj with rfl | hj
            · exact Or.inr rfl
            · exact Or.inl (hasked j hj)
          refine (ih (i :: l) _ p above st _ (List.nodup_cons.2 ⟨hnew, hl⟩) hlist ?_ habove hstep
            hac' hroot').mono ?_
          · rw [List.length_cons]
            omega
          · rintro (why | _) r hafter
            · refine CircleFault.mono hafter fun j hj => Or.inr ?_
              exact above_iff.2 ⟨p, hup, hj⟩
            · obtain ⟨asked', h', hac'', _, hsub⟩ := hafter
              exact ⟨asked', h', hac'', hsub i (Or.inr rfl), fun j hj => hsub j (Or.inl hj)⟩
    · rw [hup] at hstep
      refine (ends_climb_top hcreator hparent hup steps st).mono ?_
      rintro _ ⟨st, _⟩ ⟨rfl, rfl⟩
      refine ⟨_, hstep, h.acyclic_stepped hs hv hroot hac fun q hq => ?_, Or.inr rfl,
        fun j => Or.inl⟩
      rw [hup] at hq
      cases hq
    · refine (ends_climb_nameless hcreator hparent steps st).mono ?_
      rintro _ _ ⟨why, rfl⟩
      exact Or.inl rfl

/-! ## The ways up from all namespaces -/

/-- Where all parents that were recorded make no circle, none stands above a namespace that was
asked. -/
theorem Climbed.above_parent (h : Climbed L s v asked none w) (hi : asked i)
    (hp : Above L.up i p) : Above (w.graph.parent? s) i p := by
  induction hp with
  | single hp => exact Above.single ((h.parent_asked i hi).trans hp)
  | @tail x _ hx hp ih => exact ih.tail ((h.parent_asked x (h.asked_of_above hi hx)).trans hp)

variable {opens : Identity → Prop}

theorem ends_climbFrom_or_fault (hk : k.Answers stands s L) (hs : s.hasParents = true)
    (hlimit : v.options.limit = none)
    (hv : ∀ id n, v.graph.get? s id = some n → n.kind.fits s = true)
    (hopens : ∀ id n, v.graph.get? s id = some n → n.isHidden = false →
      k.Addresses stands v.options.attachLimit n.reference id (opens id))
    (hi : v.graph.contains s i = true) (h : Climbed L s v asked none w)
    (hac : Acyclic (w.graph.parent? s)) (st : σ) :
    Ends (k.climbFrom s i) ⟨st, w⟩
      (barring (CircleFault L s (Met L.up (v.Opened s opens))) fun _ r =>
        ∃ asked', Climbed L s v asked' none r.survey ∧ Acyclic (r.survey.graph.parent? s) ∧
          (v.Opened s opens i → asked' i) ∧ ∀ j, asked j → asked' j) := by
  refine ends_climbFrom_cases hlimit hopens hi h st ?_ ?_ ?_
  · intro hasked
    exact ⟨asked, h, hac, fun _ => hasked, fun _ => id⟩
  · intro hshut st
    exact ⟨asked, h, hac, fun hopen => absurd hopen hshut, fun _ => id⟩
  · intro hopen hroot f st hf
    refine (ends_climb_or_fault hk hs hv _ [] asked i f st w List.nodup_nil (by simp) (by simp) hf
      (h.ask hi) hac hroot).mono ?_
    rintro (why | _) r hafter
    · exact hafter.mono fun j hj => ⟨i, hopen, hj⟩
    · obtain ⟨asked', h', hac', hi', hsub⟩ := hafter
      exact ⟨asked', h', hac', fun _ => hi', hsub⟩

/-- Going up from all namespaces asks those that were opened, and closes no circle, unless it ends
in an error. -/
theorem ends_findAncestors_or_fault (hk : k.Answers stands s L) (hs : s.hasParents = true)
    (hlimit : v.options.limit = none)
    (hv : ∀ id n, v.graph.get? s id = some n → n.kind.fits s = true)
    (hroots : ∀ id, v.graph.parent? s id = none)
    (hopens : ∀ id n, v.graph.get? s id = some n → n.isHidden = false →
      k.Addresses stands v.options.attachLimit n.reference id (opens id)) (st : σ) :
    Ends (k.findAncestors s) ⟨st, v⟩
      (barring (CircleFault L s (Met L.up (v.Opened s opens))) fun _ r =>
        ∃ asked, Climbed L s v asked none r.survey ∧ Acyclic (r.survey.graph.parent? s) ∧
          ∀ c, v.Opened s opens c → asked c) := by
  let inv : List Identity → Run σ → Prop := fun done r =>
    ∃ asked, Climbed L s v asked none r.survey ∧ Acyclic (r.survey.graph.parent? s) ∧
      ∀ c ∈ done, v.Opened s opens c → asked c
  unfold Kernel.findAncestors
  rw [ends_bind, ends_survey, andThen_ok]
  refine (ends_forM_barring (CircleFault L s (Met L.up (v.Opened s opens))) inv (v.graph.ids s)
    ?_ ?_).mono ?_
  · rintro done i rest ⟨st, w⟩ hids ⟨asked, h, hac, hdone⟩
    have hi : i ∈ v.graph.ids s := by simp [hids]
    refine (ends_climbFrom_or_fault hk hs hlimit hv hopens (Graph.mem_ids_iff.1 hi) h hac
      st).mono ?_
    rintro (why | _) r hafter
    · exact hafter
    · obtain ⟨asked', h', hac', hi', hsub⟩ := hafter
      refine ⟨asked', h', hac', fun c hc hopen => ?_⟩
      rcases List.mem_append.1 hc with hc | hc
      · exact hsub c (hdone c hc hopen)
      · cases List.mem_singleton.1 hc
        exact hi' hopen
  · refine ⟨_, Climbed.start hroots, ?_, by simp⟩
    intro i hi
    exact not_above_of_none (hroots i) hi
  · rintro (why | _) r hafter
    · exact hafter
    · obtain ⟨asked, h, hac, hasked⟩ := hafter
      refine ⟨asked, h, hac, fun c hc => hasked c ?_ hc⟩
      obtain ⟨n, hn, _⟩ := hc
      exact Graph.mem_ids_iff.2 (Graph.contains_iff.2 ⟨n, hn⟩)

/-! ## The law -/

/-- A fatal error of one step ends all of a plan. -/
theorem performAll_of_fatal {step : Step σ} {r r' : Run σ} {why : Error}
    (hrun : step.run.run r = (.error why, r')) (hfatal : why.isFatal = true)
    (rest : List (Step σ)) : (Step.performAll (step :: rest)).run r = (.error why, r') := by
  have hends : Ends (Step.performAll (step :: rest)) r fun outcome after =>
      outcome = .error why ∧ after = r' := by
    unfold Step.performAll Step.perform
    rw [ends_bind, ends_bind, ends_lift, andThen_ok, ends_bind, ends_survey, andThen_ok]
    have habsorb : r'.survey.absorb step.phase (.error why) = .error why := by
      cases why with
      | contract _ => rfl
      | reparent => rfl
      | _ => cases hfatal
    rw [show step.run.run r = (_, _) from hrun, habsorb]
    exact ⟨rfl, rfl⟩
  exact Prod.ext hends.1 hends.2

/-- Where the ways up run into a circle, a discovery of ancestors ends in an error, wherever the
circle is entered. If none of the namespaces on the ways is reported to be its own parent, the
error is fatal and ends the whole discovery. -/
theorem a_circle_ends_the_way_up (k : Kernel σ φ) (stands : φ → Identity → Prop) (L : Lineage)
    (s : Species) (v : Survey) (opens : Identity → Prop) (phase : String) (st : σ)
    (hk : k.Answers stands s L) (hs : s.hasParents = true) (hlimit : v.options.limit = none)
    (hv : ∀ id n, v.graph.get? s id = some n → n.kind.fits s = true)
    (hroots : ∀ id, v.graph.parent? s id = none)
    (hopens : ∀ id n, v.graph.get? s id = some n → n.isHidden = false →
      k.Addresses stands v.options.attachLimit n.reference id (opens id))
    (hcircle : ∃ i, Met L.up (v.Opened s opens) i ∧ Above L.up i i) :
    ∃ why r, (k.findAncestors s).run ⟨st, v⟩ = (.error why, r) ∧
      (why.isFatal = true ∨ ∃ i, Met L.up (v.Opened s opens) i ∧ L.up i = some i ∧
        why = .namespaces (.ownParent s i)) ∧
      ((∀ i, Met L.up (v.Opened s opens) i → L.up i ≠ some i) →
        why.isFatal = true ∧
          ∀ rest, (Step.performAll (⟨phase, k.findAncestors s⟩ :: rest)).run ⟨st, v⟩ =
            (.error why, r)) := by
  obtain ⟨i, ⟨c, hc, hi⟩, habove⟩ := hcircle
  have hends := ends_findAncestors_or_fault hk hs hlimit hv hroots hopens st
  cases hrun : (k.findAncestors s).run ⟨st, v⟩ with
  | mk outcome r =>
    have hafter := ends_iff_run.1 hends outcome r hrun
    cases outcome with
    | ok =>
      obtain ⟨asked, h, hac, hasked⟩ := hafter
      have hi : asked i := by
        rcases hi with rfl | hi
        · exact hasked c hc
        · exact h.asked_of_above (hasked c hc) hi
      exact absurd (h.above_parent hi habove) (hac i)
    | error why =>
      refine ⟨why, r, rfl, hafter, fun hnone => ?_⟩
      have hfatal : why.isFatal = true := by
        rcases hafter with hfatal | ⟨j, hj, hown, _⟩
        · exact hfatal
        · exact absurd hown (hnone j hj)
      exact ⟨hfatal, performAll_of_fatal hrun hfatal⟩

/-- The survey in which one user namespace is known, by a process that has joined it. -/
def Survey.ofJoined (pid : Pid) (id : Identity) : Survey where
  options := .nothing
  graph := Graph.empty.insertNew .user id (.single (Path.proc.ofNamespace pid .user))

theorem Survey.get?_ofJoined {pid : Pid} {id i : Identity} :
    (Survey.ofJoined pid id).graph.get? .user i =
      if id = i then some (.new .user id (.single (Path.proc.ofNamespace pid .user))) else none := by
  unfold Survey.ofJoined
  rw [Graph.get?_insertNew, Graph.get?_empty]
  simp

/-- Two namespaces that stand above each other are entered from a third. -/
theorem a_circle_of_two_ends_the_way_up :
    let up : Identity → Option Identity := fun id =>
      if id = ⟨4, 3⟩ ∨ id = ⟨4, 1⟩ then some ⟨4, 2⟩
      else if id = ⟨4, 2⟩ then some ⟨4, 1⟩
      else none
    let t : Tableau := { Tableau.nested with lineage := ⟨up, fun _ => none⟩ }
    ∃ why r, (t.kernel.findAncestors .user).run ⟨(), Survey.ofJoined ⟨7⟩ ⟨4, 3⟩⟩ = (.error why, r) ∧
      why.isFatal = true := by
  intro up t
  have hread : t.joined Path.proc ⟨7⟩ .user = some ⟨4, 3⟩ := by
    decide +kernel
  have hget : ∀ id n, (Survey.ofJoined ⟨7⟩ ⟨4, 3⟩).graph.get? .user id = some n →
      id = ⟨4, 3⟩ ∧ n = .new .user ⟨4, 3⟩ (.single (Path.proc.ofNamespace ⟨7⟩ .user)) := by
    intro id n hn
    rw [Survey.get?_ofJoined] at hn
    split at hn
    · exact ⟨Eq.symm ‹_›, (Option.some.inj hn).symm⟩
    · cases hn
  have hstart : (Survey.ofJoined ⟨7⟩ ⟨4, 3⟩).Opened .user (fun _ => True) ⟨4, 3⟩ :=
    ⟨_, Survey.get?_ofJoined.trans (if_pos rfl), rfl, trivial⟩
  obtain ⟨why, r, hrun, _, hfatal⟩ :=
    a_circle_ends_the_way_up t.kernel Eq t.lineage .user (Survey.ofJoined ⟨7⟩ ⟨4, 3⟩)
      (fun _ => True) "hierarchy" () (t.follows .user).answers rfl rfl
      (fun id n hn => by
        obtain ⟨_, rfl⟩ := hget id n hn
        rfl)
      (fun id => by
        unfold Survey.ofJoined
        rw [Graph.parent?_insertNew]
        simp [Graph.parent?])
      (fun id n hn _ => by
        obtain ⟨rfl, rfl⟩ := hget id n hn
        exact (t.reads Path.proc ⟨7⟩ .user).addresses hread _)
      ⟨⟨4, 2⟩, ⟨⟨4, 3⟩, hstart, Or.inr (Above.single (by decide))⟩,
        (Above.single (by decide : up ⟨4, 2⟩ = some ⟨4, 1⟩)).tail (by decide)⟩
  refine ⟨why, r, hrun, (hfatal fun i _ => ?_).1⟩
  change up i ≠ some i
  unfold up
  split
  · rename_i hi
    rcases hi with rfl | rfl
    · decide
    · decide
  split
  · rename_i hi
    subst hi
    decide
  · simp

/-- An error on a namespace that is reported to be its own parent is noted, and the discovery goes
on. -/
theorem a_namespace_above_itself_is_noted :
    let t : Tableau := {
      Tableau.nested with
      lineage := ⟨fun id => if id = ⟨4, 3⟩ then some ⟨4, 3⟩ else none, fun _ => none⟩ }
    ((t.kernel.findAncestors .user).run ⟨(), Survey.ofJoined ⟨7⟩ ⟨4, 3⟩⟩).1 =
        .error (.namespaces (.ownParent .user ⟨4, 3⟩)) ∧
      (Error.namespaces (.ownParent .user ⟨4, 3⟩)).isFatal = false ∧
      ((Step.perform ⟨"hierarchy", t.kernel.findAncestors .user⟩).run
        ⟨(), Survey.ofJoined ⟨7⟩ ⟨4, 3⟩⟩).1 = .ok true := by
  refine ⟨?_, rfl, ?_⟩
  · decide +kernel
  · decide +kernel

end NamespaceAtlas
