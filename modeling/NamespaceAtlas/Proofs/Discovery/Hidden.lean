-- Hidden namespaces in the result of a discovery. Files and mount points show
-- none, and the scans of the processes leave none; the way up finds and counts
-- all that there are.
import NamespaceAtlas.Proofs.Discovery.Climbed
import NamespaceAtlas.Proofs.Discovery.Later
import NamespaceAtlas.Proofs.Discovery.Shown
import NamespaceAtlas.Proofs.Discovery.Turns

namespace NamespaceAtlas

variable {σ φ : Type} {k : Kernel σ φ} {o : Options} {s t : Species} {id i : Identity}
  {u v w : Survey}

/-- The species that have parents. -/
theorem Species.eq_user_or_pid (h : s.hasParents = true) : s = .user ∨ s = .pid := by
  cases s <;> simp_all [Species.hasParents]

/-! ## What a turn shows -/

namespace Survey

/-- All that `u` knows `v` knows too, and as many hidden namespaces are counted. -/
structure Retains (u v : Survey) : Prop where
  known : ∀ t i, u.graph.contains t i = true → v.graph.contains t i = true
  counted : v.diagnostics.hidden = u.diagnostics.hidden

theorem Retains.steadyInScans (u : Survey) : SteadyInScans (Retains u) where
  read v pid s id owner h := by
    refine ⟨fun t i hi => ?_, h.counted⟩
    change (v.sighted s id .empty owner).graph.contains t i = true
    rw [contains_sighted, Graph.contains_insertNew]
    exact Or.inr (h.known t i hi)
  withLeaders v s h := by
    refine ⟨fun t i hi => ?_, h.counted⟩
    rw [(Resettled.withLeaders v s).contains]
    exact h.known t i hi
  withoutProcess v pid h := by
    unfold Survey.withoutProcess
    split
    · exact ⟨h.known, h.counted⟩
    · exact h

/-- From `u` to `v` no namespace is lost, none is hidden that was not or the other way round, and
the new ones are hidden or not as is said. -/
structure Reveals (hidden : Bool) (u v : Survey) : Prop where
  known : ∀ t i, u.graph.contains t i = true → v.graph.contains t i = true
  kept : ∀ t i, u.graph.contains t i = true → v.graph.hides t i = u.graph.hides t i
  new : ∀ t i, v.graph.contains t i = true → u.graph.contains t i = true ∨ v.graph.hides t i = hidden

namespace Reveals

variable {hidden : Bool}

theorem refl (hidden : Bool) (u : Survey) : u.Reveals hidden u :=
  ⟨fun _ _ h => h, fun _ _ _ => rfl, fun _ _ h => Or.inl h⟩

/-- A change that lets no namespace in. -/
theorem congr (h : u.Reveals hidden v) (hsame : v.graph.SameSights w.graph) :
    u.Reveals hidden w where
  known t i hi := (hsame.contains_eq t i).trans (h.known t i hi)
  kept t i hi := (hsame.hides_eq t i).trans (h.kept t i hi)
  new t i hi := by
    rw [hsame.contains_eq] at hi
    rw [hsame.hides_eq]
    exact h.new t i hi

/-- A namespace that was not known. -/
theorem insertNew (h : u.Reveals hidden v) (hnew : v.graph.contains s id = false)
    {r : Reference} (hr : r.isEmpty = hidden)
    (hsame : (v.graph.insertNew s id r).SameSights w.graph) : u.Reveals hidden w := by
  have hgraph : u.Reveals hidden { v with graph := v.graph.insertNew s id r } := by
    have hother : ∀ t i, u.graph.contains t i = true → ¬ (s = t ∧ id = i) := by
      rintro t i hi ⟨rfl, rfl⟩
      rw [h.known s id hi] at hnew
      cases hnew
    refine ⟨fun t i hi => ?_, fun t i hi => ?_, fun t i hi => ?_⟩
    · exact (Graph.contains_insertNew r).2 (Or.inr (h.known t i hi))
    · rw [Graph.hides_insertNew hnew, if_neg (hother t i hi)]
      exact h.kept t i hi
    · rw [Graph.hides_insertNew hnew]
      split
      · exact Or.inr hr
      · rename_i hne
        exact h.new t i (((Graph.contains_insertNew r).1 hi).resolve_left hne)
  exact hgraph.congr hsame

end Reveals

theorem sameSights_sighted (v : Survey) (s : Species) (id : Identity) (r : Reference)
    (owner : Option Identity) :
    (v.graph.insertNew s id r).SameSights (v.sighted s id r owner).graph := by
  unfold sighted mapGraph
  cases owner with
  | none => exact .refl _
  | some owner => exact .modify _ s id (·.setOwnerId owner) fun _ => rfl

/-- Files and mount points show namespaces by the paths that lead to them. -/
theorem Reveals.steadyInFiles (u : Survey) : SteadyInFiles (u.Reveals false) where
  sighted v s id r owner _ hnew haddressed h :=
    h.insertNew hnew haddressed (v.sameSights_sighted s id r owner)
  skipFileList _ h := h.congr (.refl _)
  skipFile _ h := h.congr (.refl _)
  skipBindMount _ h := h.congr (.refl _)
  unreached _ _ h := h.congr (.refl _)
  countSandboxes _ _ h := h.congr (.refl _)
  note _ _ h := h.congr (.refl _)

/-- The namespaces that the way up shows are hidden. -/
theorem Reveals.steadyUpwards (u : Survey) (s : Species) :
    SteadyUpwards s (u.Reveals true) where
  createdBy v id creator h :=
    h.congr (.modify v.graph .user id (·.setCreator creator) fun _ => rfl)
  metParent v parent h := by
    unfold metParent
    split
    · exact h
    · exact h.insertNew (Bool.eq_false_iff.2 ‹_›) rfl (.refl _)
  addChild _ _ _ _ hok h := h.congr (.addChild hok)

theorem sameSights_withOwners (v : Survey) (s : Species) :
    v.graph.SameSights (v.withOwners s).graph := by
  unfold withOwners
  split
  · exact .refl _
  · exact .resolveOwners s _ v.graph

/-! ## The account of hidden namespaces -/

/-- A namespace that is known by its children alone. No process has joined it. -/
structure Bare (v : Survey) (s : Species) (id : Identity) : Prop where
  hasParents : s.hasParents = true
  children : v.graph.children s id ≠ []
  unjoined : ∀ pid p, v.processes.get? pid = some p → p.joined.get s ≠ some id

theorem Bare.grows (h : v.Bare s id) (hgrows : v.Grows w) : w.Bare s id := by
  obtain ⟨n, hn⟩ : ∃ n, v.graph.get? s id = some n := by
    obtain ⟨child, hchild⟩ := List.exists_mem_of_ne_nil _ h.children
    exact Graph.contains_iff.1 (Graph.contains_of_mem_children hchild)
  obtain ⟨m, hm, hnm⟩ := hgrows.graph s id n hn
  refine ⟨h.hasParents, fun hnil => h.children ?_, ?_⟩
  · rw [Graph.children_of_get? hm] at hnil
    rw [Graph.children_of_get? hn]
    exact List.prefix_nil.1 (hnil ▸ hnm.children)
  · rw [hgrows.processes]
    exact h.unjoined

/-- All hidden namespaces are counted, and nothing but their children tells of them. -/
structure Accounted (v : Survey) : Prop where
  counted : v.graph.hidden.length = v.diagnostics.hidden
  bare : ∀ s id, v.graph.hides s id = true → v.Bare s id

namespace Accounted

theorem of_shown (h : ∀ t i, v.graph.hides t i = false) (hcount : v.diagnostics.hidden = 0) :
    v.Accounted where
  counted := (Graph.length_hidden_eq_zero h).trans hcount.symm
  bare s id hid := by
    rw [h] at hid
    cases hid

/-- A change that hides no namespace. -/
theorem grows (h : v.Accounted) (hgrows : v.Grows w)
    (hsame : ∀ t i, w.graph.hides t i = v.graph.hides t i)
    (hcount : w.diagnostics.hidden = v.diagnostics.hidden) : w.Accounted where
  counted := by rw [Graph.length_hidden_congr hsame, h.counted, hcount]
  bare s id hid := (h.bare s id (hsame s id ▸ hid)).grows hgrows

/-- A change that hides one namespace, and counts it. -/
theorem succ (h : v.Accounted) (hgrows : v.Grows w) (hnew : v.graph.hides s id = false)
    (hhides : ∀ t i, w.graph.hides t i = true ↔ (s = t ∧ id = i) ∨ v.graph.hides t i = true)
    (hcount : w.diagnostics.hidden = v.diagnostics.hidden + 1) (hbare : w.Bare s id) :
    w.Accounted where
  counted := by rw [Graph.length_hidden_succ hnew hhides, h.counted, hcount]
  bare t i hi := by
    rcases (hhides t i).1 hi with ⟨rfl, rfl⟩ | hold
    · exact hbare
    · exact (h.bare t i hold).grows hgrows

theorem account (h : v.Accounted) (hgraph : w.graph = v.graph) (hprocesses : w.processes = v.processes)
    (hcount : w.diagnostics.hidden = v.diagnostics.hidden) : w.Accounted :=
  h.grows (.of_graph_eq hgraph hprocesses) (fun t i => by rw [hgraph]) hcount

theorem steadyInFiles : SteadyInFiles Accounted where
  sighted v s id r owner hs hnew haddressed h := by
    have hwidens : v.Widens (v.sighted s id r owner) :=
      (Widens.steadyInFiles v).sighted v s id r owner hs hnew haddressed (.refl v)
    apply h.grows hwidens.grows (fun t i => ?_) rfl
    rw [(v.sameSights_sighted s id r owner).hides_eq, Graph.hides_insertNew hnew]
    split
    · rename_i heq
      rw [haddressed, ← heq.1, ← heq.2, Graph.hides_of_contains_eq_false hnew]
    · rfl
  skipFileList _ h := h.account rfl rfl rfl
  skipFile _ h := h.account rfl rfl rfl
  skipBindMount _ h := h.account rfl rfl rfl
  unreached _ _ h := h.account rfl rfl rfl
  countSandboxes _ _ h := h.account rfl rfl rfl
  note _ _ h := h.account rfl rfl rfl

theorem createdBy (h : v.Accounted) (id : Identity) (creator : UInt32) :
    (v.createdBy id creator).Accounted :=
  h.grows ⟨rfl, .modify fun n _ => .setCreator n creator⟩
    (Graph.SameSights.modify v.graph .user id (·.setCreator creator) fun _ => rfl).hides_eq rfl

theorem addChild (h : v.Accounted) {parent child : Identity} {g : Graph}
    (hok : v.graph.addChild s parent child = .ok g) : Accounted { v with graph := g } :=
  h.grows ⟨rfl, .addChild hok⟩ (Graph.SameSights.addChild hok).hides_eq rfl

theorem withOwners (h : v.Accounted) (s : Species) : (v.withOwners s).Accounted := by
  refine h.grows ((Widens.refl v).grows.withOwners s) (v.sameSights_withOwners s).hides_eq ?_
  unfold Survey.withOwners
  split
  · rfl
  · rfl

end Accounted

end Survey

/-! ## The way up -/

/-- Between two steps of the way up: the next namespace to be asked for its parent is known, and
has none yet. -/
structure Ascending (o : Options) (s : Species) (child : Identity) (v : Survey) : Prop where
  coherent : Coherent o v
  accounted : v.Accounted
  known : v.graph.contains s child = true
  top : v.graph.parent? s child = none

namespace Ascending

variable {child parent : Identity} {g : Graph}

theorem createdBy (h : Ascending o s child v) (id : Identity) (creator : UInt32) :
    Ascending o s child (v.createdBy id creator) where
  coherent := h.coherent.createdBy id creator
  accounted := h.accounted.createdBy id creator
  known := (Graph.contains_modify ..).trans h.known
  top := by
    have hsame : v.graph.SamePlaces (v.createdBy id creator).graph :=
      Graph.samePlaces_modify fun n => n.place_setCreator creator
    rw [hsame.parent?, h.top]

/-- A parent that was not known can be linked with the child, and the link accounts for it. -/
theorem exists_link (h : Ascending o s child v) (hs : s.hasParents = true)
    (hnew : v.graph.contains s parent = false) :
    ∃ g, (v.metParent s parent).graph.addChild s parent child = .ok g ∧
      Survey.Accounted { v.metParent s parent with graph := g } := by
  have hforest := h.coherent.forest
  have hok := Graph.addChild_insertNew hforest hs hnew h.known h.top .empty
  have hsame := Graph.SameSights.addChild hok
  unfold Survey.metParent
  rw [if_neg (Bool.eq_false_iff.1 hnew)]
  refine ⟨_, hok, ?_⟩
  apply h.accounted.succ
  · exact ⟨rfl, (Graph.Grows.insertNew v.graph s parent .empty).trans (.addChild hok)⟩
  · exact Graph.hides_of_contains_eq_false hnew
  · intro t i
    rw [hsame.hides_eq, Graph.hides_insertNew hnew]
    split
    · rename_i heq
      exact iff_of_true rfl (Or.inl heq)
    · rename_i hne
      exact (or_iff_right hne).symm
  · rfl
  · refine ⟨hs, ?_, fun pid p hp hjoined => ?_⟩
    · rw [Graph.children_link_insertNew hforest hs hnew child .empty]
      exact List.cons_ne_nil _ _
    · rw [h.coherent.joined pid p s parent hp hjoined] at hnew
      cases hnew

/-- After the link with a parent that has none itself, the parent comes next. -/
theorem next (h : Ascending o s child v) (hs : s.hasParents = true) (ho : o.includes s = true)
    (hok : (v.metParent s parent).graph.addChild s parent child = .ok g) :
    Coherent o { v.metParent s parent with graph := g } ∧
      Survey.Accounted { v.metParent s parent with graph := g } ∧
      ((v.metParent s parent).graph.parent? s parent = none →
        Ascending o s parent { v.metParent s parent with graph := g }) := by
  have hcoherent := (h.coherent.metParent ho parent).addChild hok
  have haccounted : Survey.Accounted { v.metParent s parent with graph := g } := by
    cases hknown : v.graph.contains s parent with
    | true =>
      unfold Survey.metParent at hok ⊢
      rw [if_pos hknown] at hok ⊢
      exact h.accounted.addChild hok
    | false =>
      obtain ⟨g', hok', haccounted⟩ := h.exists_link hs hknown
      cases hok.symm.trans hok'
      exact haccounted
  refine ⟨hcoherent, haccounted, fun hnone => ⟨hcoherent, haccounted, ?_, ?_⟩⟩
  · refine ((Graph.SameSights.addChild hok).contains_eq s parent).trans ?_
    rw [Survey.graph_metParent, Graph.contains_insertNew]
    exact Or.inl ⟨rfl, rfl⟩
  · rcases Graph.addChild_eq_ok hok with ⟨_, rfl⟩ | ⟨hne, _, hchild, _, _, rfl⟩
    · exact hnone
    · rw [Graph.parent?_link hchild, if_neg fun heq => hne heq.2.symm, hnone]

/-- A link that is refused is one with a parent that was known. -/
theorem of_addChild_eq_error (h : Ascending o s child v) (hs : s.hasParents = true) {why : Error}
    (hrefused : (v.metParent s parent).graph.addChild s parent child = .error why) :
    v.metParent s parent = v := by
  cases hknown : v.graph.contains s parent with
  | true => exact if_pos hknown
  | false =>
    obtain ⟨g, hok, _⟩ := h.exists_link hs hknown
    rw [hok] at hrefused
    cases hrefused

end Ascending

/-- At whichever of its exits a way up ends, the hidden namespaces are accounted for. -/
theorem ends_climb_accounted (hs : s.hasParents = true) (ho : o.includes s = true) (steps : Nat) :
    ∀ (child : Identity) (f : φ) (r : Run σ), Ascending o s child r.survey →
      Ends (k.climb s steps child f) r fun _ r' => Coherent o r'.survey ∧ r'.survey.Accounted := by
  induction steps with
  | zero => exact fun _ _ _ h => ⟨h.coherent, h.accounted⟩
  | succ steps ih =>
    intro child f r h
    unfold Kernel.climb
    -- `Ascending` says that the child is known and has no parent yet, so a new parent that is
    -- inserted for it, and counted, is linked to it at once.
    apply Keeps.ends_bind (P := fun r => Ascending o s child r.survey)
      (Keeps.findCreator (fun v id creator h => h.createdBy id creator) s child f) h
    · exact fun _ _ h => ⟨h.coherent, h.accounted⟩
    intro _ r h
    rw [ends_bind, ends_sure, andThen_ok]
    split
    · exact ⟨h.coherent, h.accounted⟩
    · rw [ends_bind, ends_sure, andThen_ok]
      split
      · exact ⟨h.coherent, h.accounted⟩
      · rename_i parent _
        rw [ends_bind, ends_change, andThen_ok, ends_bind, ends_survey, andThen_ok, ends_bind]
        unfold Phase.linkParent
        rw [ends_bind, ends_survey, andThen_ok]
        dsimp only
        split
        · rename_i g hok
          obtain ⟨hcoherent, haccounted, hnext⟩ := h.next hs ho hok
          rw [ends_change, andThen_ok]
          split
          · exact ih parent _ _ (hnext (Option.isNone_iff_eq_none.1 ‹_›))
          · exact ⟨hcoherent, haccounted⟩
        -- The link is refused only where nothing was inserted.
        · rename_i hrefused
          rw [ends_throw, andThen_error, h.of_addChild_eq_error hs hrefused]
          exact ⟨h.coherent, h.accounted⟩

/-- The way up begins at namespaces that have no parent yet. -/
theorem findAncestors_accounted (hs : s.hasParents = true) (ho : o.includes s = true) :
    Keeps (fun r : Run σ => Coherent o r.survey ∧ r.survey.Accounted)
      (k.findAncestors s).run := by
  refine Keeps.run_bind Keeps.survey fun v => ?_
  apply Keeps.run_forM
  intro id _
  apply Keeps.run_bind (Keeps.checkingTime (Q := fun v => Coherent o v ∧ v.Accounted) _)
  intro _
  apply Keeps.survey_bind
  intro r h
  split
  · exact h
  · rename_i n hn
    split
    · exact h
    · rename_i hbegin
      rw [Bool.or_eq_true, not_or, Option.not_isSome_iff_eq_none] at hbegin
      have hascending : Ascending o s id r.survey :=
        ⟨h.1, h.2, Graph.contains_iff.2 ⟨n, hn⟩, (Graph.parent?_of_get? hn).trans hbegin.1⟩
      apply Keeps.ends_bind (Keeps.asking (Q := Ascending o s id)) hascending
      · exact fun _ _ h => ⟨h.coherent, h.accounted⟩
      · rintro (why | f) r h
        · exact ⟨h.coherent, h.accounted⟩
        · exact ends_climb_accounted hs ho _ id f r h

/-! ## Turns -/

namespace Turn

/-- In this turn a namespace was found that was not known before. -/
def Inserts (t : Turn σ) (s : Species) (id : Identity) : Prop :=
  t.start.survey.graph.contains s id = false ∧ t.left.survey.graph.contains s id = true

/-- The namespaces that a turn finds are hidden if it goes up the hierarchies, and shown
otherwise. -/
def Revealing (t : Turn σ) : Prop :=
  ∃ hidden, (hidden = true ↔ t.step.phase = "hierarchy") ∧
    t.start.survey.Reveals hidden t.left.survey

theorem coherent_after {t : Turn σ} (h : Coherent o t.left.survey) :
    Coherent o t.after.survey :=
  h.mapDiagnostics fun d =>
    { d with
      notes := d.notes ++ t.remark?.toList
      interrupted := t.lateIn?.or d.interrupted }

end Turn

/-- What a turn has found stays as it was found, up to the end of all turns. -/
theorem Turns.reveals {turns : List (Turn σ)} {r r' : Run σ} (h : Turns r turns r')
    (hturns : ∀ t ∈ turns, t.Revealing) :
    (∀ s id, r.survey.graph.contains s id = true → r'.survey.graph.contains s id = true ∧
      r'.survey.graph.hides s id = r.survey.graph.hides s id) ∧
    (∀ s id, r'.survey.graph.contains s id = true →
      r.survey.graph.contains s id = true ∨ ∃ t ∈ turns, t.Inserts s id) ∧
    ∀ t ∈ turns, ∀ s id, t.Inserts s id → r'.survey.graph.contains s id = true ∧
      (r'.survey.graph.hides s id = true ↔ t.step.phase = "hierarchy") := by
  induction h with
  | done r => exact ⟨fun _ _ h => ⟨h, rfl⟩, fun _ _ h => Or.inl h, by simp⟩
  | @next t rest _ r' hstart _ ih =>
    subst hstart
    obtain ⟨hidden, hphase, hreveals⟩ := hturns t List.mem_cons_self
    obtain ⟨hkept, hknown, hfound⟩ := ih fun u hu => hturns u (List.mem_cons_of_mem t hu)
    have hafter : ∀ s id, t.left.survey.graph.contains s id = true →
        r'.survey.graph.contains s id = true ∧
          r'.survey.graph.hides s id = t.left.survey.graph.hides s id := hkept
    refine ⟨fun s id hid => ?_, fun s id hid => ?_, fun u hu s id hinserts => ?_⟩
    · obtain ⟨hend, hsame⟩ := hafter s id (hreveals.known s id hid)
      exact ⟨hend, hsame.trans (hreveals.kept s id hid)⟩
    · rcases hknown s id hid with hleft | ⟨u, hu, hinserts⟩
      · cases hold : t.start.survey.graph.contains s id with
        | true => exact Or.inl rfl
        | false => exact Or.inr ⟨t, List.mem_cons_self, hold, hleft⟩
      · exact Or.inr ⟨u, List.mem_cons_of_mem t hu, hinserts⟩
    · rcases List.mem_cons.1 hu with rfl | hu
      · obtain ⟨hold, hleft⟩ := hinserts
        obtain ⟨hend, hsame⟩ := hafter s id hleft
        refine ⟨hend, ?_⟩
        rcases hreveals.new s id hleft with hknown | hnew
        · rw [hold] at hknown
          cases hknown
        · rw [hsame, hnew, hphase]
      · exact hfound u hu s id hinserts

/-- Before the scans for some species nothing is hidden, and nothing is counted. -/
structure Unscanned (o : Options) (l : List Species) (v : Survey) : Prop where
  coherent : Coherent o v
  unjoined : ∀ s ∈ l, v.Unjoined s
  shown : ∀ t i, v.graph.hides t i = false
  uncounted : v.diagnostics.hidden = 0

/-- A scan that is not late shows what it finds. -/
theorem Turn.scan {t : Turn σ} {rest : List Species} (ho : o.includes s = true) (hrest : s ∉ rest)
    (hstep : t.step = ⟨"processes", k.findJoined s⟩) (hon : t.GoesOn)
    (h : Unscanned o (s :: rest) t.start.survey) :
    t.Revealing ∧ Unscanned o rest t.after.survey := by
  obtain ⟨step, start⟩ := t
  cases hstep
  have hends : Coherent o ((k.findJoined s).run start).2.survey ∧
      ∀ t ∈ rest, ((k.findJoined s).run start).2.survey.Unjoined t :=
    Scanning.findJoined ho hrest h.coherent h.unjoined
  have hshown : ∀ t i, ((k.findJoined s).run start).2.survey.graph.hides t i = false := by
    have hends := ends_findJoined_shown (k := k) ho hrest h.coherent h.unjoined h.shown
    unfold Ends at hends
    cases hout : ((k.findJoined s).run start).1 with
    | ok _ =>
      rw [hout] at hends
      exact hends
    | error why =>
      rw [hout] at hends
      exact absurd hends ((hon why hout).2 "processes")
  have hretains : start.survey.Retains ((k.findJoined s).run start).2.survey :=
    (Survey.Retains.steadyInScans start.survey).findJoined s start ⟨fun _ _ h => h, rfl⟩
  refine ⟨⟨false, by simp, hretains.known, fun t i _ => ?_, fun t i _ => Or.inr (hshown t i)⟩,
    Turn.coherent_after hends.1, hends.2, hshown, hretains.counted.trans h.uncounted⟩
  exact (hshown t i).trans (h.shown t i).symm

/-- The scans show what they find. -/
theorem Turns.scans (l : List Species) (hl : ∀ s ∈ l, o.includes s = true) (hnodup : l.Nodup) :
    ∀ {turns : List (Turn σ)} {r r' : Run σ}, Turns r turns r' →
      turns.map Turn.step = l.map (fun s => ⟨"processes", k.findJoined s⟩) →
      (∀ t ∈ turns, t.GoesOn) → Unscanned o l r.survey →
      (∀ t ∈ turns, t.Revealing) ∧ Unscanned o [] r'.survey := by
  induction l with
  | nil =>
    intro turns r r' h hsteps _ hr
    rw [List.map_nil, List.map_eq_nil_iff] at hsteps
    subst hsteps
    cases h
    exact ⟨by simp, hr⟩
  | cons s rest ih =>
    intro turns r r' h hsteps hon hr
    obtain ⟨hs, hnodup⟩ := List.nodup_cons.1 hnodup
    cases h with
    | done => cases hsteps
    | @next t turns _ _ hstart h =>
      subst hstart
      obtain ⟨hstep, hsteps⟩ := List.cons.inj hsteps
      obtain ⟨ht, hafter⟩ :=
        Turn.scan (hl s List.mem_cons_self) hs hstep (hon t List.mem_cons_self) hr
      obtain ⟨hrest, hend⟩ := ih (fun t ht => hl t (List.mem_cons_of_mem s ht)) hnodup h hsteps
        (fun u hu => hon u (List.mem_cons_of_mem t hu)) hafter
      exact ⟨List.forall_mem_cons.2 ⟨ht, hrest⟩, hend⟩

/-- A step after the scans accounts for what it hides, and hides it on the way up only. -/
theorem Step.revealing {step : Step σ} (h : step ∈ k.planAfterScans o) :
    Keeps (fun r : Run σ => Coherent o r.survey ∧ r.survey.Accounted) step.run.run ∧
      ∀ r, Turn.Revealing ⟨step, r⟩ := by
  have hfiles := Coherent.steadyInFiles o
  have hsights : ∀ u, SteadyInFiles (Survey.Reveals false u) := Survey.Reveals.steadyInFiles
  refine of_mem_planAfterScans (Q := fun step =>
    Keeps (fun r : Run σ => Coherent o r.survey ∧ r.survey.Accounted) step.run.run ∧
      ∀ r, Turn.Revealing ⟨step, r⟩) ?_ ?_ (fun _ s ho hs => ?_) (fun s => ?_) ?_ h
  · exact ⟨hfiles.findHeld.and Survey.Accounted.steadyInFiles.findHeld,
      fun r => ⟨false, by simp, (hsights r.survey).findHeld r (.refl false _)⟩⟩
  · exact ⟨hfiles.findMounted.and Survey.Accounted.steadyInFiles.findMounted,
      fun r => ⟨false, by simp, (hsights r.survey).findMounted r (.refl false _)⟩⟩
  · exact ⟨findAncestors_accounted hs ho, fun r => ⟨true, by simp,
      (Survey.Reveals.steadyUpwards r.survey s).findAncestors r (.refl true _)⟩⟩
  · exact ⟨fun r h => ⟨h.1.withOwners s, h.2.withOwners s⟩,
      fun r => ⟨false, by simp, (Survey.Reveals.refl false _).congr (r.survey.sameSights_withOwners s)⟩⟩
  · refine ⟨Coherent.keepMountTables.and (Survey.Accounted.steadyInFiles.keepMountTables
      fun v _ h => h.account rfl rfl rfl), fun r => ⟨false, by simp, ?_⟩⟩
    exact (hsights r.survey).keepMountTables (fun v _ h => h.congr (.refl _)) r (.refl false _)

theorem contains_freshSurvey (k : Kernel σ φ) (o : Options) (st : σ) (s : Species) (i : Identity) :
    (k.freshSurvey o st).1.graph.contains s i = false :=
  congrArg Option.isSome (Graph.get?_empty s i)

/-- When all steps have had their turns, what is hidden is accounted for. -/
theorem accounted_of_turns {st : σ} {turns : List (Turn σ)} {r : Run σ}
    (hturns : Turns ⟨(k.freshSurvey o st).2, (k.freshSurvey o st).1⟩ turns r)
    (hplan : turns.map Turn.step = k.plan o) (hgo : ∀ t ∈ turns, t.GoesOn) :
    Coherent o r.survey ∧ r.survey.Accounted ∧ ∀ t ∈ turns, t.Revealing := by
  obtain ⟨l, hl, hnodup, hscans⟩ : ∃ l : List Species, (∀ s ∈ l, o.includes s = true) ∧ l.Nodup ∧
      Step.forEach o.processes "processes" o.ordered k.findJoined =
        l.map fun s => ⟨"processes", k.findJoined s⟩ := by
    unfold Step.forEach
    split
    · exact ⟨o.ordered, fun s => mem_ordered.1, nodup_ordered o, rfl⟩
    · exact ⟨[], by simp, List.nodup_nil, rfl⟩
  rw [plan_eq, hscans, List.map_eq_append_iff] at hplan
  obtain ⟨scans, later, rfl, hscans, hlater⟩ := hplan
  obtain ⟨m, hfirst, hsecond⟩ := Turns.append_iff.1 hturns
  obtain ⟨hcoherent, hunjoined⟩ := Coherent.of_freshSurvey k o st
  have hbefore : Unscanned o l (k.freshSurvey o st).1 :=
    ⟨hcoherent, fun s _ => hunjoined s,
      fun t i => Graph.hides_of_contains_eq_false (contains_freshSurvey k o st t i), rfl⟩
  obtain ⟨hshown, hscanned⟩ := hfirst.scans l hl hnodup hscans
    (fun t ht => hgo t (List.mem_append_left later ht)) hbefore
  obtain ⟨hrevealing, hend⟩ := hsecond.invariant (T := Turn.Revealing)
    (P := fun r => Coherent o r.survey ∧ r.survey.Accounted)
    (fun t ht h => by
      obtain ⟨hkeeps, hreveals⟩ := Step.revealing (hlater ▸ List.mem_map_of_mem ht)
      obtain ⟨hleft, haccounted⟩ := hkeeps t.start h
      exact ⟨hreveals t.start, Turn.coherent_after hleft, haccounted.account rfl rfl rfl⟩)
    ⟨hscanned.coherent, .of_shown hscanned.shown hscanned.uncounted⟩
  refine ⟨hend.1, hend.2, fun t ht => ?_⟩
  rcases List.mem_append.1 ht with ht | ht
  · exact hshown t ht
  · exact hrevealing t ht

/-! ## The law -/

/-- Whatever the host answers and whatever is asked for, the hidden namespaces of a discovery that
was not interrupted are those that were found on the way up, and no others. All of them are
counted. They are user or PID namespaces with children, and have neither leaders nor processes. -/
theorem only_the_way_up_hides (k : Kernel σ φ) (o : Options) (st : σ) (v : Survey)
    (hv : ((k.discover o).run st).1 = .ok v) (hintime : v.diagnostics.interrupted = none) :
    v.graph.toList.countP (·.isHidden) = v.diagnostics.hidden ∧
    (∀ s id n, v.graph.get? s id = some n → n.isHidden = true →
      (s = .user ∨ s = .pid) ∧ n.leaders = [] ∧ n.children ≠ [] ∧
      ∀ pid p, v.processes.get? pid = some p → p.joined.get s ≠ some id) ∧
    ∃ turns r, Turns ⟨(k.freshSurvey o st).2, (k.freshSurvey o st).1⟩ turns r ∧
      turns.map Turn.step = k.plan o ∧ v.graph = r.survey.graph ∧
      (∀ s id, v.graph.contains s id = true → ∃ t ∈ turns, t.Inserts s id) ∧
      ∀ t ∈ turns, ∀ s id, t.Inserts s id → ∃ n, v.graph.get? s id = some n ∧
        (n.isHidden = true ↔ t.step.phase = "hierarchy") := by
  obtain ⟨turns, r, hturns, hplan, hgo, hsurvey⟩ := all_turns_of_discover hv hintime
  obtain ⟨hgraph, hprocesses, _, n, hdiagnostics⟩ := Survey.of_mapped hsurvey
  have hcount : v.diagnostics.hidden = r.survey.diagnostics.hidden := by
    rw [hdiagnostics]
  obtain ⟨hcoherent, haccounted, hrevealing⟩ := accounted_of_turns hturns hplan hgo
  obtain ⟨_, hknown, hfound⟩ := hturns.reveals hrevealing
  rw [hgraph, hprocesses, hcount]
  refine ⟨?_, fun s id n hn hhidden => ?_, turns, r, hturns, hplan, rfl, fun s id hid => ?_,
    fun t ht s id hinserts => ?_⟩
  · rw [← Graph.length_hidden, haccounted.counted]
  · have hbare := haccounted.bare s id (Graph.hides_eq_true.2 ⟨n, hn, hhidden⟩)
    refine ⟨?_, ?_, Graph.children_of_get? hn ▸ hbare.children,
      hbare.unjoined⟩
    · exact Species.eq_user_or_pid hbare.hasParents
    · rw [List.eq_nil_iff_forall_not_mem]
      intro pid hpid
      obtain ⟨p, hp, hjoined⟩ := hcoherent.led s id n pid hn hpid
      exact hbare.unjoined pid p hp hjoined
  · refine (hknown s id hid).resolve_left fun hfirst => ?_
    rw [contains_freshSurvey] at hfirst
    cases hfirst
  · obtain ⟨hid, hhides⟩ := hfound t ht s id hinserts
    obtain ⟨n, hn⟩ := Graph.contains_iff.1 hid
    rw [Graph.hides_of_get? hn] at hhides
    exact ⟨n, hn, hhides⟩

/-- A PID namespace that no process has joined is found on the way up from the one inside it. -/
theorem a_hidden_namespace_is_found_on_the_way_up :
    ∃ v n, ((Tableau.nested.kernel.discover { species := .single .pid }).run ()).1 = .ok v ∧
      v.graph.get? .pid ⟨4, 2⟩ = some n ∧ n.isHidden = true ∧ n.leaders = [] ∧
      v.graph.toList.countP (·.isHidden) = 1 ∧
      ∃ turns : List (Turn Unit), ∃ t ∈ turns,
        t.Inserts .pid ⟨4, 2⟩ ∧ t.step.phase = "hierarchy" := by
  have hrun : ((Tableau.nested.kernel.discover { species := .single .pid }).run ()).1.toOption.bind
      (fun v => (v.graph.get? .pid ⟨4, 2⟩).map fun n =>
        (n.isHidden, v.diagnostics.hidden, v.diagnostics.interrupted)) = some (true, 1, none) := by
    decide +kernel
  cases hv : ((Tableau.nested.kernel.discover { species := .single .pid }).run ()).1 with
  | error why =>
    rw [hv] at hrun
    cases hrun
  | ok v =>
    rw [hv] at hrun
    obtain ⟨n, hn, hview⟩ := Option.map_eq_some_iff.1 hrun
    simp only [Prod.mk.injEq] at hview
    obtain ⟨hhidden, hcount, hintime⟩ := hview
    obtain ⟨hcounted, hbare, turns, _, _, _, _, hfound, hphase⟩ :=
      only_the_way_up_hides Tableau.nested.kernel { species := .single .pid } () v hv hintime
    obtain ⟨t, ht, hinserts⟩ := hfound .pid ⟨4, 2⟩ (Graph.contains_iff.2 ⟨n, hn⟩)
    obtain ⟨m, hm, hup⟩ := hphase t ht .pid ⟨4, 2⟩ hinserts
    cases hn.symm.trans hm
    exact ⟨v, n, rfl, hn, hhidden, (hbare .pid ⟨4, 2⟩ n hn hhidden).2.1, hcounted.trans hcount,
      turns, t, ht, hinserts, hup.1 hhidden⟩

end NamespaceAtlas
