-- What a part of a discovery keeps. A property of the state is kept if it holds
-- after the part wherever it held before, however the part comes out; so it
-- holds after every part that is made of such parts, and at every early exit.
import NamespaceAtlas.Discovery
import NamespaceAtlas.Proofs.Outcome

namespace NamespaceAtlas

variable {ε τ σ φ α β : Type}

/-- Where `P` holds before, it holds after. -/
def Keeps (P : τ → Prop) (m : StateM τ α) : Prop := ∀ t, P t → P (m t).2

namespace Keeps

/-! ## The rules -/

section Rules

variable {P : τ → Prop}

theorem pure {a : α} : Keeps P (pure a : StateM τ α) := fun _ h => h

theorem bind {m : StateM τ α} {f : α → StateM τ β} (hm : Keeps P m) (hf : ∀ a, Keeps P (f a)) :
    Keeps P (m >>= f) := fun t h => hf _ _ (hm t h)

theorem and {Q : τ → Prop} {m : StateM τ α} (hP : Keeps P m) (hQ : Keeps Q m) :
    Keeps (fun t => P t ∧ Q t) m := fun t h => ⟨hP t h.1, hQ t h.2⟩

theorem run_pure {a : α} : Keeps P (Pure.pure a : ExceptT ε (StateM τ) α).run := fun _ h => h

theorem run_throw {why : ε} : Keeps P (throw why : ExceptT ε (StateM τ) α).run := fun _ h => h

theorem run_lift {m : StateM τ α} (hm : Keeps P m) :
    Keeps P (ExceptT.lift m : ExceptT ε (StateM τ) α).run := hm

theorem of_ends {m : ExceptT ε (StateM τ) α} (h : ∀ t, P t → Ends m t fun _ t' => P t') :
    Keeps P m.run := h

/-- A first part of which nothing is to be known but that it keeps `P`. -/
theorem ends_bind {m : ExceptT ε (StateM τ) α} {f : α → ExceptT ε (StateM τ) β} {t : τ}
    {post : Except ε β → τ → Prop} (hm : Keeps P m.run) (h : P t)
    (herror : ∀ why t', P t' → post (.error why) t') (hok : ∀ a t', P t' → Ends (f a) t' post) :
    Ends (m >>= f) t post := by
  rw [NamespaceAtlas.ends_bind]
  change andThen f post (m.run t).1 (m.run t).2
  have ht : P (m.run t).2 := hm t h
  cases (m.run t).1 with
  | error why => exact herror why _ ht
  | ok a => exact hok a _ ht

theorem run_bind {m : ExceptT ε (StateM τ) α} {f : α → ExceptT ε (StateM τ) β}
    (hm : Keeps P m.run) (hf : ∀ a, Keeps P (f a).run) : Keeps P (m >>= f).run := by
  apply of_ends
  intro t h
  exact ends_bind hm h (fun _ _ ht => ht) fun a t' ht => hf a t' ht

theorem run_forM {f : α → ExceptT ε (StateM τ) Unit} {l : List α}
    (hf : ∀ a ∈ l, Keeps P (f a).run) : Keeps P (l.forM f).run := by
  induction l with
  | nil => exact run_pure
  | cons a rest ih =>
    apply run_bind (hf a List.mem_cons_self)
    intro _
    apply ih
    intro b hb
    exact hf b (List.mem_cons_of_mem a hb)

end Rules

/-! ## Questions -/

section Questions

variable {P : σ → Prop}

theorem file {m : StateM σ (Except FileFault α)} (hm : Keeps P m) : Keeps P (Ask.file m).run :=
  bind hm fun _ => pure

theorem system {m : StateM σ (Except Errno α)} (hm : Keeps P m) : Keeps P (Ask.system m).run :=
  bind hm fun _ => pure

end Questions

/-! ## Phases -/

section Phases

variable {P : Run σ → Prop}

theorem survey : Keeps P (Phase.survey : Phase σ Survey).run := fun _ h => h

theorem survey_bind {f : Survey → Phase σ α}
    (hf : ∀ r, P r → Ends (f r.survey) r fun _ r' => P r') :
    Keeps P (Phase.survey >>= f : Phase σ α).run := hf

theorem change {f : Survey → Survey} (hf : ∀ r, P r → P { r with survey := f r.survey }) :
    Keeps P (Phase.change f : Phase σ Unit).run := hf

/-- What holds of the survey holds after a question to the kernel. -/
theorem asking {Q : Survey → Prop} {m : StateM σ α} :
    Keeps (fun r : Run σ => Q r.survey) (Phase.sure m).run := fun _ h => h

/-- A change of the survey that keeps `Q`. -/
theorem changing {Q : Survey → Prop} {f : Survey → Survey} (hf : ∀ v, Q v → Q (f v)) :
    Keeps (fun r : Run σ => Q r.survey) (Phase.change f).run := fun r h => hf r.survey h

theorem checkingTime {k : Kernel σ φ} {Q : Survey → Prop} (phase : String) :
    Keeps (fun r : Run σ => Q r.survey) (k.checkTime phase).run := by
  refine run_bind survey fun v => ?_
  split
  · exact run_pure
  · refine run_bind asking fun late => ?_
    split
    · exact run_throw
    · exact run_pure

end Phases

/-! ## Rounds -/

-- What each visit of a round keeps, the round keeps.
section Rounds

variable {P : Run σ → Prop} {k : Kernel σ φ} {s : Species} {g : Gateway} {m : Mount}

theorem readAllJoined (htime : ∀ phase, Keeps P (k.checkTime phase).run)
    {pids : List Pid} (hread : ∀ pid ∈ pids, Keeps P (k.readJoined s pid).run) :
    Keeps P (k.readAllJoined s pids).run := by
  induction pids with
  | nil => exact run_pure
  | cons pid rest ih =>
    apply run_bind (htime _)
    intro _
    apply run_bind (hread pid List.mem_cons_self)
    intro readable
    apply run_bind (ih fun x hx => hread x (List.mem_cons_of_mem pid hx))
    intro unreadable
    exact run_pure

theorem lookAtFile (htarget : ∀ file, Keeps P (Phase.sure (k.linkTarget file)).run)
    (hfind : ∀ s file r, r.survey.options.includes s = true → P r →
      Ends (k.findHeldAt s file) r fun _ r' => P r') (file : Path) :
    Keeps P (k.lookAtFile file).run := by
  apply run_bind (htarget file)
  rintro (why | target)
  · exact run_pure
  · dsimp only
    split
    · exact run_pure
    · apply survey_bind
      intro r h
      split
      · exact hfind _ _ r ‹_› h
      · exact h

theorem findHeld (htime : ∀ phase, Keeps P (k.checkTime phase).run)
    (hlisting : ∀ dir, Keeps P (Phase.sure (k.listing dir)).run)
    (hskip : Keeps P (Phase.change Survey.skipFileList).run)
    (hlook : ∀ file, Keeps P (k.lookAtFile file).run) : Keeps P k.findHeld.run := by
  refine run_bind survey fun v => ?_
  apply run_forM
  intro pid _
  apply run_bind (htime _)
  intro _
  refine run_bind survey fun v => ?_
  apply run_bind (hlisting _)
  rintro (why | names)
  · exact hskip
  · apply run_forM
    intro name _
    exact hlook _

theorem lookAtMount (htime : ∀ phase, Keeps P (k.checkTime phase).run)
    (hfind : ∀ s inode r, r.survey.options.includes s = true → P r →
      Ends (k.findMountedAt g m s inode) r fun _ r' => P r') :
    Keeps P (k.lookAtMount g m).run := by
  apply run_bind (htime _)
  intro _
  split
  · exact run_pure
  · apply survey_bind
    intro r h
    split
    · exact hfind _ _ r ‹_› h
    · exact h

theorem findMountedIn (htable : Keeps P (Phase.sure (k.contents g.tablePath)).run)
    (hnote : ∀ text, Keeps P (Phase.change (·.note text)).run)
    (hlook : ∀ m, Keeps P (k.lookAtMount g m).run) : Keeps P (k.findMountedIn g).run := by
  apply run_bind htable
  rintro (why | table)
  · exact run_bind (hnote _) fun _ => run_pure
  · dsimp only
    induction (Mount.ofTable table).filter Mount.isNamespace with
    | nil => exact run_pure
    | cons m rest ih =>
      apply run_bind (hlook m)
      intro found
      apply run_bind ih
      intro more
      exact run_pure

theorem visitAll (htime : ∀ phase, Keeps P (k.checkTime phase).run)
    (hvisit : ∀ id, Keeps P (k.visit id).run) (steps : Nat) (visited backlog : List Identity) :
    Keeps P (k.visitAll steps visited backlog).run := by
  induction steps generalizing visited backlog with
  | zero =>
    cases backlog with
    | nil => exact run_pure
    | cons id backlog => exact run_pure
  | succ steps ih =>
    cases backlog with
    | nil => exact run_pure
    | cons id backlog =>
      apply run_bind (htime _)
      intro _
      split
      · exact ih visited backlog
      · apply run_bind (hvisit id)
        intro found
        exact ih (id :: visited) (backlog ++ found)

theorem climb (hcreator : ∀ id f, Keeps P (k.findCreator s id f).run)
    (hparent : ∀ f, Keeps P (Phase.sure (k.parent f)).run)
    (hidentify : ∀ f, Keeps P (Phase.sure (k.identify f)).run)
    (hmet : ∀ id, Keeps P (Phase.change (·.metParent s id)).run)
    (hlink : ∀ parent child, Keeps P (Phase.linkParent s parent child).run)
    (steps : Nat) (child : Identity) (f : φ) : Keeps P (k.climb s steps child f).run := by
  induction steps generalizing child f with
  | zero => exact run_pure
  | succ steps ih =>
    apply run_bind (hcreator child f)
    intro _
    apply run_bind (hparent f)
    rintro (why | above)
    · exact run_pure
    · apply run_bind (hidentify above)
      rintro (why | parent)
      · exact run_throw
      · apply run_bind (hmet parent)
        intro _
        refine run_bind survey fun v => ?_
        apply run_bind (hlink parent child)
        intro _
        split
        · exact ih parent above
        · exact run_pure

end Rounds

end Keeps

/-! ## Steps -/

namespace Step

variable {P : Run σ → Prop}

/-- What holds after the run of a step holds after the step, if taking in how the run came out
keeps it. -/
theorem ends_perform {step : Step σ} {r : Run σ} (hrun : Ends step.run r fun _ r' => P r')
    (habsorb : ∀ r outcome goOn v, P r → r.survey.absorb step.phase outcome = .ok (goOn, v) →
      P { r with survey := v }) :
    Ends step.perform r fun _ r' => P r' := by
  unfold perform
  rw [ends_bind, ends_lift, andThen_ok, ends_bind, ends_survey, andThen_ok]
  have h : P (step.run.run r).2 := hrun
  cases hout : (step.run.run r).2.survey.absorb step.phase (step.run.run r).1 with
  | error why => exact h
  | ok x => exact habsorb _ _ x.1 x.2 h hout

theorem keeps_performAll {l : List (Step σ)} (hrun : ∀ step ∈ l, Keeps P step.run.run)
    (habsorb : ∀ r phase outcome goOn v, P r → r.survey.absorb phase outcome = .ok (goOn, v) →
      P { r with survey := v }) :
    Keeps P (performAll l).run := by
  induction l with
  | nil => exact Keeps.run_pure
  | cons step rest ih =>
    have hstep : Keeps P step.perform.run :=
      fun r h => ends_perform (hrun step List.mem_cons_self r h) fun r => habsorb r step.phase
    apply Keeps.run_bind hstep
    intro goOn
    split
    · exact ih fun step' h => hrun step' (List.mem_cons_of_mem step h)
    · exact Keeps.run_pure

end Step

end NamespaceAtlas
