-- The turns of a discovery. Each step of the plan has its turn, in the state
-- that the one before has left, until one ends in a fatal error or with the
-- time up. The account tells of every other error on the way.
import NamespaceAtlas.Proofs.Discovery.Account

namespace NamespaceAtlas

variable {σ φ : Type}

/-- A step that had its turn, and the state in which it began. -/
structure Turn (σ : Type) where
  step : Step σ
  start : Run σ

namespace Turn

variable (t : Turn σ)

/-- How the step came out. -/
def outcome : Except Error Unit := (t.step.run.run t.start).1

/-- What the step left. -/
def left : Run σ := (t.step.run.run t.start).2

/-- The notes that the step made itself. -/
def notes : List String :=
  t.left.survey.diagnostics.notes.drop t.start.survey.diagnostics.notes.length

/-- The fatal error that the step ended in. -/
def fault? : Option Error :=
  match t.outcome with
  | .ok () => none
  | .error why => if why.isFatal then some why else none

/-- The phase in which the time was up. -/
def lateIn? : Option String :=
  match t.outcome with
  | .error (.late phase) => some phase
  | _ => none

/-- What there is to note of any other error that the step ended in. -/
def remark? : Option String :=
  match t.outcome with
  | .ok () => none
  | .error (.late _) => none
  | .error why => if why.isFatal then none else some (t.step.phase ++ ": " ++ why.message)

/-- Whether the next step has its turn as well: there was no error, or one to be noted. -/
def GoesOn : Prop :=
  ∀ why, t.outcome = .error why → why.isFatal = false ∧ ∀ phase, why ≠ .late phase

/-- The state after the turn: what the step left, and how it came out taken into the account. -/
def after : Run σ :=
  { t.left with survey := t.left.survey.mapDiagnostics fun d =>
    { d with
      notes := d.notes ++ t.remark?.toList
      interrupted := t.lateIn?.or d.interrupted } }

end Turn

/-- Turns one after the other, each in the state after the last. -/
inductive Turns : Run σ → List (Turn σ) → Run σ → Prop
  | done (r : Run σ) : Turns r [] r
  | next {t : Turn σ} {rest : List (Turn σ)} {r r' : Run σ} (hstart : t.start = r)
    (h : Turns t.after rest r') : Turns r (t :: rest) r'

/-! ## One turn -/

namespace Turn

variable {t : Turn σ} {why : Error} {phase : String}

theorem fault?_eq_some : t.fault? = some why ↔ why.isFatal = true ∧ t.outcome = .error why := by
  unfold fault?
  cases t.outcome with
  | ok _ => simp
  | error e =>
    simp only [Option.ite_none_right_eq_some, Option.some.injEq, Except.error.injEq]
    constructor
    · rintro ⟨he, rfl⟩
      exact ⟨he, rfl⟩
    · rintro ⟨hwhy, rfl⟩
      exact ⟨hwhy, rfl⟩

theorem lateIn?_eq_some : t.lateIn? = some phase ↔ t.outcome = .error (.late phase) := by
  unfold lateIn?
  cases t.outcome with
  | ok _ => simp
  | error e => cases e <;> simp

theorem goesOn_iff : t.GoesOn ↔ t.fault? = none ∧ t.lateIn? = none := by
  simp only [Option.eq_none_iff_forall_ne_some, ne_eq, fault?_eq_some, lateIn?_eq_some]
  constructor
  · intro h
    refine ⟨fun why hwhy => ?_, fun phase hout => (h _ hout).2 phase rfl⟩
    rw [(h why hwhy.2).1] at hwhy
    exact Bool.false_ne_true hwhy.1
  · rintro ⟨hfault, hlate⟩ why hout
    refine ⟨Bool.eq_false_iff.2 fun hfatal => hfault why ⟨hfatal, hout⟩, ?_⟩
    rintro phase rfl
    exact hlate phase hout

/-- Taking in how a step came out is to end the discovery, or to bring the account up to date. -/
theorem absorb_eq (t : Turn σ) : t.left.survey.absorb t.step.phase t.outcome =
    match t.fault? with
    | some why => .error why
    | none => .ok (t.lateIn?.isNone, t.after.survey) := by
  unfold after fault? remark? lateIn?
  cases t.outcome with
  | ok _ => simp [Survey.absorb, Survey.mapDiagnostics]
  | error why =>
    cases why with
    | late phase => simp [Survey.absorb, Survey.mapDiagnostics, Error.isFatal]
    | contract why => rfl
    | reparent s child existing requested => rfl
    | _ => rfl

theorem after_of_fault (h : t.fault? = some why) : t.after = t.left := by
  obtain ⟨hfatal, hout⟩ := fault?_eq_some.1 h
  have hlate : t.lateIn? = none := by
    unfold lateIn?
    rw [hout]
    cases why <;> first | rfl | cases hfatal
  have hremark : t.remark? = none := by
    unfold remark?
    rw [hout]
    cases why <;> first | rfl | cases hfatal
  unfold after
  rw [hlate, hremark]
  simp [Survey.mapDiagnostics]

/-- A step has its turn: only a fatal error ends it, and it says whether to go on. -/
theorem ends_perform (t : Turn σ) : Ends t.step.perform t.start fun x r =>
    r = t.after ∧
      ((∃ why, t.fault? = some why ∧ x = .error why) ∨
        t.fault? = none ∧ x = .ok t.lateIn?.isNone) := by
  unfold Step.perform
  rw [ends_bind, ends_lift, andThen_ok, ends_bind, ends_survey, andThen_ok]
  have hout : (t.step.run.run t.start).1 = t.outcome := rfl
  have hleft : (t.step.run.run t.start).2 = t.left := rfl
  rw [hout, hleft, absorb_eq]
  cases hfault : t.fault? with
  | some why => exact ⟨(after_of_fault hfault).symm, Or.inl ⟨why, rfl, rfl⟩⟩
  | none => exact ⟨rfl, Or.inr ⟨rfl, rfl⟩⟩

/-- The notes after a turn: those before, those of the step, and the one of its error. -/
theorem notes_after (h : Annotated t.start.survey t.left.survey) :
    t.after.survey.diagnostics.notes =
      t.start.survey.diagnostics.notes ++ (t.notes ++ t.remark?.toList) := by
  obtain ⟨own, hown⟩ := h.notes
  have hnotes : t.notes = own := by
    unfold notes
    rw [← hown, List.drop_left]
  change t.left.survey.diagnostics.notes ++ _ = _
  rw [hnotes, ← hown, List.append_assoc]

theorem interrupted_after (h : Annotated t.start.survey t.left.survey) :
    t.after.survey.diagnostics.interrupted =
      t.lateIn?.or t.start.survey.diagnostics.interrupted := by
  change t.lateIn?.or t.left.survey.diagnostics.interrupted = _
  rw [h.interrupted]

end Turn

/-! ## All turns -/

namespace Turns

variable {turns : List (Turn σ)} {r r' : Run σ}

/-- What turns have noted in the end. -/
theorem notes_eq (h : Turns r turns r')
    (hturns : ∀ t ∈ turns, Annotated t.start.survey t.left.survey) :
    r'.survey.diagnostics.notes =
      r.survey.diagnostics.notes ++ turns.flatMap fun t => t.notes ++ t.remark?.toList := by
  induction h with
  | done r => exact (List.append_nil _).symm
  | next hstart _ ih =>
    subst hstart
    rw [ih fun t ht => hturns t (List.mem_cons_of_mem _ ht),
      Turn.notes_after (hturns _ List.mem_cons_self), List.flatMap_cons, List.append_assoc]

/-- In the end the time is said to have been up if it was so in a turn. Only the last turn can
say so, since there is none after it. -/
theorem interrupted_eq_some (h : Turns r turns r')
    (hturns : ∀ t ∈ turns, Annotated t.start.survey t.left.survey)
    (hon : ∀ t ∈ turns.dropLast, t.GoesOn) (hfirst : r.survey.diagnostics.interrupted = none)
    {phase : String} : r'.survey.diagnostics.interrupted = some phase ↔
      ∃ t ∈ turns, t.lateIn? = some phase := by
  induction h with
  | done r => simp [hfirst]
  | @next t rest r r' hstart h ih =>
    subst hstart
    have hafter : t.after.survey.diagnostics.interrupted = t.lateIn? := by
      rw [Turn.interrupted_after (hturns t List.mem_cons_self), hfirst, Option.or_none]
    cases rest with
    | nil =>
      cases h
      simp [hafter]
    | cons u rest =>
      have hlate : t.lateIn? = none := (Turn.goesOn_iff.1 (hon t List.mem_cons_self)).2
      rw [hlate] at hafter
      rw [ih (fun t ht => hturns t (List.mem_cons_of_mem _ ht))
        (fun t ht => hon t (List.mem_cons_of_mem _ ht)) hafter]
      simp [hlate]

theorem append_iff {turns' : List (Turn σ)} :
    Turns r (turns ++ turns') r' ↔ ∃ m, Turns r turns m ∧ Turns m turns' r' := by
  constructor
  · intro h
    induction turns generalizing r with
    | nil => exact ⟨r, .done r, h⟩
    | cons t rest ih =>
      obtain _ | ⟨hstart, h⟩ := h
      obtain ⟨m, hrest, hm⟩ := ih h
      exact ⟨m, .next hstart hrest, hm⟩
  · rintro ⟨m, h, hm⟩
    induction h with
    | done r => exact hm
    | next hstart _ ih => exact .next hstart (ih hm)

/-- What holds at the start holds in the end, if every turn keeps it; and then all is so that the
turns do where it holds. -/
theorem invariant {P : Run σ → Prop} {T : Turn σ → Prop} (h : Turns r turns r')
    (hturn : ∀ t ∈ turns, P t.start → T t ∧ P t.after) (hr : P r) :
    (∀ t ∈ turns, T t) ∧ P r' := by
  induction h with
  | done r => exact ⟨by simp, hr⟩
  | @next t rest _ _ hstart _ ih =>
    subst hstart
    obtain ⟨ht, hafter⟩ := hturn t List.mem_cons_self hr
    obtain ⟨hrest, hend⟩ := ih (fun u hu => hturn u (List.mem_cons_of_mem t hu)) hafter
    exact ⟨List.forall_mem_cons.2 ⟨ht, hrest⟩, hend⟩

end Turns

theorem dropLast_cons_subset {α : Type} (a : α) (l : List α) :
    (a :: l).dropLast ⊆ a :: l.dropLast := by
  cases l with
  | nil => simp
  | cons b l => simp

/-- Steps have their turns in order, until one is the last. It is the last of all, or the time is
up in it, or it ends in a fatal error, which ends all. -/
theorem ends_turns (l : List (Step σ)) : ∀ r : Run σ, Ends (Step.performAll l) r fun x r' =>
    ∃ turns, Turns r turns r' ∧ turns.map Turn.step <+: l ∧
      (∀ t ∈ turns.dropLast, t.GoesOn) ∧
      ((∀ t ∈ turns, t.GoesOn) → turns.map Turn.step = l) ∧
      ∀ why, x = .error why ↔ ∃ t ∈ turns, t.fault? = some why := by
  induction l with
  | nil =>
    intro r
    unfold Step.performAll
    rw [ends_pure]
    exact ⟨[], .done r, List.prefix_rfl, by simp, fun _ => rfl, by simp⟩
  | cons step rest ih =>
    intro r
    obtain ⟨t, rfl, rfl⟩ : ∃ t : Turn σ, t.step = step ∧ t.start = r := ⟨⟨step, r⟩, rfl, rfl⟩
    have hlast : [t].map Turn.step <+: t.step :: rest := ⟨rest, rfl⟩
    unfold Step.performAll
    rw [ends_bind]
    refine t.ends_perform.mono ?_
    rintro x _ ⟨rfl, ⟨why, hfault, rfl⟩ | ⟨hfault, rfl⟩⟩
    -- A fatal error leaves the rest without a turn, and so does the end of the time below.
    · refine ⟨[t], .next rfl (.done _), hlast, by simp, fun hon => ?_, by simp [hfault]⟩
      rw [(Turn.goesOn_iff.1 (hon t List.mem_cons_self)).1] at hfault
      cases hfault
    rw [andThen_ok]
    cases hlate : t.lateIn? with
    | some phase =>
      simp only [Option.isNone_some, Bool.false_eq_true, if_false, ends_pure]
      refine ⟨[t], .next rfl (.done _), hlast, by simp, fun hon => ?_, by simp [hfault]⟩
      rw [(Turn.goesOn_iff.1 (hon t List.mem_cons_self)).2] at hlate
      cases hlate
    | none =>
      have hgo : t.GoesOn := Turn.goesOn_iff.2 ⟨hfault, hlate⟩
      refine (ih t.after).mono ?_
      rintro x r' ⟨turns, hturns, hplan, hon, hall, hout⟩
      refine ⟨t :: turns, .next rfl hturns, List.cons_prefix_cons.2 ⟨rfl, hplan⟩, ?_, ?_, ?_⟩
      · intro u hu
        rcases List.mem_cons.1 (dropLast_cons_subset t turns hu) with rfl | hu
        · exact hgo
        · exact hon u hu
      · intro hall'
        rw [List.map_cons, hall fun u hu => hall' u (List.mem_cons_of_mem t hu)]
      · simpa [hfault] using hout

/-- A discovery that comes through has had turns, none of them with a fatal error. -/
theorem turns_of_discover {k : Kernel σ φ} {o : Options} {st : σ} {v : Survey}
    (hv : ((k.discover o).run st).1 = .ok v) :
    ∃ turns r, Turns ⟨(k.freshSurvey o st).2, (k.freshSurvey o st).1⟩ turns r ∧
      turns.map Turn.step <+: k.plan o ∧ (∀ t ∈ turns.dropLast, t.GoesOn) ∧
      ((∀ t ∈ turns, t.GoesOn) → turns.map Turn.step = k.plan o) ∧
      (∀ t ∈ turns, t.fault? = none) ∧
      v = (if o.pidMap then r.survey.withPidMap else r.survey) ∧
      ((k.discover o).run st).2 = r.kernel := by
  let start : Run σ := ⟨(k.freshSurvey o st).2, (k.freshSurvey o st).1⟩
  let r := (Step.performAll (k.plan o)).run start
  obtain ⟨turns, hturns, hplan, hon, hall, hout⟩ :
      ∃ turns, Turns start turns r.2 ∧ turns.map Turn.step <+: k.plan o ∧
        (∀ t ∈ turns.dropLast, t.GoesOn) ∧
        ((∀ t ∈ turns, t.GoesOn) → turns.map Turn.step = k.plan o) ∧
        ∀ why, r.1 = .error why ↔ ∃ t ∈ turns, t.fault? = some why := ends_turns _ start
  obtain ⟨hok, hsurvey⟩ := survey_of_discover hv
  refine ⟨turns, r.2, hturns, hplan, hon, hall, fun t ht => ?_, hsurvey, rfl⟩
  rw [Option.eq_none_iff_forall_ne_some]
  intro why hwhy
  have herror := (hout why).2 ⟨t, ht, hwhy⟩
  rw [hok] at herror
  cases herror

/-- If the time was not up, every step of the plan has had its turn, and each let the next one
begin. -/
theorem all_turns_of_discover {k : Kernel σ φ} {o : Options} {st : σ} {v : Survey}
    (hv : ((k.discover o).run st).1 = .ok v) (hintime : v.diagnostics.interrupted = none) :
    ∃ turns r, Turns ⟨(k.freshSurvey o st).2, (k.freshSurvey o st).1⟩ turns r ∧
      turns.map Turn.step = k.plan o ∧ (∀ t ∈ turns, t.GoesOn) ∧
      v = if o.pidMap then r.survey.withPidMap else r.survey := by
  obtain ⟨turns, r, hturns, hplan, hon, hall, hfaults, hsurvey, _⟩ := turns_of_discover hv
  have hannotated : ∀ t ∈ turns, Annotated t.start.survey t.left.survey := fun t ht =>
    Annotated.of_mem_plan (hplan.subset (List.mem_map_of_mem ht)) t.start
  obtain ⟨_, _, _, n, hdiagnostics⟩ := Survey.of_mapped hsurvey
  have hsame : v.diagnostics.interrupted = r.survey.diagnostics.interrupted := by
    rw [hdiagnostics]
  have hgo : ∀ t ∈ turns, t.GoesOn := by
    intro t ht
    refine Turn.goesOn_iff.2 ⟨hfaults t ht, Option.eq_none_iff_forall_ne_some.2 fun phase hlate => ?_⟩
    have hphase := (hturns.interrupted_eq_some hannotated hon rfl).2 ⟨t, ht, hlate⟩
    rw [← hsame, hintime] at hphase
    cases hphase
  exact ⟨turns, r, hturns, hall hgo, hgo, hsurvey⟩

/-! ## The law -/

/-- Whatever the host answers and whatever is asked for: the steps of the plan have their turns in
order, each in the state after the one before. A turn that ends in a fatal error is the last, and
the discovery ends in that error. A turn in which the time is up is the last, and the account names
the phase. Every other error is noted after the notes of its step, and the next step has its
turn. -/
theorem only_a_fatal_error_ends_a_discovery (k : Kernel σ φ) (o : Options) (st : σ) :
    ∃ turns r, Turns ⟨(k.freshSurvey o st).2, (k.freshSurvey o st).1⟩ turns r ∧
      turns.map Turn.step <+: k.plan o ∧
      (∀ t ∈ turns.dropLast, t.GoesOn) ∧
      ((∀ t ∈ turns, t.GoesOn) →
        turns.map Turn.step = k.plan o ∧ r.survey.diagnostics.interrupted = none) ∧
      (∀ why, ((k.discover o).run st).1 = .error why ↔
        why.isFatal = true ∧ ∃ t ∈ turns, t.outcome = .error why) ∧
      ((∀ t ∈ turns, ∀ why, t.outcome = .error why → why.isFatal = false) →
        ((k.discover o).run st).1 = .ok (if o.pidMap then r.survey.withPidMap else r.survey)) ∧
      r.survey.diagnostics.notes = turns.flatMap (fun t => t.notes ++ t.remark?.toList) ∧
      ∀ phase, r.survey.diagnostics.interrupted = some phase ↔
        ∃ t ∈ turns, t.outcome = .error (.late phase) := by
  let start : Run σ := ⟨(k.freshSurvey o st).2, (k.freshSurvey o st).1⟩
  obtain ⟨x, r, hrun⟩ : ∃ x r, (Step.performAll (k.plan o)).run start = (x, r) := ⟨_, _, rfl⟩
  obtain ⟨turns, hturns, hplan, hon, hall, hout⟩ := ends_iff_run.1 (ends_turns _ start) x r hrun
  have hdiscover : ((k.discover o).run st).1 =
      x.map fun () => if o.pidMap then r.survey.withPidMap else r.survey := by
    change Except.map (fun () => if o.pidMap
      then ((Step.performAll (k.plan o)).run start).2.survey.withPidMap
      else ((Step.performAll (k.plan o)).run start).2.survey)
      ((Step.performAll (k.plan o)).run start).1 = _
    rw [hrun]
  have hannotated : ∀ t ∈ turns, Annotated t.start.survey t.left.survey := by
    intro t ht
    have hstep : t.step ∈ k.plan o := hplan.subset (List.mem_map_of_mem ht)
    exact Annotated.of_mem_plan hstep t.start
  have hlate : ∀ phase, r.survey.diagnostics.interrupted = some phase ↔
      ∃ t ∈ turns, t.outcome = .error (.late phase) := by
    intro phase
    rw [hturns.interrupted_eq_some hannotated hon rfl]
    simp only [Turn.lateIn?_eq_some]
  refine ⟨turns, r, hturns, hplan, hon, fun hgo => ⟨hall hgo, ?_⟩, fun why => ?_, fun hmild => ?_,
    hturns.notes_eq hannotated, hlate⟩
  · rw [Option.eq_none_iff_forall_ne_some]
    intro phase hphase
    obtain ⟨t, ht, htlate⟩ := (hlate phase).1 hphase
    exact (hgo t ht _ htlate).2 phase rfl
  · have herror : ((k.discover o).run st).1 = .error why ↔ x = .error why := by
      rw [hdiscover]
      cases x <;> simp [Except.map]
    rw [herror, hout why]
    simp only [Turn.fault?_eq_some]
    constructor
    · rintro ⟨t, ht, hfatal, htout⟩
      exact ⟨hfatal, t, ht, htout⟩
    · rintro ⟨hfatal, t, ht, htout⟩
      exact ⟨t, ht, hfatal, htout⟩
  · rw [hdiscover]
    cases x with
    | ok _ => rfl
    | error why =>
      obtain ⟨t, ht, hfault⟩ := (hout why).1 rfl
      obtain ⟨hfatal, htout⟩ := Turn.fault?_eq_some.1 hfault
      rw [hmild t ht why htout] at hfatal
      cases hfatal

end NamespaceAtlas
