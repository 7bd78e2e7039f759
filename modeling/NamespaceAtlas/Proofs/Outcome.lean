-- How a part of a discovery comes out. `Ends m t post` says that `post` holds
-- of the outcome of `m` and of the state after it, when it starts in `t`.
-- There is one rule for each thing that a part is made of.
import NamespaceAtlas.Discovery.Phase

namespace NamespaceAtlas

variable {ε τ σ α β : Type}

/-- `post` holds of how `m` comes out, and of the state that it leaves. -/
def Ends (m : ExceptT ε (StateM τ) α) (t : τ) (post : Except ε α → τ → Prop) : Prop :=
  post (m.run t).1 (m.run t).2

/-- What is to hold after the first of two parts, for `post` to hold after both. -/
def andThen (f : α → ExceptT ε (StateM τ) β) (post : Except ε β → τ → Prop) :
    Except ε α → τ → Prop
  | .ok a, t => Ends (f a) t post
  | .error why, t => post (.error why) t

@[simp] theorem andThen_ok {f : α → ExceptT ε (StateM τ) β} {post : Except ε β → τ → Prop}
    {a : α} {t : τ} : andThen f post (.ok a) t ↔ Ends (f a) t post := Iff.rfl

@[simp] theorem andThen_error {f : α → ExceptT ε (StateM τ) β}
    {post : Except ε β → τ → Prop} {why : ε} {t : τ} :
    andThen f post (.error why) t ↔ post (.error why) t := Iff.rfl

/-- What is to hold of a part that comes through, and of the error that ends one. -/
def barring (bad : ε → Prop) (post : α → τ → Prop) : Except ε α → τ → Prop
  | .ok a, t => post a t
  | .error why, _ => bad why

@[simp] theorem barring_ok {bad : ε → Prop} {post : α → τ → Prop} {a : α} {t : τ} :
    barring bad post (.ok a) t ↔ post a t := Iff.rfl

@[simp] theorem barring_error {bad : ε → Prop} {post : α → τ → Prop} {why : ε} {t : τ} :
    barring bad post (.error why) t ↔ bad why := Iff.rfl

theorem Ends.mono {m : ExceptT ε (StateM τ) α} {t : τ} {post post' : Except ε α → τ → Prop}
    (h : Ends m t post) (himp : ∀ x t', post x t' → post' x t') : Ends m t post' := himp _ _ h

theorem Ends.and {m : ExceptT ε (StateM τ) α} {t : τ} {post post' : Except ε α → τ → Prop}
    (h : Ends m t post) (h' : Ends m t post') : Ends m t fun x t' => post x t' ∧ post' x t' :=
  ⟨h, h'⟩

theorem ends_iff_run {m : ExceptT ε (StateM τ) α} {t : τ} {post : Except ε α → τ → Prop} :
    Ends m t post ↔ ∀ x t', m.run t = (x, t') → post x t' := by
  constructor
  · intro h x t' hrun
    unfold Ends at h
    rwa [hrun] at h
  · intro h
    exact h _ _ rfl

/-- How a part comes out that has been run. -/
theorem ends_of_toOption {m : ExceptT ε (StateM τ) α} {t t' : τ} {a : α}
    (h : ((m.run t).1.toOption, (m.run t).2) = (some a, t')) :
    Ends m t fun x t'' => x = .ok a ∧ t'' = t' := by
  unfold Ends
  obtain ⟨hout, hstate⟩ := Prod.mk.inj h
  refine ⟨?_, hstate⟩
  cases hm : (m.run t).1 with
  | error why =>
    rw [hm] at hout
    cases hout
  | ok b =>
    rw [hm] at hout
    cases hout
    rfl

/-! ## The rules -/

section Rules

variable {t : τ} {post : Except ε α → τ → Prop}

@[simp] theorem ends_pure {a : α} :
    Ends (pure a : ExceptT ε (StateM τ) α) t post ↔ post (.ok a) t := Iff.rfl

@[simp] theorem ends_throw {why : ε} :
    Ends (throw why : ExceptT ε (StateM τ) α) t post ↔ post (.error why) t := Iff.rfl

@[simp] theorem ends_bind {m : ExceptT ε (StateM τ) β} {f : β → ExceptT ε (StateM τ) α} :
    Ends (m >>= f) t post ↔ Ends m t (andThen f post) := by
  change post (ExceptT.bindCont f (m t).1 (m t).2).1 (ExceptT.bindCont f (m t).1 (m t).2).2 ↔
    andThen f post (m t).1 (m t).2
  cases (m t).1 with
  | ok b => rfl
  | error why => rfl

@[simp] theorem ends_lift {m : StateM τ α} :
    Ends (ExceptT.lift m : ExceptT ε (StateM τ) α) t post ↔ post (.ok (m t).1) (m t).2 := Iff.rfl

/-- An error that is caught is an answer. -/
@[simp] theorem ends_caught {m : Ask τ α} {post : Except Error (Except Error α) → τ → Prop} :
    Ends (Ask.sure m.run) t post ↔ Ends m t fun x t' => post (.ok x) t' := Iff.rfl

@[simp] theorem ends_file {m : StateM σ (Except FileFault α)} {st : σ}
    {post : Except Error α → σ → Prop} :
    Ends (Ask.file m) st post ↔ post ((m st).1.mapError .file) (m st).2 := Iff.rfl

/-- A part that is done for each member of a list. What holds after some members holds after one
more, unless an error ends the part, of which `bad` holds then. -/
theorem ends_forM_barring {f : α → ExceptT ε (StateM τ) Unit} (bad : ε → Prop)
    (inv : List α → τ → Prop) (l : List α)
    (hstep : ∀ done a rest t, l = done ++ a :: rest → inv done t →
      Ends (f a) t (barring bad fun _ t' => inv (done ++ [a]) t'))
    (h : inv [] t) : Ends (l.forM f) t (barring bad fun _ t' => inv l t') := by
  suffices hgen : ∀ rest done t, l = done ++ rest → inv done t →
      Ends (rest.forM f) t (barring bad fun _ t' => inv l t') from hgen l [] t rfl h
  intro rest
  induction rest with
  | nil =>
    intro done t hl hinv
    rw [List.append_nil] at hl
    change inv l t
    rwa [hl]
  | cons a rest ih =>
    intro done t hl hinv
    change Ends (f a >>= fun _ => rest.forM f) t _
    rw [ends_bind]
    refine (hstep done a rest t hl hinv).mono ?_
    rintro (why | _) t' hafter
    · exact hafter
    · exact ih (done ++ [a]) t' (hl.trans (List.append_cons done a rest)) hafter

/-- A part that is done for each member of a list comes through, if each time it comes through
and what holds after some members holds after one more. -/
theorem ends_forM {f : α → ExceptT ε (StateM τ) Unit} (inv : List α → τ → Prop) (l : List α)
    (hstep : ∀ done a rest t, l = done ++ a :: rest → inv done t →
      Ends (f a) t fun x t' => x = .ok () ∧ inv (done ++ [a]) t')
    (h : inv [] t) : Ends (l.forM f) t fun x t' => x = .ok () ∧ inv l t' := by
  refine (ends_forM_barring (fun _ => False) inv l ?_ h).mono ?_
  · intro done a rest t hl hinv
    refine (hstep done a rest t hl hinv).mono ?_
    rintro _ t' ⟨rfl, hafter⟩
    exact hafter
  · rintro (why | _) t' hafter
    · exact hafter.elim
    · exact ⟨rfl, hafter⟩

end Rules

/-! ## Parts of a discovery -/

section Phases

variable {r : Run σ}

@[simp] theorem ends_survey {post : Except Error Survey → Run σ → Prop} :
    Ends (Phase.survey : Phase σ Survey) r post ↔ post (.ok r.survey) r := Iff.rfl

@[simp] theorem ends_change {f : Survey → Survey} {post : Except Error Unit → Run σ → Prop} :
    Ends (Phase.change f : Phase σ Unit) r post ↔
      post (.ok ()) { r with survey := f r.survey } := Iff.rfl

@[simp] theorem ends_sure {m : StateM σ α} {post : Except Error α → Run σ → Prop} :
    Ends (Phase.sure m : Phase σ α) r post ↔
      post (.ok (m r.kernel).1) { r with kernel := (m r.kernel).2 } := Iff.rfl

@[simp] theorem ends_attempt {m : Ask σ α}
    {post : Except Error (Except Error α) → Run σ → Prop} :
    Ends (Phase.attempt m : Phase σ (Except Error α)) r post ↔
      Ends m r.kernel fun x st => post (.ok x) { r with kernel := st } := Iff.rfl

/-- Where no limit is set, time is never up. -/
theorem ends_checkTime {φ : Type} {k : Kernel σ φ} {phase : String}
    {post : Except Error Unit → Run σ → Prop} (hlimit : r.survey.options.limit = none)
    (h : post (.ok ()) r) : Ends (k.checkTime phase) r post := by
  unfold Kernel.checkTime
  rw [ends_bind, ends_survey, andThen_ok, hlimit]
  exact h

/-- The error of a phase that runs out of time. There is none where no limit is set. -/
def Options.OutOfTime (o : Options) (phase : String) (why : Error) : Prop :=
  o.limit ≠ none ∧ why = .late phase

/-- Looking at the clock changes nothing that was found, whether or not the time is up. -/
theorem ends_checkTime_barring {φ : Type} {k : Kernel σ φ} {phase : String}
    {post : Except Error Unit → Run σ → Prop} (hok : ∀ st, post (.ok ()) ⟨st, r.survey⟩)
    (hlate : ∀ why st, r.survey.options.OutOfTime phase why → post (.error why) ⟨st, r.survey⟩) :
    Ends (k.checkTime phase) r post := by
  unfold Kernel.checkTime
  rw [ends_bind, ends_survey, andThen_ok]
  cases hlimit : r.survey.options.limit with
  | none => exact hok r.kernel
  | some limit =>
    dsimp only
    rw [ends_bind, ends_sure, andThen_ok]
    split
    · exact hlate _ _ ⟨by simp [hlimit], rfl⟩
    · exact hok _

/-- Without a limit a part comes through that only running out of time can end. -/
theorem Ends.of_no_limit {o : Options} {phase : String} {m : ExceptT Error (StateM τ) α} {t : τ}
    {post : α → τ → Prop} (hlimit : o.limit = none)
    (h : Ends m t (barring (o.OutOfTime phase) post)) :
    Ends m t fun x t' => ∃ a, x = .ok a ∧ post a t' := by
  refine h.mono ?_
  rintro (why | a) t' hafter
  · exact absurd hlimit hafter.1
  · exact ⟨a, rfl, hafter⟩

end Phases

end NamespaceAtlas
