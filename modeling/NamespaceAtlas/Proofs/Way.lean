-- Ways up. Where each thing has at most one other right above it, the way up
-- from a thing is the list of all that stand above it, the nearest first.
-- Without a circle every way ends, and it never meets a thing twice.
import Mathlib.Logic.Relation
import Mathlib.Data.Fintype.Card

namespace NamespaceAtlas

variable {α : Type} {up : α → Option α} {a b : α} {l m : List α}

/-- `b` stands above `a`, at whatever distance. -/
def Above (up : α → Option α) (a b : α) : Prop :=
  Relation.TransGen (fun a b => up a = some b) a b

/-- Nothing stands above itself. -/
def Acyclic (up : α → Option α) : Prop := ∀ a, ¬ Above up a a

/-- `l` is the whole way up from `a`: its first member is right above `a`, each other is right
above the one before, and nothing is above the last. -/
inductive Way (up : α → Option α) : α → List α → Prop
  | top {a : α} : up a = none → Way up a []
  | step {a b : α} {l : List α} : up a = some b → Way up b l → Way up a (b :: l)

/-! ## What stands above -/

theorem Above.single (h : up a = some b) : Above up a b := Relation.TransGen.single h

/-- What stands above is either right above, or above what is. -/
theorem above_iff {c : α} : Above up a c ↔ ∃ b, up a = some b ∧ (b = c ∨ Above up b c) := by
  unfold Above
  rw [Relation.TransGen.head'_iff]
  constructor
  · rintro ⟨b, hb, hc⟩
    rcases Relation.reflTransGen_iff_eq_or_transGen.1 hc with rfl | hc
    · exact ⟨_, hb, Or.inl rfl⟩
    · exact ⟨b, hb, Or.inr hc⟩
  · rintro ⟨b, hb, rfl | hc⟩
    · exact ⟨_, hb, Relation.ReflTransGen.refl⟩
    · exact ⟨b, hb, hc.to_reflTransGen⟩

theorem not_above_of_none {c : α} (h : up a = none) : ¬ Above up a c := by
  rw [above_iff]
  rintro ⟨b, hb, _⟩
  rw [h] at hb
  cases hb

theorem Above.mono {up' : α → Option α} (h : Above up a b)
    (hsub : ∀ x y, up x = some y → up' x = some y) : Above up' a b :=
  Relation.TransGen.mono hsub _ _ h

theorem Acyclic.mono {up' : α → Option α} (h : Acyclic up')
    (hsub : ∀ x y, up x = some y → up' x = some y) : Acyclic up :=
  fun a ha => h a (ha.mono hsub)

/-! ## One way from each thing -/

theorem Way.unique (h : Way up a l) (h' : Way up a m) : l = m := by
  induction h generalizing m with
  | top ha =>
    cases h' with
    | top _ => rfl
    | step hb _ =>
      rw [ha] at hb
      cases hb
  | step hb _ ih =>
    cases h' with
    | top ha =>
      rw [ha] at hb
      cases hb
    | step hb' h' =>
      rw [hb] at hb'
      cases hb'
      rw [ih h']

/-- The members of the way are what stands above. -/
theorem Way.mem_iff (h : Way up a l) : b ∈ l ↔ Above up a b := by
  induction h with
  | top ha => simp [not_above_of_none ha]
  | @step a c l hc _ ih =>
    rw [List.mem_cons, ih, above_iff (a := a)]
    constructor
    · rintro (rfl | hb)
      · exact ⟨_, hc, Or.inl rfl⟩
      · exact ⟨c, hc, Or.inr hb⟩
    · rintro ⟨d, hd, h⟩
      rw [hc] at hd
      cases hd
      exact h.imp Eq.symm id

/-- From a member of a way the rest of it leads on. -/
theorem Way.of_mem (h : Way up a l) (hb : b ∈ l) : ∃ m, Way up b m ∧ m.length < l.length := by
  induction h with
  | top _ => simp at hb
  | step _ hway ih =>
    rcases List.mem_cons.1 hb with rfl | hb
    · exact ⟨_, hway, by simp⟩
    · obtain ⟨m, hm, hlt⟩ := ih hb
      exact ⟨m, hm, by simp; omega⟩

theorem Way.forall_mem {P : α → Prop} (h : Way up a l) (hP : ∀ a b, up a = some b → P b) :
    ∀ b ∈ l, P b := by
  induction h with
  | top _ => simp
  | step hb _ ih =>
    intro c hc
    rcases List.mem_cons.1 hc with rfl | hc
    · exact hP _ _ hb
    · exact ih c hc

theorem Way.not_mem (h : Way up a l) : a ∉ l := by
  intro ha
  obtain ⟨m, hm, hlt⟩ := h.of_mem ha
  rw [h.unique hm] at hlt
  omega

/-- A way meets nothing twice, nor where it started. -/
theorem Way.nodup (h : Way up a l) : (a :: l).Nodup := by
  induction h with
  | top _ => simp
  | step hb hway ih => exact List.nodup_cons.2 ⟨(Way.step hb hway).not_mem, ih⟩

theorem Way.up_last (h : Way up a l) : up ((a :: l).getLast (by simp)) = none := by
  induction h with
  | top ha => simpa using ha
  | step _ _ ih => rwa [List.getLast_cons (by simp)]

/-- Links that agree along a way have the same way. -/
theorem Way.congr {up' : α → Option α} (h : Way up a l) (hup : ∀ b ∈ a :: l, up' b = up b) :
    Way up' a l := by
  induction h with
  | top ha => exact .top ((hup _ (by simp)).trans ha)
  | step hb _ ih =>
    refine .step ((hup _ (by simp)).trans hb) (ih fun c hc => hup c ?_)
    exact List.mem_cons_of_mem _ hc

/-- A way that ended at a thing goes on where new links lead from there. -/
theorem Way.extend {up' : α → Option α} {c : α} (h : Way up a l) (hc : c ∈ a :: l)
    (htop : up c = none) (hup : ∀ b, b ≠ c → up' b = up b) (hrest : Way up' c m) :
    Way up' a (l ++ m) := by
  induction h with
  | top _ =>
    obtain rfl := List.mem_singleton.1 hc
    exact hrest
  | @step a b l hb _ ih =>
    have hac : a ≠ c := by
      rintro rfl
      rw [htop] at hb
      cases hb
    exact .step ((hup a hac).trans hb) (ih ((List.mem_cons.1 hc).resolve_left hac.symm))

/-- Nothing is above the last on a way, and above it only. -/
theorem Way.up_eq_none_iff (h : Way up a l) (hb : b ∈ a :: l) :
    up b = none ↔ b = (a :: l).getLast (by simp) := by
  constructor
  · intro htop
    induction h with
    | top _ => exact List.mem_singleton.1 hb
    | @step a c l hc _ ih =>
      have hab : b ≠ a := by
        rintro rfl
        rw [htop] at hc
        cases hc
      rw [List.getLast_cons (by simp)]
      exact ih ((List.mem_cons.1 hb).resolve_left hab)
  · rintro rfl
    exact h.up_last

/-- A way through no more than the members of a list, its start among them, is shorter than
the list. -/
theorem Way.length_lt {s : List α} (h : Way up a l) (hs : ∀ b ∈ a :: l, b ∈ s) :
    l.length < s.length := by
  have := h.nodup.length_le_of_subset hs
  rw [List.length_cons] at this
  omega

/-- What is met above the start is right above something that is met. -/
theorem Way.mem_iff_up (h : Way up a l) : b ∈ a :: l ↔ b = a ∨ ∃ c ∈ a :: l, up c = some b := by
  induction h with
  | top ha => simp [ha]
  | @step a c l hc _ ih =>
    rw [List.mem_cons, ih]
    constructor
    · rintro (hb | rfl | ⟨d, hd, hb⟩)
      · exact Or.inl hb
      · exact Or.inr ⟨a, List.mem_cons_self, hc⟩
      · exact Or.inr ⟨d, List.mem_cons_of_mem a hd, hb⟩
    · rintro (hb | ⟨d, hd, hb⟩)
      · exact Or.inl hb
      · rcases List.mem_cons.1 hd with rfl | hd
        · rw [hc] at hb
          cases hb
          exact Or.inr (Or.inl rfl)
        · exact Or.inr (Or.inr ⟨d, hd, hb⟩)

/-- From different members of a way the rest of it differs in length. -/
theorem Way.eq_of_length {lb lc : List α} {c : α} (h : Way up a l) (hb : b ∈ a :: l)
    (hc : c ∈ a :: l) (hlb : Way up b lb) (hlc : Way up c lc) (hlength : lb.length = lc.length) :
    b = c := by
  induction h with
  | top _ => rw [List.mem_singleton.1 hb, List.mem_singleton.1 hc]
  | @step a d l hd hway ih =>
    have hshorter : ∀ {x lx}, x ∈ d :: l → Way up x lx → lx.length < (d :: l).length := by
      intro x lx hx hlx
      obtain ⟨m, hm, hlt⟩ := (Way.step hd hway).of_mem hx
      rwa [hlx.unique hm]
    rcases List.mem_cons.1 hb with hba | hbl
    · rcases List.mem_cons.1 hc with hca | hcl
      · rw [hba, hca]
      · have hwhole : Way up a lb := hba ▸ hlb
        have := hshorter hcl hlc
        rw [← hlength, hwhole.unique (Way.step hd hway)] at this
        omega
    · rcases List.mem_cons.1 hc with hca | hcl
      · have hwhole : Way up a lc := hca ▸ hlc
        have := hshorter hbl hlb
        rw [hlength, hwhole.unique (Way.step hd hway)] at this
        omega
      · exact ih hbl hcl

/-! ## Ways end -/

/-- Where each step up leads to something of less rank there is no circle. -/
theorem acyclic_of_rank (rank : α → Nat) (h : ∀ a b, up a = some b → rank b < rank a) :
    Acyclic up := by
  have hlt : ∀ a b, Above up a b → rank b < rank a := by
    intro a b hab
    induction hab with
    | single hb => exact h _ _ hb
    | tail _ hc ih => exact Nat.lt_trans (h _ _ hc) ih
  intro a ha
  have := hlt a a ha
  omega

/-- Among finitely many things without a circle, every way ends. -/
theorem Acyclic.exists_way [Finite α] (h : Acyclic up) (a : α) : ∃ l, Way up a l := by
  let below : α → α → Prop := fun b a => Above up a b
  have : IsTrans α below := ⟨fun _ _ _ hab hbc => hbc.trans hab⟩
  have : Std.Irrefl below := ⟨h⟩
  have hwf : WellFounded below := Finite.wellFounded_of_trans_of_irrefl below
  induction a using hwf.induction with
  | _ a ih =>
    cases hup : up a with
    | none => exact ⟨[], .top hup⟩
    | some b =>
      obtain ⟨l, hl⟩ := ih b (Above.single hup)
      exact ⟨b :: l, .step hup hl⟩

/-- Going up from a thing comes to one that stands above itself. -/
def GoesRound (up : α → Option α) (a : α) : Prop :=
  ∃ b, (a = b ∨ Above up a b) ∧ Above up b b

theorem GoesRound.mono {up' : α → Option α} (h : GoesRound up a)
    (hsub : ∀ x y, up x = some y → up' x = some y) : GoesRound up' a := by
  obtain ⟨b, hb, hround⟩ := h
  exact ⟨b, hb.imp_right (·.mono hsub), hround.mono hsub⟩

/-- There is always one more step up before a circle and on it, and a circle from there. -/
theorem GoesRound.next (h : GoesRound up a) : ∃ b, up a = some b ∧ GoesRound up b := by
  obtain ⟨c, rfl | hac, hcc⟩ := h
  · obtain ⟨b, hb, hc⟩ := above_iff.1 hcc
    exact ⟨b, hb, a, hc, hcc⟩
  · obtain ⟨b, hb, hc⟩ := above_iff.1 hac
    exact ⟨b, hb, c, hc, hcc⟩

/-- A way that ends meets no circle. -/
theorem Way.not_goesRound (h : Way up a l) : ¬ GoesRound up a := by
  induction h with
  | top ha =>
    intro hround
    obtain ⟨b, hb, _⟩ := hround.next
    rw [ha] at hb
    cases hb
  | step hb _ ih =>
    intro hround
    obtain ⟨c, hc, hround⟩ := hround.next
    rw [hb] at hc
    cases hc
    exact ih hround

/-- Among finitely many things, a way up either ends or goes round. -/
theorem exists_way_iff [Finite α] : (∃ l, Way up a l) ↔ ¬ GoesRound up a := by
  classical
  constructor
  · rintro ⟨l, hl⟩
    exact hl.not_goesRound
  · intro hnot
    -- No circle is left when all links but those that are met on the way up are cut.
    let met : α → Prop := fun x => a = x ∨ Above up a x
    let up' : α → Option α := fun x => if met x then up x else none
    have hsub : ∀ x y, up' x = some y → met x ∧ up x = some y := by
      intro x y hxy
      by_cases hx : met x
      · exact ⟨hx, by simpa [up', hx] using hxy⟩
      · simp [up', hx] at hxy
    have hmono : ∀ {x y}, Above up' x y → Above up x y :=
      fun h => h.mono fun x y hxy => (hsub x y hxy).2
    have hac : Acyclic up' := by
      intro x hx
      obtain ⟨y, hy, _⟩ := above_iff.1 hx
      exact hnot ⟨x, (hsub x y hy).1, hmono hx⟩
    obtain ⟨l, hl⟩ := hac.exists_way a
    refine ⟨l, hl.congr fun b hb => ?_⟩
    have hmet : met b := by
      rcases List.mem_cons.1 hb with rfl | hb
      · exact Or.inl rfl
      · exact Or.inr (hmono (hl.mem_iff.1 hb))
    simp [up', hmet]

/-- A new link makes no circle if it does not lead down to where it starts. -/
theorem Acyclic.link [DecidableEq α] (h : Acyclic up) (hab : a ≠ b) (hnot : ¬ Above up b a) :
    Acyclic fun x => if x = a then some b else up x := by
  -- A circle would pass the new link, and the rest of it would lead from `b` to `a`.
  have key : ∀ x y, Above (fun x => if x = a then some b else up x) x y →
      Above up x y ∨ ((x = a ∨ Above up x a) ∧ (y = b ∨ Above up b y)) := by
    intro x y hxy
    induction hxy with
    | @single y hy =>
      by_cases hx : x = a
      · simp only [hx, if_true, Option.some.injEq] at hy
        exact Or.inr ⟨Or.inl hx, Or.inl hy.symm⟩
      · simp only [hx, if_false] at hy
        exact Or.inl (Above.single hy)
    | @tail y z _ hz ih =>
      by_cases hy : y = a
      · simp only [hy, if_true, Option.some.injEq] at hz
        subst hy
        refine Or.inr ⟨?_, Or.inl hz.symm⟩
        rcases ih with ih | ⟨ih, _⟩
        · exact Or.inr ih
        · exact ih
      · simp only [hy, if_false] at hz
        rcases ih with ih | ⟨hx, rfl | ih⟩
        · exact Or.inl (ih.tail hz)
        · exact Or.inr ⟨hx, Or.inr (Above.single hz)⟩
        · exact Or.inr ⟨hx, Or.inr (ih.tail hz)⟩
  intro x hx
  rcases key x x hx with hx | ⟨hxa, hxb⟩
  · exact h x hx
  · rcases hxa with rfl | hxa
    · rcases hxb with rfl | hxb
      · exact hab rfl
      · exact hnot hxb
    · rcases hxb with rfl | hxb
      · exact hnot hxa
      · exact hnot (hxb.trans hxa)

end NamespaceAtlas
