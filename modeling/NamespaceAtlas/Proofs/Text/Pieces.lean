-- Pieces put together and cut apart again. What is joined with a mark that no
-- piece has is cut into the same pieces.
import NamespaceAtlas.Text.Pieces
import Mathlib.Data.List.Basic

namespace NamespaceAtlas

variable {α : Type}

theorem pieces_eq_splitOnP (isMark : α → Bool) (l : List α) :
    pieces isMark l = l.splitOnP isMark := by
  induction l with
  | nil => rfl
  | cons a rest ih =>
    rw [List.splitOnP_cons_eq_if_modifyHead, ← ih, pieces]
    cases hrest : pieces isMark rest with
    | nil => exact absurd hrest (pieces_ne_nil isMark rest)
    | cons piece more => rfl

theorem joined_eq_intercalate (separator : List α) (l : List (List α)) :
    joined separator l = separator.intercalate l := by
  induction l with
  | nil => rfl
  | cons piece more ih =>
    cases more with
    | nil => simp [joined]
    | cons next more =>
      rw [List.intercalate_cons_cons, ← ih]
      rfl

theorem not_mark_of_mem_pieces {isMark : α → Bool} {l piece : List α}
    (h : piece ∈ pieces isMark l) : ∀ a ∈ piece, isMark a = false := by
  have hflat := flatten_pieces isMark l
  intro a ha
  have hmem : a ∈ (pieces isMark l).flatten := List.mem_flatten.2 ⟨piece, h, ha⟩
  rw [hflat, List.mem_filter] at hmem
  simpa using hmem.2

theorem pieces_append_mark {isMark : α → Bool} {a : α} (ha : isMark a = true) (l m : List α) :
    pieces isMark (l ++ a :: m) = pieces isMark l ++ pieces isMark m := by
  induction l with
  | nil => simp [pieces, ha]
  | cons b rest ih =>
    rw [List.cons_append, pieces, pieces, ih]
    split
    · rfl
    · cases hrest : pieces isMark rest with
      | nil => exact absurd hrest (pieces_ne_nil isMark rest)
      | cons piece more => rfl

/-- What is joined with a mark falls into the same pieces, if none of these has the mark. -/
theorem pieces_joined [BEq α] [LawfulBEq α] {mark : α} {l : List (List α)} (hne : l ≠ [])
    (h : ∀ piece ∈ l, mark ∉ piece) : pieces (· == mark) (joined [mark] l) = l := by
  rw [pieces_eq_splitOnP, joined_eq_intercalate]
  exact List.splitOn_intercalate mark h hne

/-- What is joined has nothing but what the pieces and the separator have. -/
theorem mem_of_mem_joined {a : α} {separator : List α} {l : List (List α)}
    (h : a ∈ joined separator l) : a ∈ separator ∨ ∃ piece ∈ l, a ∈ piece := by
  induction l using joined.induct with
  | case1 => cases h
  | case2 piece => exact Or.inr ⟨piece, List.mem_cons_self, h⟩
  | case3 piece more hmore ih =>
    rw [joined, List.mem_append, List.mem_append] at h
    · rcases h with (h | h) | h
      · exact Or.inr ⟨piece, List.mem_cons_self, h⟩
      · exact Or.inl h
      · rcases ih h with hsep | ⟨other, hother, ha⟩
        · exact Or.inl hsep
        · exact Or.inr ⟨other, List.mem_cons_of_mem piece hother, ha⟩
    · exact hmore

/-- The first mark is where a list is cut. -/
theorem cutAt_append {isMark : α → Bool} {a : α} {before : List α} (after : List α)
    (hbefore : ∀ b ∈ before, isMark b = false) (ha : isMark a = true) :
    cutAt isMark (before ++ a :: after) = some (before, after) := by
  induction before with
  | nil => simp [cutAt, ha]
  | cons b rest ih =>
    rw [List.cons_append, cutAt, hbefore b List.mem_cons_self,
      ih fun c hc => hbefore c (List.mem_cons_of_mem b hc)]
    rfl

/-- Without a mark there is one piece. -/
theorem pieces_of_not_mark {isMark : α → Bool} {l : List α} (h : ∀ a ∈ l, isMark a = false) :
    pieces isMark l = [l] := by
  induction l with
  | nil => rfl
  | cons a rest ih =>
    simp [pieces, h a List.mem_cons_self, ih fun b hb => h b (List.mem_cons_of_mem _ hb)]

/-! ## One cut -/

section Cut

variable [BEq α] [LawfulBEq α] {mark : α} {l before after : List α}

theorem cutAt_eq_none_iff : cutAt (· == mark) l = none ↔ mark ∉ l := by
  induction l with
  | nil => simp [cutAt]
  | cons a rest ih =>
    by_cases ha : a = mark
    · simp [cutAt, ha]
    · simp [cutAt, ha, Ne.symm ha, ih]

/-- A list is cut at the first mark. -/
theorem cutAt_eq_some_iff : cutAt (· == mark) l = some (before, after) ↔
    l = before ++ mark :: after ∧ mark ∉ before := by
  constructor
  · intro h
    induction l generalizing before with
    | nil => simp [cutAt] at h
    | cons a rest ih =>
      by_cases ha : a = mark
      · simp only [cutAt, ha, BEq.rfl, if_true, Option.some.injEq, Prod.mk.injEq] at h
        obtain ⟨rfl, rfl⟩ := h
        simp [ha]
      · simp only [cutAt, beq_iff_eq, ha, if_false, Option.map_eq_some_iff, Prod.exists,
          Prod.mk.injEq] at h
        obtain ⟨start, after, hrest, rfl, rfl⟩ := h
        obtain ⟨rfl, hstart⟩ := ih hrest
        simp [hstart, Ne.symm ha]
  · rintro ⟨rfl, hbefore⟩
    refine cutAt_append after (fun b hb => ?_) BEq.rfl
    simp only [beq_eq_false_iff_ne]
    rintro rfl
    exact hbefore hb

theorem pieces_of_not_mem (h : mark ∉ l) : pieces (· == mark) l = [l] :=
  pieces_of_not_mark fun _ ha => beq_eq_false_iff_ne.2 fun heq => h (heq ▸ ha)

/-- The first piece ends at the first mark. -/
theorem pieces_append_of_not_mem (h : mark ∉ before) :
    pieces (· == mark) (before ++ mark :: after) = before :: pieces (· == mark) after := by
  rw [@pieces_append_mark α (· == mark) mark BEq.rfl, pieces_of_not_mem h, List.singleton_append]

/-- A limit changes no piece but the last. -/
theorem take_piecesUpTo (limit : Nat) (l : List α) :
    (piecesUpTo (· == mark) (limit + 1) l).take limit = (pieces (· == mark) l).take limit := by
  induction limit generalizing l with
  | zero => rfl
  | succ limit ih =>
    cases hcut : cutAt (· == mark) l with
    | none => rw [piecesUpTo, hcut, pieces_of_not_mem (cutAt_eq_none_iff.1 hcut)]
    | some parts =>
      obtain ⟨before, after⟩ := parts
      obtain ⟨rfl, hbefore⟩ := cutAt_eq_some_iff.1 hcut
      rw [piecesUpTo, hcut, pieces_append_of_not_mem hbefore]
      exact congrArg (before :: ·) (ih after)

theorem cutAtLast_eq_none_iff : cutAtLast (· == mark) l = none ↔ mark ∉ l := by
  induction l with
  | nil => simp [cutAtLast]
  | cons a rest ih =>
    by_cases hrest : mark ∈ rest
    · obtain ⟨parts, hparts⟩ := Option.ne_none_iff_exists'.1 (mt ih.1 (not_not.2 hrest))
      simp [cutAtLast, hparts, hrest]
    · by_cases ha : a = mark
      · simp [cutAtLast, ih.2 hrest, ha]
      · simp [cutAtLast, ih.2 hrest, ha, Ne.symm ha, hrest]

/-- A list is cut at the last mark. -/
theorem cutAtLast_eq_some_iff : cutAtLast (· == mark) l = some (before, after) ↔
    l = before ++ mark :: after ∧ mark ∉ after := by
  induction l generalizing before after with
  | nil => simp [cutAtLast]
  | cons a rest ih =>
    cases hrest : cutAtLast (· == mark) rest with
    | some parts =>
      obtain ⟨start, finish⟩ := parts
      have hcut := ih.1 hrest
      simp only [cutAtLast, hrest, Option.some.injEq, Prod.mk.injEq]
      constructor
      · rintro ⟨rfl, rfl⟩
        exact ⟨by rw [hcut.1, List.cons_append], hcut.2⟩
      · rintro ⟨heq, hafter⟩
        cases before with
        | nil =>
          cases heq
          exact absurd (hcut.1 ▸ by simp) hafter
        | cons b before =>
          obtain ⟨rfl, hrest'⟩ := List.cons.inj heq
          have := hrest.symm.trans (ih.2 ⟨hrest', hafter⟩)
          simpa using this
    | none =>
      have hnot := cutAtLast_eq_none_iff.1 hrest
      by_cases ha : a = mark
      · simp only [cutAtLast, hrest, ha, BEq.rfl, if_true, Option.some.injEq, Prod.mk.injEq]
        constructor
        · rintro ⟨rfl, rfl⟩
          exact ⟨rfl, hnot⟩
        · rintro ⟨heq, _⟩
          cases before with
          | nil => exact ⟨rfl, (List.cons.inj heq).2⟩
          | cons b before => exact absurd ((List.cons.inj heq).2 ▸ by simp) hnot
      · simp only [cutAtLast, hrest, beq_iff_eq, ha, if_false, reduceCtorEq, false_iff]
        rintro ⟨heq, _⟩
        have hmem : mark ∈ a :: rest := heq ▸ by simp
        exact (List.mem_cons.1 hmem).elim (fun h => ha h.symm) hnot

end Cut

end NamespaceAtlas
