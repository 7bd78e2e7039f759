-- The texts by which the kernel names namespaces. A text is read exactly if it is a
-- short name and a number in brackets behind a colon, and what is written is read back.
import NamespaceAtlas.Species
import NamespaceAtlas.Proofs.Number.Decimal

namespace NamespaceAtlas

namespace Species

open NamespaceAtlas.Decimal (Counts)

variable {cs before after : List Char} {s : Species}

/-! ## Names -/

theorem ofName?_eq_some_iff {name : String} : ofName? name = some s ↔ name = s.name := by
  constructor
  · intro h
    unfold ofName? at h
    have hname := List.find?_some h
    exact (beq_iff_eq.1 hname).symm
  · rintro rfl
    cases s <;> decide

theorem colon_not_mem_name (s : Species) : ':' ∉ s.name.toList := by
  cases s <;> decide

/-! ## Cutting -/

theorem eq_of_cutAtBracket (h : cutAtBracket cs = some (before, after)) :
    cs = before ++ ':' :: '[' :: after := by
  induction cs using cutAtBracket.induct generalizing before with
  | case1 => cases h
  | case2 rest =>
    cases h
    rfl
  | case3 c rest hopen ih =>
    rw [cutAtBracket] at h
    · obtain ⟨⟨start, finish⟩, hrest, heq⟩ := Option.map_eq_some_iff.1 h
      cases heq
      rw [List.cons_append, ← ih hrest]
    · exact hopen

/-- A text is cut behind the first part without a colon. -/
theorem cutAtBracket_append (h : ':' ∉ before) :
    cutAtBracket (before ++ ':' :: '[' :: after) = some (before, after) := by
  induction before with
  | nil => rfl
  | cons c rest ih =>
    rw [List.mem_cons, not_or] at h
    rw [List.cons_append, cutAtBracket, ih h.2]
    · rfl
    · rintro _ rfl
      exact absurd rfl h.1

theorem beforeBracket?_eq_some_iff : beforeBracket? cs = some before ↔ cs = before ++ [']'] := by
  unfold beforeBracket?
  rw [← List.reverse_inj, List.reverse_append, List.reverse_singleton, List.singleton_append]
  split
  · rename_i rest hrest
    rw [hrest, Option.some.injEq, List.cons_inj_right, List.reverse_eq_iff]
  · rename_i hnone
    exact iff_of_false nofun (hnone before.reverse)

/-! ## The law -/

/-- A text names a namespace of a species with an inode: the short name, and in brackets behind a
colon a number, before which a plus may stand. -/
def Spells (text : String) (s : Species) (inode : Nat) : Prop :=
  ∃ number, text.toList = s.name.toList ++ ':' :: '[' :: (number ++ [']']) ∧ Counts number inode

theorem parseText?_eq_some_iff {text : String} {n : UInt64} :
    parseText? text = some (s, n) ↔ Spells text s n.toNat := by
  unfold parseText? Spells
  simp only [Option.bind_eq_bind, Option.bind_eq_some_iff, toOption_eq_some_iff, Prod.exists,
    beforeBracket?_eq_some_iff, Decimal.readUInt64_eq_ok_iff, ofName?_eq_some_iff,
    Option.pure_def, Option.some.injEq, Prod.mk.injEq]
  constructor
  · rintro ⟨name, rest, hcut, number, rfl, _, hnumber, _, hname, rfl, rfl⟩
    refine ⟨number, ?_, hnumber⟩
    rw [eq_of_cutAtBracket hcut, ← hname, String.toList_ofList]
  · rintro ⟨number, htext, hnumber⟩
    refine ⟨s.name.toList, number ++ [']'], ?_, number, rfl, n, hnumber, s, ?_, rfl, rfl⟩
    · rw [htext, cutAtBracket_append (colon_not_mem_name s)]
    · exact String.ofList_toList

/-- What is written spells what it was written for. -/
theorem spells_text (s : Species) (n : UInt64) : Spells (s.text n) s n.toNat := by
  refine ⟨(Decimal.text n.toNat).toList, ?_, Decimal.counts_text n.toNat⟩
  simp [text]

/-- A text is read exactly if it is the short name of a species and, in brackets behind a colon, the
digits of a number that fits into 64 bits, perhaps after a plus; it gives this species and this
number. Any other text gives nothing. What is written is read back, so namespaces that differ in
species or inode differ in their texts. -/
theorem a_kernel_text_is_read_by_its_form :
    (∀ text s n, parseText? text = some (s, n) ↔ Spells text s n.toNat) ∧
    (∀ text, parseText? text = none ↔ ∀ s n, Spells text s n → UInt64.size ≤ n) ∧
    (∀ s n, parseText? (text s n) = some (s, n)) ∧
    ∀ s t n m, text s n = text t m → s = t ∧ n = m := by
  have hread : ∀ s n, parseText? (text s n) = some (s, n) :=
    fun s n => parseText?_eq_some_iff.2 (spells_text s n)
  refine ⟨fun text s n => parseText?_eq_some_iff,
    fun text => ⟨fun h s n hspells => ?_, fun h => ?_⟩, hread, fun s t n m heq => ?_⟩
  · refine Nat.not_lt.1 fun hlt => ?_
    have hn : (UInt64.ofNat n).toNat = n := UInt64.toNat_ofNat_of_lt' hlt
    rw [← hn] at hspells
    rw [parseText?_eq_some_iff.2 hspells] at h
    cases h
  · cases hparse : parseText? text with
    | none => rfl
    | some found =>
      have hle := h found.1 found.2.toNat (parseText?_eq_some_iff.1 hparse)
      exact absurd found.2.toNat_lt (Nat.not_lt.2 hle)
  · have hsame := hread s n
    rw [heq, hread t m] at hsame
    cases hsame
    exact ⟨rfl, rfl⟩

end Species

end NamespaceAtlas
