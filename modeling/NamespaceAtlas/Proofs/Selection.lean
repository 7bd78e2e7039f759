-- Selections of species. Of all that a selection is made of, only a word that was read
-- with options can have bits past the last slot, and a selection without such bits is
-- told by its species.
import NamespaceAtlas.Species.Selection
import NamespaceAtlas.Proofs.StoredOptions
import Mathlib.Data.List.Dedup

namespace NamespaceAtlas

namespace Selection

variable {a b : Selection} {s : Species} {i : Nat}

/-! ## Bits -/

/-- Whether a bit of the word is set. -/
def bit (a : Selection) (i : Nat) : Bool := a.bits.toBitVec.getLsbD i

theorem ext_bit (h : ∀ i, a.bit i = b.bit i) : a = b := by
  obtain ⟨x⟩ := a
  obtain ⟨y⟩ := b
  have hxy : x = y := UInt32.toBitVec_inj.1 (BitVec.eq_of_getLsbD_eq fun i _ => h i)
  rw [hxy]

@[simp] theorem bit_none (i : Nat) : none.bit i = false := BitVec.getLsbD_zero

@[simp] theorem bit_union (a b : Selection) (i : Nat) :
    (a.union b).bit i = (a.bit i || b.bit i) := BitVec.getLsbD_or

@[simp] theorem bit_inter (a b : Selection) (i : Nat) :
    (a.inter b).bit i = (a.bit i && b.bit i) := BitVec.getLsbD_and

theorem bit_all_iff : all.bit i ↔ i < 8 := by
  have hall : all.bits.toBitVec = (BitVec.allOnes 8).setWidth 32 := by decide
  rw [bit, hall, BitVec.getLsbD_setWidth, BitVec.getLsbD_allOnes]
  simp
  omega

theorem bit_single_iff : (single s).bit i ↔ s.slot = i := by
  have hsingle : (single s).bits.toBitVec = BitVec.twoPow 32 s.slot := by cases s <;> decide
  have hlt := s.slot_lt
  rw [bit, hsingle, BitVec.getLsbD_twoPow]
  simp
  omega

theorem bit_ofBits_iff : (ofBits a.bits).bit i ↔ a.bit i ∧ i < 8 := by
  have hinter : ofBits a.bits = a.inter all := rfl
  rw [hinter, bit_inter, Bool.and_eq_true, bit_all_iff]

theorem contains_iff : a.contains b ↔ ∀ i, b.bit i → a.bit i := by
  have hinter : a.contains b ↔ a.inter b = b := by
    rw [contains, beq_iff_eq, Selection.mk.injEq]
    rfl
  rw [hinter]
  constructor
  · intro h i hi
    rw [← h, bit_inter, Bool.and_eq_true] at hi
    exact hi.1
  · intro h
    refine ext_bit fun i => ?_
    rw [bit_inter, Bool.and_eq_right_iff_imp]
    exact h i

theorem has_iff : a.has s ↔ a.bit s.slot := by
  rw [has, contains_iff]
  simp [bit_single_iff]

theorem isEmpty_iff : a.isEmpty ↔ a = none := by
  rw [isEmpty, beq_iff_eq, Selection.mk.injEq]
  rfl

/-! ## Species -/

@[simp] theorem mem_species : s ∈ a.species ↔ a.has s := by
  rw [species, List.mem_filter, and_iff_right s.mem_all]

theorem bit_ofList_iff {l : List Species} : (ofList l).bit i ↔ ∃ s ∈ l, s.slot = i := by
  -- The fold starts from nothing, but its steps go on from any selection.
  have hfold : ∀ (l : List Species) (a : Selection),
      (l.foldl (fun a s => a.union (single s)) a).bit i ↔ a.bit i ∨ ∃ s ∈ l, s.slot = i := by
    intro l
    induction l with
    | nil => simp
    | cons s rest ih =>
      intro a
      rw [List.foldl_cons, ih, bit_union, Bool.or_eq_true, bit_single_iff]
      simp [or_assoc]
  rw [ofList, hfold]
  simp

@[simp] theorem has_ofList {l : List Species} : (ofList l).has s ↔ s ∈ l := by
  simp [has_iff, bit_ofList_iff, Species.slot_inj]

/-- A collected list gives its species in the order of the slots, each once. -/
theorem species_ofList (l : List Species) :
    (ofList l).species = l.dedup.mergeSort fun s t => s.slot ≤ t.slot := by
  -- Both have the same species, and slots can order them in one way only.
  have hperm : (ofList l).species.Perm (l.dedup.mergeSort fun s t => s.slot ≤ t.slot) := by
    have hnodup : (ofList l).species.Nodup := Species.nodup_all.filter _
    have hmem : ∀ s, s ∈ (ofList l).species ↔ s ∈ l.dedup := by simp
    have hdedup := (List.perm_ext_iff_of_nodup hnodup (List.nodup_dedup l)).2 hmem
    exact hdedup.trans (List.mergeSort_perm _ _).symm
  have hspecies : (ofList l).species.Pairwise (·.slot ≤ ·.slot) :=
    List.Pairwise.filter _ (by decide)
  have hsorted : (l.dedup.mergeSort fun s t => s.slot ≤ t.slot).Pairwise (·.slot ≤ ·.slot) := by
    refine (List.pairwise_mergeSort ?_ ?_ l.dedup).imp of_decide_eq_true
    · simp only [decide_eq_true_eq]
      exact fun _ _ _ => Nat.le_trans
    · simp only [Bool.or_eq_true, decide_eq_true_eq]
      exact fun s t => Nat.le_total s.slot t.slot
  exact hperm.eq_of_pairwise (fun s t _ _ hst hts => Species.slot_inj.1 (Nat.le_antisymm hst hts))
    hspecies hsorted

/-! ## Bits past the last slot -/

/-- Only bits of slots are set. -/
def InSlots (a : Selection) : Prop := ∀ i, a.bit i → i < 8

theorem ofBits_eq_self_iff : ofBits a.bits = a ↔ a.InSlots := by
  constructor
  · intro h i hi
    rw [← h, bit_ofBits_iff] at hi
    exact hi.2
  · intro h
    refine ext_bit fun i => Bool.eq_iff_iff.2 ?_
    rw [bit_ofBits_iff, and_iff_left_of_imp (h i)]

/-- The species collected again make the selection without the bits past the last slot. -/
theorem ofList_species (a : Selection) : ofList a.species = ofBits a.bits := by
  refine ext_bit fun i => Bool.eq_iff_iff.2 ?_
  rw [bit_ofList_iff, bit_ofBits_iff]
  constructor
  · rintro ⟨s, hs, rfl⟩
    exact ⟨has_iff.1 (mem_species.1 hs), s.slot_lt⟩
  · rintro ⟨hbit, hi⟩
    obtain ⟨s, rfl⟩ := Species.exists_slot_eq hi
    exact ⟨s, mem_species.2 (has_iff.2 hbit), rfl⟩

theorem species_ofBits (a : Selection) : (ofBits a.bits).species = a.species := by
  refine List.filter_congr fun s _ => Bool.eq_iff_iff.2 ?_
  rw [has_iff, has_iff, bit_ofBits_iff, and_iff_left s.slot_lt]

theorem species_eq_iff : a.species = b.species ↔ ofBits a.bits = ofBits b.bits := by
  constructor
  · intro h
    rw [← ofList_species, ← ofList_species, h]
  · intro h
    rw [← species_ofBits a, ← species_ofBits b, h]

theorem species_eq_nil_iff : a.species = [] ↔ ofBits a.bits = none := by
  have hnone : none.species = [] := by decide
  rw [← hnone, species_eq_iff]
  rfl

theorem inSlots_single (s : Species) : (single s).InSlots := fun i hi => by
  rw [bit_single_iff] at hi
  exact hi ▸ s.slot_lt

theorem inSlots_ofBits (a : Selection) : (ofBits a.bits).InSlots := fun _ hi =>
  (bit_ofBits_iff.1 hi).2

theorem inSlots_ofList (l : List Species) : (ofList l).InSlots := fun i hi => by
  obtain ⟨s, _, hs⟩ := bit_ofList_iff.1 hi
  exact hs ▸ s.slot_lt

theorem inSlots_all : all.InSlots := fun _ => bit_all_iff.1

theorem InSlots.not_bit (h : a.InSlots) (hi : 8 ≤ i) : ¬ a.bit i := fun hbit =>
  Nat.not_lt.2 hi (h i hbit)

/-! ## What selections are made of -/

/-- A way to make a selection. -/
inductive Making where
  | single (s : Species)
  | ofBits (bits : UInt32)
  | ofList (l : List Species)
  /-- All species, as options have them by default. -/
  | all
  | union (m n : Making)
  | inter (m n : Making)
  /-- The species of options that are read from a document. -/
  | read (d : Document) (o : Options) (h : Options.ofDocument? d = some o)

namespace Making

/-- The selection that is made. -/
def selection : Making → Selection
  | single s => .single s
  | ofBits bits => .ofBits bits
  | ofList l => .ofList l
  | all => .all
  | union m n => m.selection.union n.selection
  | inter m n => m.selection.inter n.selection
  | read _ o _ => o.species

/-- The options that are read on the way. -/
def readings : Making → List Options
  | union m n | inter m n => m.readings ++ n.readings
  | read _ o _ => [o]
  | _ => []

variable {m : Making}

/-- A bit past the last slot was read. No other leaf has one, and the operators add none. -/
theorem exists_reading (hi : 8 ≤ i) (h : m.selection.bit i) :
    ∃ o ∈ m.readings, o.species.bit i := by
  induction m with
  | single s => exact absurd h ((inSlots_single s).not_bit hi)
  | ofBits bits => exact absurd h ((inSlots_ofBits ⟨bits⟩).not_bit hi)
  | ofList l => exact absurd h ((inSlots_ofList l).not_bit hi)
  | all => exact absurd h (inSlots_all.not_bit hi)
  | union m n ihm ihn =>
    rw [selection, bit_union, Bool.or_eq_true] at h
    rcases h with h | h
    · obtain ⟨o, ho, hbit⟩ := ihm h
      exact ⟨o, List.mem_append_left _ ho, hbit⟩
    · obtain ⟨o, ho, hbit⟩ := ihn h
      exact ⟨o, List.mem_append_right _ ho, hbit⟩
  | inter m n ihm ihn =>
    rw [selection, bit_inter, Bool.and_eq_true] at h
    obtain ⟨o, ho, hbit⟩ := ihm h.1
    exact ⟨o, List.mem_append_left _ ho, hbit⟩
  | read d o hd => exact ⟨o, List.mem_singleton_self o, h⟩

theorem inSlots_of_readings (h : ∀ o ∈ m.readings, o.species.InSlots) : m.selection.InSlots := by
  intro i hbit
  refine Nat.not_le.1 fun hi => ?_
  obtain ⟨o, ho, hobit⟩ := exists_reading hi hbit
  exact (h o ho).not_bit hi hobit

end Making

/-! ## The law -/

/-- A bit past the last slot is set in a selection only if a word with this bit was read, and any
word may be read. The species of a selection, collected again, make it without these bits, so they
make the same selection exactly if it has none. If no word with such a bit was read, a selection is
made again by its species, equal to any other made so that has the same species, and empty exactly
if it has none. Species that are collected come in the order of their slots, each once. -/
theorem a_selection_is_told_by_its_species (m n : Making) :
    (∀ i, 8 ≤ i → m.selection.bit i → ∃ o ∈ m.readings, o.species.bit i) ∧
    (∀ a : Selection, ∃ d o h, (Making.read d o h).selection = a) ∧
    ofList m.selection.species = ofBits m.selection.bits ∧
    (ofList m.selection.species = m.selection ↔ m.selection.InSlots) ∧
    ((∀ o ∈ m.readings ++ n.readings, o.species.InSlots) →
      ofList m.selection.species = m.selection ∧
      (m.selection = n.selection ↔ m.selection.species = n.selection.species) ∧
      (m.selection.isEmpty ↔ m.selection.species = [])) ∧
    ∀ l, (ofList l).species = l.dedup.mergeSort fun s t => s.slot ≤ t.slot := by
  refine ⟨fun i => Making.exists_reading, fun a => ?_, ofList_species _, ?_, fun h => ?_,
    species_ofList⟩
  · obtain ⟨d, o, hread, ho⟩ := Options.exists_ofDocument?_species a
    exact ⟨d, o, hread, ho⟩
  · rw [ofList_species, ofBits_eq_self_iff]
  · have hm : ofBits m.selection.bits = m.selection := ofBits_eq_self_iff.2
      (Making.inSlots_of_readings fun o ho => h o (List.mem_append_left _ ho))
    have hn : ofBits n.selection.bits = n.selection := ofBits_eq_self_iff.2
      (Making.inSlots_of_readings fun o ho => h o (List.mem_append_right _ ho))
    rw [ofList_species, species_eq_iff, species_eq_nil_iff, isEmpty_iff, hm, hn]
    exact ⟨rfl, Iff.rfl, Iff.rfl⟩

/-- Stored options that look for nothing, with a word for their species. -/
def storedOptions (word : Nat) : Document := .record [
  ("namespace_types", .nat word),
  ("scan_processes", .bool false),
  ("scan_fds", .bool false),
  ("scan_bind_mounts", .bool false),
  ("discover_hierarchy", .bool false),
  ("discover_ownership", .bool false),
  ("discover_mounts", .bool false),
  ("with_pid_map", .bool false),
  ("timeout", .null),
  ("sandbox_timeout", .record [("secs", .nat 5), ("nanos", .nat 0)]),
  ("procfs", .text "/proc")]

/-- The word that was read selects the PID and the network namespaces. With mount and time
namespaces it makes what the four make as a list. -/
theorem a_word_that_was_read_is_told_by_its_species :
    ∃ h : Options.ofDocument? (storedOptions 0x60) =
        some { Options.nothing with species := ⟨0x60⟩ },
      let m := Making.inter .all (.union (.read _ _ h) (.ofList [.time, .mount, .time]))
      let n := Making.ofList [.net, .mount, .pid, .time]
      (∀ o ∈ m.readings ++ n.readings, o.species.InSlots) ∧
      m.selection.species = [.mount, .pid, .net, .time] ∧
      ofList m.selection.species = m.selection ∧ m.selection = n.selection := by
  have hread : Options.ofDocument? (storedOptions 0x60) =
      some { Options.nothing with species := ⟨0x60⟩ } := by decide
  refine ⟨hread, ?_⟩
  intro m n
  have hslots : ∀ o ∈ m.readings ++ n.readings, o.species.InSlots := by
    intro o ho
    cases List.mem_singleton.1 ho
    exact ofBits_eq_self_iff.1 (by decide)
  -- What is made does not depend on the proof that the options were read.
  have hm : m.selection.species = [.mount, .pid, .net, .time] := by
    change (inter all (union ⟨0x60⟩ (ofList [.time, .mount, .time]))).species = _
    decide
  have hn : n.selection.species = [.mount, .pid, .net, .time] := by decide
  obtain ⟨hagain, hequal, _⟩ := (a_selection_is_told_by_its_species m n).2.2.2.2.1 hslots
  exact ⟨hslots, hm, hagain, hequal.2 (hm.trans hn.symm)⟩

/-- A single bit past the last slot selects nothing, but the selection is not the empty one. -/
theorem a_word_that_was_read_selects_nothing :
    ∃ h : Options.ofDocument? (storedOptions 0x100) =
        some { Options.nothing with species := ⟨0x100⟩ },
      let a := (Making.read _ _ h).selection
      a.species = [] ∧ ofList a.species ≠ a ∧ a.isEmpty = false ∧
      none.species = a.species ∧ none ≠ a := by
  refine ⟨by decide, ?_⟩
  decide

end Selection

end NamespaceAtlas
