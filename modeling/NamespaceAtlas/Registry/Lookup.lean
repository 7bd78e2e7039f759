-- What every change of a registry does to look-up, and that look-up tells
-- registries apart.
import NamespaceAtlas.Registry

namespace NamespaceAtlas.Registry

variable {κ α β : Type} [Ranked κ]

/-! ## Look-up among entries -/

/-- Looking up a key finds exactly the entry that stands under it. -/
theorem find_eq_some_iff {k : κ} {a : α} {l : List (κ × α)}
    (h : l.Pairwise fun a b => Ranked.Before a.1 b.1) : find k l = some a ↔ (k, a) ∈ l := by
  induction l with
  | nil => simp [find]
  | cons e rest ih =>
    obtain ⟨k', a'⟩ := e
    obtain ⟨hfirst, hrest⟩ := List.pairwise_cons.1 h
    by_cases hk : Ranked.rank k' = Ranked.rank k
    · obtain rfl := Ranked.rank_injective _ _ hk
      have hnot : (k', a) ∉ rest := fun hmem => by
        have := hfirst _ hmem
        simp only [Ranked.Before] at this
        omega
      simp [find, hnot, eq_comm]
    · have hne : k ≠ k' := fun heq => hk (heq ▸ rfl)
      simp [find, hk, hne, ih hrest]

/-- A key that comes before all others has no entry among them. -/
theorem find_eq_none_of_before {k : κ} {l : List (κ × α)}
    (h : ∀ e ∈ l, Ranked.rank k < Ranked.rank e.1) : find k l = none := by
  induction l with
  | nil => rfl
  | cons e rest ih =>
    have hfirst := h e List.mem_cons_self
    have hne : ¬ Ranked.rank e.1 = Ranked.rank k := by omega
    simp only [find, hne, if_false]
    exact ih fun e he => h e (List.mem_cons_of_mem _ he)

/-- Filing a value changes the answer for its own key and for no other. -/
theorem find_file (k k' : κ) (a : α) (l : List (κ × α)) :
    find k' (file k a l) = if Ranked.rank k = Ranked.rank k' then some a else find k' l := by
  induction l with
  | nil => rfl
  | cons e rest ih =>
    obtain ⟨x, b⟩ := e
    simp only [file]
    split
    · rfl
    · split
      · rename_i hx
        simp only [find, hx]
        split <;> rfl
      · rename_i hx
        simp only [find, ih]
        split
        · rename_i hx'
          simp [show ¬ Ranked.rank k = Ranked.rank k' by omega]
        · rfl

/-- Keeping the entries of some keys leaves their answers alone and drops the others. -/
theorem find_filter (k : κ) (keep : κ → Bool) (l : List (κ × α)) :
    find k (l.filter fun e => keep e.1) = if keep k then find k l else none := by
  induction l with
  | nil => simp [find]
  | cons e rest ih =>
    obtain ⟨x, b⟩ := e
    by_cases hk : Ranked.rank x = Ranked.rank k
    · obtain rfl := Ranked.rank_injective _ _ hk
      by_cases hkeep : keep x = true <;> simp [find, hkeep, ih]
    · by_cases hkeep : keep x = true <;> simp [find, hkeep, hk, ih]

/-- Changing every value changes the answers in the same way. -/
theorem find_map (k : κ) (f : κ → α → β) (l : List (κ × α)) :
    find k (l.map fun e => (e.1, f e.1 e.2)) = (find k l).map (f k) := by
  induction l with
  | nil => rfl
  | cons e rest ih =>
    by_cases hk : Ranked.rank e.1 = Ranked.rank k
    · simp [find, Ranked.rank_injective _ _ hk]
    · simp [find, hk, ih]

/-! ## Look-up in registries -/

/-- An entry stands in a registry exactly if look-up finds it. -/
theorem mem_entries_iff {r : Registry κ α} {k : κ} {a : α} :
    (k, a) ∈ r.entries ↔ r.get? k = some a := (find_eq_some_iff r.ascending).symm

@[simp] theorem get?_empty (k : κ) : (empty : Registry κ α).get? k = none := rfl

/-- Filing a value changes the answer for its own key and for no other. -/
theorem get?_insert (r : Registry κ α) (k k' : κ) (a : α) :
    (r.insert k a).get? k' = if Ranked.rank k = Ranked.rank k' then some a else r.get? k' :=
  find_file k k' a r.entries

@[simp] theorem get?_insert_self (r : Registry κ α) (k : κ) (a : α) :
    (r.insert k a).get? k = some a := by simp [get?_insert]

/-- A first value stays. -/
theorem get?_insertNew (r : Registry κ α) (k k' : κ) (a : α) :
    (r.insertNew k a).get? k' =
      if Ranked.rank k = Ranked.rank k' then some ((r.get? k').getD a) else r.get? k' := by
  unfold insertNew contains
  by_cases hk : Ranked.rank k = Ranked.rank k'
  · obtain rfl := Ranked.rank_injective _ _ hk
    cases h : r.get? k <;> simp [h]
  · cases h : r.get? k <;> simp [get?_insert, hk]

/-- What is taken out is no longer found, and all else still is. -/
theorem get?_erase (r : Registry κ α) (k k' : κ) :
    (r.erase k).get? k' = if Ranked.rank k = Ranked.rank k' then none else r.get? k' := by
  have := find_filter k' (fun x => decide (Ranked.rank x ≠ Ranked.rank k)) r.entries
  simp only [get?, erase]
  rw [this]
  by_cases hk : Ranked.rank k = Ranked.rank k'
  · simp [hk]
  · simp [hk, Ne.symm hk]

/-- Keeping the entries of some keys leaves their answers alone and drops the others. -/
theorem get?_restrict (r : Registry κ α) (keep : κ → Bool) (k : κ) :
    (r.restrict keep).get? k = if keep k then r.get? k else none :=
  find_filter k keep r.entries

/-- Changing every value changes the answers in the same way. -/
theorem get?_mapWithKey (r : Registry κ α) (f : κ → α → β) (k : κ) :
    (r.mapWithKey f).get? k = (r.get? k).map (f k) := find_map k f r.entries

/-- A change under one key leaves the answers for all others alone. -/
theorem get?_modify (r : Registry κ α) (k k' : κ) (f : α → α) :
    (r.modify k f).get? k' =
      if Ranked.rank k = Ranked.rank k' then (r.get? k').map f else r.get? k' := by
  simp only [modify, get?_mapWithKey]
  by_cases hk : Ranked.rank k = Ranked.rank k'
  · simp [hk]
  · simp [hk, Ne.symm hk]

/-! ## Keys and values -/

theorem contains_iff {r : Registry κ α} {k : κ} :
    r.contains k = true ↔ ∃ a, r.get? k = some a := Option.isSome_iff_exists

/-- A key stands in a registry exactly if there is a value under it. -/
theorem mem_keys_iff {r : Registry κ α} {k : κ} : k ∈ r.keys ↔ r.contains k = true := by
  rw [contains_iff]
  unfold keys
  rw [List.mem_map]
  constructor
  · rintro ⟨⟨k', a⟩, he, rfl⟩
    exact ⟨a, mem_entries_iff.1 he⟩
  · rintro ⟨a, ha⟩
    exact ⟨(k, a), mem_entries_iff.2 ha, rfl⟩

theorem mem_values_iff {r : Registry κ α} {a : α} : a ∈ r.values ↔ ∃ k, r.get? k = some a := by
  unfold values
  rw [List.mem_map]
  constructor
  · rintro ⟨⟨k, b⟩, he, rfl⟩
    exact ⟨k, mem_entries_iff.1 he⟩
  · rintro ⟨k, hk⟩
    exact ⟨(k, a), mem_entries_iff.2 hk, rfl⟩

/-- No key stands twice. -/
theorem nodup_keys (r : Registry κ α) : r.keys.Nodup := by
  unfold keys List.Nodup
  rw [List.pairwise_map]
  refine r.ascending.imp fun h heq => ?_
  unfold Ranked.Before at h
  rw [heq] at h
  omega

@[simp] theorem length_keys (r : Registry κ α) : r.keys.length = r.size := List.length_map ..

/-! ## Order and equality -/

/-- Ascending entries are settled by what look-up finds among them. -/
theorem entries_ext {l m : List (κ × α)} (hl : l.Pairwise fun a b => Ranked.Before a.1 b.1)
    (hm : m.Pairwise fun a b => Ranked.Before a.1 b.1) (h : ∀ k, find k l = find k m) : l = m := by
  induction l generalizing m with
  | nil =>
    cases m with
    | nil => rfl
    | cons e rest =>
      have := h e.1
      simp [find] at this
  | cons e rest ih =>
    obtain ⟨k, a⟩ := e
    cases m with
    | nil =>
      have := h k
      simp [find] at this
    | cons e' rest' =>
      obtain ⟨j, b⟩ := e'
      obtain ⟨hk, hrest⟩ := List.pairwise_cons.1 hl
      obtain ⟨hj, hrest'⟩ := List.pairwise_cons.1 hm
      have hka : (k, a) ∈ (j, b) :: rest' :=
        (find_eq_some_iff hm).1 ((h k).symm.trans (by simp [find]))
      have hjb : (j, b) ∈ (k, a) :: rest :=
        (find_eq_some_iff hl).1 ((h j).trans (by simp [find]))
      have heq : (k, a) = (j, b) := by
        rcases List.mem_cons.1 hka with heq | hka
        · exact heq
        · rcases List.mem_cons.1 hjb with heq | hjb
          · exact heq.symm
          · have h1 := hj _ hka
            have h2 := hk _ hjb
            simp only [Ranked.Before] at h1 h2
            omega
      obtain ⟨rfl, rfl⟩ := Prod.mk.inj heq
      have htail : rest = rest' := by
        refine ih hrest hrest' fun x => ?_
        by_cases hx : Ranked.rank k = Ranked.rank x
        · obtain rfl := Ranked.rank_injective _ _ hx
          rw [find_eq_none_of_before fun e he => hk e he,
            find_eq_none_of_before fun e he => hj e he]
        · have := h x
          simpa [find, hx] using this
      rw [htail]

/-- Registries that answer every look-up alike are the same. -/
theorem ext_get? {r s : Registry κ α} (h : ∀ k, r.get? k = s.get? k) : r = s := by
  obtain ⟨l, hl⟩ := r
  obtain ⟨m, hm⟩ := s
  obtain rfl := entries_ext hl hm h
  rfl

theorem rank_inj {a b : κ} : Ranked.rank a = Ranked.rank b ↔ a = b :=
  ⟨Ranked.rank_injective a b, fun h => h ▸ rfl⟩

/-- A registry in which a look-up finds nothing has nothing to be taken out there. -/
theorem erase_eq_self {r : Registry κ α} {k : κ} (h : r.get? k = none) : r.erase k = r := by
  refine ext_get? fun x => ?_
  rw [get?_erase]
  split
  · rename_i hx
    rw [← rank_inj.1 hx, h]
  · rfl

theorem contains_erase {r : Registry κ α} {k x : κ} :
    (r.erase k).contains x = true ↔ x ≠ k ∧ r.contains x = true := by
  rw [contains_iff, contains_iff, get?_erase]
  by_cases hx : k = x
  · simp [hx]
  · simp [rank_inj, hx, Ne.symm hx]

@[simp] theorem contains_mapWithKey {r : Registry κ α} {f : κ → α → β} {k : κ} :
    (r.mapWithKey f).contains k = r.contains k := by
  unfold contains
  rw [get?_mapWithKey, Option.isSome_map]

@[simp] theorem keys_mapWithKey (r : Registry κ α) (f : κ → α → β) :
    (r.mapWithKey f).keys = r.keys := by
  unfold keys mapWithKey
  rw [List.map_map]
  rfl

theorem values_mapWithKey (r : Registry κ α) (f : α → β) :
    (r.mapWithKey fun _ a => f a).values = r.values.map f := by
  unfold values mapWithKey
  rw [List.map_map, List.map_map]
  rfl

theorem keys_restrict (r : Registry κ α) (keep : κ → Bool) :
    (r.restrict keep).keys = r.keys.filter keep := by
  unfold keys restrict
  rw [List.filter_map]
  rfl

/-! ## Registries of lists -/

theorem get?_foldl_insert (k : κ) (l : List (κ × α)) :
    ∀ r : Registry κ α, (l.foldl (fun r e => r.insert e.1 e.2) r).get? k =
      l.foldl (fun a e => if Ranked.rank e.1 = Ranked.rank k then some e.2 else a) (r.get? k) := by
  induction l with
  | nil => exact fun _ => rfl
  | cons e rest ih =>
    intro r
    rw [List.foldl_cons, ih, get?_insert, List.foldl_cons]

/-- In the registry of a list the last value of a key stands. -/
theorem get?_ofList (k : κ) (l : List (κ × α)) : (ofList l).get? k =
    l.foldl (fun a e => if Ranked.rank e.1 = Ranked.rank k then some e.2 else a) none :=
  get?_foldl_insert k l empty

theorem mem_of_get?_ofList {k : κ} {a : α} {l : List (κ × α)} (h : (ofList l).get? k = some a) :
    (k, a) ∈ l := by
  suffices hgen : ∀ l : List (κ × α), ∀ b,
      l.foldl (fun a e => if Ranked.rank e.1 = Ranked.rank k then some e.2 else a) b = some a →
      (k, a) ∈ l ∨ b = some a by
    rw [get?_ofList] at h
    rcases hgen l none h with h | h
    · exact h
    · cases h
  intro l
  induction l with
  | nil => exact fun b hb => Or.inr hb
  | cons e rest ih =>
    intro b hb
    rw [List.foldl_cons] at hb
    rcases ih _ hb with h | h
    · exact Or.inl (List.mem_cons_of_mem e h)
    · split at h
      · rename_i hk
        cases h
        obtain rfl := rank_inj.1 hk
        exact Or.inl List.mem_cons_self
      · exact Or.inr h

/-- The registry of some entries of a list, chosen by their keys. -/
theorem ofList_filter (keep : κ → Bool) (l : List (κ × α)) :
    ofList (l.filter fun e => keep e.1) = (ofList l).restrict keep := by
  refine ext_get? fun k => ?_
  rw [get?_restrict, get?_ofList, get?_ofList]
  suffices hgen : ∀ b : Option α,
      (l.filter fun e => keep e.1).foldl
        (fun a e => if Ranked.rank e.1 = Ranked.rank k then some e.2 else a)
        (if keep k then b else none) =
      if keep k then
        l.foldl (fun a e => if Ranked.rank e.1 = Ranked.rank k then some e.2 else a) b
      else none by
    simpa using hgen none
  induction l with
  | nil => exact fun _ => rfl
  | cons e rest ih =>
    intro b
    rw [List.foldl_cons, ← ih]
    by_cases hk : Ranked.rank e.1 = Ranked.rank k
    · obtain rfl := rank_inj.1 hk
      cases hkeep : keep e.1 with
      | true => simp [hkeep]
      | false => simp [hkeep]
    · cases hkeep : keep e.1 with
      | true => simp [hkeep, hk]
      | false => simp [hkeep, hk]

/-- The registry of a list with every value changed by its key. -/
theorem ofList_map (f : κ → α → β) (l : List (κ × α)) :
    ofList (l.map fun e => (e.1, f e.1 e.2)) = (ofList l).mapWithKey f := by
  refine ext_get? fun k => ?_
  rw [get?_mapWithKey, get?_ofList, get?_ofList]
  suffices hgen : ∀ b : Option α,
      (l.map fun e => (e.1, f e.1 e.2)).foldl
        (fun a e => if Ranked.rank e.1 = Ranked.rank k then some e.2 else a) (b.map (f k)) =
      (l.foldl (fun a e => if Ranked.rank e.1 = Ranked.rank k then some e.2 else a) b).map
        (f k) from hgen none
  induction l with
  | nil => exact fun _ => rfl
  | cons e rest ih =>
    intro b
    rw [List.map_cons, List.foldl_cons, List.foldl_cons, ← ih]
    by_cases hk : Ranked.rank e.1 = Ranked.rank k
    · obtain rfl := rank_inj.1 hk
      simp
    · simp [hk]

/-- A list of other keys leaves the value of a key alone. -/
theorem foldl_of_not_mem {k : κ} {l : List (κ × α)} (h : k ∉ l.map (·.1)) (b : Option α) :
    l.foldl (fun a e => if Ranked.rank e.1 = Ranked.rank k then some e.2 else a) b = b := by
  induction l with
  | nil => rfl
  | cons e rest ih =>
    simp only [List.map_cons, List.mem_cons, not_or] at h
    rw [List.foldl_cons, if_neg fun heq => h.1 (rank_inj.1 heq).symm]
    exact ih h.2

/-- Where no key comes twice, every value stands in the registry of the list. -/
theorem get?_ofList_eq_some_iff {k : κ} {a : α} {l : List (κ × α)} (h : (l.map (·.1)).Nodup) :
    (ofList l).get? k = some a ↔ (k, a) ∈ l := by
  refine ⟨mem_of_get?_ofList, fun hmem => ?_⟩
  suffices hgen : ∀ b : Option α,
      l.foldl (fun a e => if Ranked.rank e.1 = Ranked.rank k then some e.2 else a) b = some a from
    (get?_ofList k l).trans (hgen none)
  induction l with
  | nil => simp at hmem
  | cons e rest ih =>
    intro b
    obtain ⟨hfirst, hrest⟩ := List.nodup_cons.1 h
    rw [List.foldl_cons]
    rcases List.mem_cons.1 hmem with rfl | hmem
    · rw [foldl_of_not_mem hfirst, if_pos rfl]
    · exact ih hrest hmem _

/-- Where no key comes twice, the order of a list does not matter. -/
theorem ofList_perm {l m : List (κ × α)} (h : (l.map (·.1)).Nodup) (hperm : l.Perm m) :
    ofList l = ofList m := by
  have hm : (m.map (·.1)).Nodup := (hperm.map _).nodup_iff.1 h
  refine ext_get? fun k => Option.ext fun a => ?_
  rw [get?_ofList_eq_some_iff h, get?_ofList_eq_some_iff hm, hperm.mem_iff]

end NamespaceAtlas.Registry
