-- Registries: values on file under keys, in ascending order of the keys. Two
-- registries that answer every look-up alike are equal.

namespace NamespaceAtlas

/-- Keys that are told apart and put in order by a rank. -/
class Ranked (κ : Type) where
  rank : κ → Int
  rank_injective : ∀ a b, rank a = rank b → a = b

/-- `a` comes before `b`. -/
def Ranked.Before {κ : Type} [Ranked κ] (a b : κ) : Prop := Ranked.rank a < Ranked.rank b

instance {κ : Type} [Ranked κ] (a b : κ) : Decidable (Ranked.Before a b) :=
  inferInstanceAs (Decidable (_ < _))

/-- Values filed under keys. Each key has one entry at most. -/
structure Registry (κ α : Type) [Ranked κ] where
  entries : List (κ × α)
  ascending : entries.Pairwise fun a b => Ranked.Before a.1 b.1

namespace Registry

variable {κ α : Type} [Ranked κ]

/-! ## Look-up -/

/-- The value filed under a key in a list of entries. -/
def find (k : κ) : List (κ × α) → Option α
  | [] => none
  | (k', a) :: rest => if Ranked.rank k' = Ranked.rank k then some a else find k rest

/-- The value filed under a key. -/
def get? (r : Registry κ α) (k : κ) : Option α := find k r.entries

/-- Whether there is a value under a key. -/
def contains (r : Registry κ α) (k : κ) : Bool := (r.get? k).isSome

/-- The keys, ascending. -/
def keys (r : Registry κ α) : List κ := r.entries.map (·.1)

/-- The values, by ascending keys. -/
def values (r : Registry κ α) : List α := r.entries.map (·.2)

/-- The number of entries. -/
def size (r : Registry κ α) : Nat := r.entries.length

/-- Whether there is no entry. -/
def isEmpty (r : Registry κ α) : Bool := r.entries.isEmpty

/-! ## Change -/

/-- The registry without entries. -/
def empty : Registry κ α := ⟨[], .nil⟩

instance : Inhabited (Registry κ α) := ⟨empty⟩

/-- Files a value among ascending entries; a value under the same key gives way. -/
def file (k : κ) (a : α) : List (κ × α) → List (κ × α)
  | [] => [(k, a)]
  | (k', a') :: rest =>
    if Ranked.rank k < Ranked.rank k' then (k, a) :: (k', a') :: rest
    else if Ranked.rank k' = Ranked.rank k then (k, a) :: rest
    else (k', a') :: file k a rest

/-- Filing brings in nothing but the new entry. -/
theorem mem_file {k : κ} {a : α} {l : List (κ × α)} {e : κ × α} (h : e ∈ file k a l) :
    e = (k, a) ∨ e ∈ l := by
  induction l with
  | nil => simpa [file] using h
  | cons x rest ih =>
    simp only [file] at h
    split at h
    · simpa using h
    · split at h
      · rcases List.mem_cons.1 h with h | h
        · exact .inl h
        · exact .inr (List.mem_cons_of_mem _ h)
      · rcases List.mem_cons.1 h with h | h
        · exact .inr (h ▸ List.mem_cons_self)
        · rcases ih h with h | h
          · exact .inl h
          · exact .inr (List.mem_cons_of_mem _ h)

/-- Filing keeps the order of the keys. -/
theorem ascending_file (k : κ) (a : α) {l : List (κ × α)}
    (h : l.Pairwise fun a b => Ranked.Before a.1 b.1) :
    (file k a l).Pairwise fun a b => Ranked.Before a.1 b.1 := by
  induction l with
  | nil => simp [file]
  | cons x rest ih =>
    obtain ⟨hx, hrest⟩ := List.pairwise_cons.1 h
    simp only [file]
    split
    · rename_i hlt
      refine List.pairwise_cons.2 ⟨fun e he => ?_, h⟩
      rcases List.mem_cons.1 he with rfl | he
      · exact hlt
      · have := hx e he
        simp only [Ranked.Before] at this ⊢
        omega
    · split
      · rename_i heq
        refine List.pairwise_cons.2 ⟨fun e he => ?_, hrest⟩
        have := hx e he
        simp only [Ranked.Before] at this ⊢
        omega
      · rename_i hnlt hne
        refine List.pairwise_cons.2 ⟨fun e he => ?_, ih hrest⟩
        rcases mem_file he with rfl | he
        · simp only [Ranked.Before]
          omega
        · exact hx e he

/-- Files a value under a key; a value already there gives way. -/
def insert (r : Registry κ α) (k : κ) (a : α) : Registry κ α :=
  ⟨file k a r.entries, ascending_file k a r.ascending⟩

/-- Files a value under a key unless there is one. -/
def insertNew (r : Registry κ α) (k : κ) (a : α) : Registry κ α :=
  if r.contains k then r else r.insert k a

/-- Takes the entry of a key out. -/
def erase (r : Registry κ α) (k : κ) : Registry κ α :=
  ⟨r.entries.filter fun e => Ranked.rank e.1 ≠ Ranked.rank k, r.ascending.filter _⟩

/-- Keeps the entries whose keys pass a test. -/
def restrict (r : Registry κ α) (keep : κ → Bool) : Registry κ α :=
  ⟨r.entries.filter fun e => keep e.1, r.ascending.filter _⟩

/-- Changes every value by its key. -/
def mapWithKey {β : Type} (r : Registry κ α) (f : κ → α → β) : Registry κ β :=
  ⟨r.entries.map fun e => (e.1, f e.1 e.2),
    List.pairwise_map.2 (r.ascending.imp fun h => h)⟩

/-- Changes the value under a key, if there is one. -/
def modify (r : Registry κ α) (k : κ) (f : α → α) : Registry κ α :=
  r.mapWithKey fun k' a => if Ranked.rank k' = Ranked.rank k then f a else a

/-- Files the pairs of a list in turn, so the last value of a key stays. -/
def ofList (l : List (κ × α)) : Registry κ α :=
  l.foldl (fun r e => r.insert e.1 e.2) empty

end Registry

end NamespaceAtlas
