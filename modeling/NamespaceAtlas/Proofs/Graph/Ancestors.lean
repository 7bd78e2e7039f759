-- The ancestors of a namespace are the way up from it: the climb neither
-- stops before the root nor meets a namespace twice.
import NamespaceAtlas.Proofs.Graph.Relatives
import NamespaceAtlas.Proofs.Way

namespace NamespaceAtlas.Graph

variable {g : Graph} {s : Species} {i : Identity} {l : List Identity}

/-- Every parent is a known namespace. -/
def ParentsKnown (g : Graph) (s : Species) : Prop :=
  ∀ i p, g.parent? s i = some p → g.contains s p = true

/-- A climb with enough steps takes the whole way. The namespaces met before are none of it. -/
theorem climb_eq_append (h : Way (g.parent? s) i l) :
    ∀ steps met, l.length < steps → (met ++ l).Nodup →
      g.climb s steps met (g.parent? s i) = met ++ l := by
  induction h with
  | top hi =>
    intro steps met hsteps _
    obtain ⟨n, rfl⟩ := Nat.exists_eq_succ_of_ne_zero (Nat.ne_of_gt hsteps)
    rw [hi, List.append_nil]
    rfl
  | @step i p l hp _ ih =>
    intro steps met hsteps hmet
    obtain ⟨n, rfl⟩ := Nat.exists_eq_succ_of_ne_zero (Nat.ne_of_gt (Nat.zero_lt_of_lt hsteps))
    have happ : met ++ p :: l = (met ++ [p]) ++ l := by simp
    have hnew : p ∉ met := by
      intro hin
      exact (List.disjoint_of_nodup_append hmet) hin List.mem_cons_self
    rw [hp]
    unfold climb
    rw [if_neg hnew, happ]
    refine ih n (met ++ [p]) ?_ (happ ▸ hmet)
    simp only [List.length_cons] at hsteps
    omega

/-- What a climb meets stands above. -/
theorem mem_climb {x : Identity} :
    ∀ steps met next, x ∈ g.climb s steps met next →
      x ∈ met ∨ ∃ a, next = some a ∧ (a = x ∨ Above (g.parent? s) a x) := by
  intro steps
  induction steps with
  | zero =>
    intro met next hx
    exact Or.inl (by simpa [climb] using hx)
  | succ n ih =>
    intro met next hx
    cases next with
    | none => exact Or.inl (by simpa [climb] using hx)
    | some a =>
      unfold climb at hx
      split at hx
      · exact Or.inl hx
      · rcases ih _ _ hx with hmet | ⟨b, hb, hx⟩
        · rcases List.mem_append.1 hmet with hmet | hmet
          · exact Or.inl hmet
          · exact Or.inr ⟨a, rfl, Or.inl (List.mem_singleton.1 hmet).symm⟩
        · exact Or.inr ⟨a, rfl, Or.inr (above_iff.2 ⟨b, hb, hx⟩)⟩

/-- In any graph, what is listed as an ancestor stands above. -/
theorem above_of_mem_ancestors {x : Identity} (hx : x ∈ g.ancestors s i) :
    Above (g.parent? s) i x := by
  rcases mem_climb _ _ _ hx with hx | ⟨a, ha, hx⟩
  · simp at hx
  · exact above_iff.2 ⟨a, ha, hx⟩

/-- The way up from a known namespace has fewer members than there are namespaces. -/
theorem ParentsKnown.length_way_lt (hknown : g.ParentsKnown s) (hi : g.contains s i = true)
    (h : Way (g.parent? s) i l) : l.length < (g.ofSpecies s).size := by
  rw [← Registry.length_keys]
  refine h.length_lt fun p hp => mem_ids_iff.2 ?_
  rcases List.mem_cons.1 hp with rfl | hp
  · exact hi
  · exact h.forall_mem hknown p hp

/-- The ancestors are the whole way up. -/
theorem ParentsKnown.ancestors_eq (hknown : g.ParentsKnown s) (h : Way (g.parent? s) i l) :
    g.ancestors s i = l := by
  have hlength : l.length ≤ (g.ofSpecies s).size := by
    cases l with
    | nil => exact Nat.zero_le _
    | cons p l =>
      cases h with
      | step hp h => exact hknown.length_way_lt (hknown _ _ hp) h
  unfold ancestors
  exact climb_eq_append h _ [] (Nat.lt_succ_of_le hlength) (List.nodup_cons.1 h.nodup).2

end NamespaceAtlas.Graph
