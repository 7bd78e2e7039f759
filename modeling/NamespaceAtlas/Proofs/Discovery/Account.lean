-- The account of a discovery under way. Phases count and note; they take back
-- no note, and no phase says itself that the time was up: that is for the
-- discovery to say.
import NamespaceAtlas.Proofs.Discovery.Steady

namespace NamespaceAtlas

variable {σ φ : Type} {k : Kernel σ φ} {s : Species} {u v : Survey}

/-- The notes of `u` come first in `v`, and the time was up in `v` if it was in `u`. -/
structure Annotated (u v : Survey) : Prop where
  interrupted : v.diagnostics.interrupted = u.diagnostics.interrupted
  notes : u.diagnostics.notes <+: v.diagnostics.notes

namespace Annotated

theorem refl (u : Survey) : Annotated u u := ⟨rfl, List.prefix_rfl⟩

theorem note (h : Annotated u v) (text : String) : Annotated u (v.note text) :=
  ⟨h.interrupted, h.notes.trans (List.prefix_append _ _)⟩

/-- What leaves the notes and the end of the time alone. -/
theorem of_eq {w : Survey} (h : Annotated u v)
    (hinterrupted : w.diagnostics.interrupted = v.diagnostics.interrupted)
    (hnotes : w.diagnostics.notes = v.diagnostics.notes) : Annotated u w :=
  ⟨hinterrupted.trans h.interrupted, hnotes ▸ h.notes⟩

theorem withoutProcess (h : Annotated u v) (pid : Pid) : Annotated u (v.withoutProcess pid) := by
  unfold Survey.withoutProcess
  split
  · exact h.of_eq rfl rfl
  · exact h

theorem metParent (h : Annotated u v) (parent : Identity) :
    Annotated u (v.metParent s parent) := by
  unfold Survey.metParent
  split
  · exact h
  · exact h.of_eq rfl rfl

theorem withOwners (h : Annotated u v) (s : Species) : Annotated u (v.withOwners s) := by
  unfold Survey.withOwners
  split
  · exact h
  · exact h.of_eq rfl rfl

/-- Phases count and note, and do nothing else to the account. -/
theorem steady (u : Survey) : Steady (Annotated u) where
  sighted _ _ _ _ _ _ _ _ h := h.of_eq rfl rfl
  skipFileList _ h := h.of_eq rfl rfl
  skipFile _ h := h.of_eq rfl rfl
  skipBindMount _ h := h.of_eq rfl rfl
  unreached _ _ h := h.of_eq rfl rfl
  countSandboxes _ _ h := h.of_eq rfl rfl
  note _ text h := h.note text
  read _ _ _ _ _ h := h.of_eq rfl rfl
  withLeaders _ _ h := h.of_eq rfl rfl
  withoutProcess _ pid h := h.withoutProcess pid
  upwards _ := {
    createdBy := fun _ _ _ h => h.of_eq rfl rfl
    metParent := fun _ parent h => h.metParent parent
    addChild := fun _ _ _ _ _ h => h.of_eq rfl rfl }
  withOwners _ s h := h.withOwners s
  mounts _ _ h := h.of_eq rfl rfl

/-- A step of a plan adds notes to those there are, and does not say that the time was up. -/
theorem of_mem_plan {o : Options} {step : Step σ} (h : step ∈ k.plan o) (r : Run σ) :
    Annotated r.survey (step.run.run r).2.survey :=
  (steady r.survey).of_mem_plan h r (refl r.survey)

end Annotated

end NamespaceAtlas
