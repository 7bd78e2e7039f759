-- There are only so many identities and process numbers, so no walk from one
-- to the next goes on for ever.
import NamespaceAtlas.Identity
import Mathlib.Data.Fintype.Card
import Mathlib.Data.Fintype.Prod

namespace NamespaceAtlas

/-- An identity as a pair of numbers. -/
def Identity.pair (id : Identity) : Fin UInt64.size × Fin UInt64.size :=
  (id.device.toFin, id.inode.toFin)

theorem Identity.pair_injective : Function.Injective Identity.pair := by
  intro a b h
  obtain ⟨da, ia⟩ := a
  obtain ⟨db, ib⟩ := b
  simp only [pair, Prod.mk.injEq] at h
  rw [UInt64.toFin_inj.1 h.1, UInt64.toFin_inj.1 h.2]

instance : Finite Identity := Finite.of_injective _ Identity.pair_injective

/-- A list of different identities is no longer than there are identities. -/
theorem Identity.length_le_count {l : List Identity} (h : l.Nodup) : l.length ≤ count := by
  have := (h.map pair_injective).length_le_card
  rw [List.length_map, Fintype.card_prod, Fintype.card_fin] at this
  exact this

instance : Finite Pid :=
  Finite.of_injective (fun p : Pid => p.number.toBitVec.toFin) fun a b h => by
    obtain ⟨a⟩ := a
    obtain ⟨b⟩ := b
    exact congrArg Pid.mk (Int32.toBitVec_inj.1 (BitVec.toFin_inj.1 h))

end NamespaceAtlas
