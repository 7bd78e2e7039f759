-- What a kernel reports, as far as it can be relied on: questions about
-- parents, creators, references and joined namespaces have the same answer
-- whenever they are put. A tableau is a kernel of which all this holds.
import NamespaceAtlas.Proofs.Gateway
import NamespaceAtlas.Proofs.Way

namespace NamespaceAtlas

variable {σ φ : Type}

/-- What a kernel reports of the namespaces of one species. -/
structure Lineage where
  /-- The parent; none where the question for it fails. -/
  up : Identity → Option Identity
  /-- The user who created it; none where the question for that fails. -/
  creator : Identity → Option UInt32

/-- The creator that is asked for: only user namespaces have one. -/
def Lineage.creatorOf (L : Lineage) (s : Species) (id : Identity) : Option UInt32 :=
  if s = .user then L.creator id else none

namespace Kernel

variable (k : Kernel σ φ)

/-- Whenever the kernel is asked about the namespaces of a species, it answers as `L` says.
`stands f id` says that a file is the file of a namespace. The file of a parent can be
identified. -/
structure Follows (stands : φ → Identity → Prop) (s : Species) (L : Lineage) : Prop where
  parent : ∀ f id st, stands f id →
    (∃ above p, (k.parent f st).1 = .ok above ∧ L.up id = some p ∧ stands above p ∧
      ∀ st, (k.identify above st).1 = .ok p) ∨
    (∃ why, (k.parent f st).1 = .error why) ∧ L.up id = none
  creator : s = .user → ∀ f id st, stands f id → (k.creator f st).1.toOption = L.creator id

/-- Whenever a reference is opened, there is a file of its namespace if it `opens`, and an
error if not. -/
def Addresses (stands : φ → Identity → Prop) (limit : Span) (reference : Reference)
    (id : Identity) (opens : Prop) : Prop :=
  ∀ st, Ends (k.openedReference reference limit) st fun outcome _ =>
    (∃ f, outcome = .ok f ∧ stands f id ∧ opens) ∨ (∃ why, outcome = .error why) ∧ ¬ opens

/-- Whenever the namespace of a species that a process has joined is read, it is the one that
`read` says, or cannot be read where `read` says nothing. -/
def Reads (stands : φ → Identity → Prop) (procfs : Path) (read : Pid → Species → Option Identity)
    (pid : Pid) (s : Species) : Prop :=
  ∀ st, Ends (k.openedNamespace (procfs.ofNamespace pid s)) st fun outcome _ =>
    (∃ id f, outcome = .ok (id, f) ∧ stands f id ∧ read pid s = some id) ∨
    (∃ why, outcome = .error why) ∧ read pid s = none

variable {k} {stands : φ → Identity → Prop} {read : Pid → Species → Option Identity} {pid : Pid}
  {s : Species}

/-- The file by which a joined namespace was read addresses it. -/
theorem Reads.addresses {id : Identity} (h : k.Reads stands Path.proc read pid s)
    (hread : read pid s = some id) (limit : Span) :
    k.Addresses stands limit (.single (Path.proc.ofNamespace pid s)) id True := by
  intro st
  rw [k.openedReference_single (Path.isInProcfs_ofNamespace pid s)]
  have hst := h st
  unfold openedNamespace at hst
  rw [ends_bind] at hst
  refine Ends.mono hst ?_
  rintro (why | f) st' hopened
  · rcases hopened with ⟨_, _, hok, _⟩ | ⟨_, hnone⟩
    · cases hok
    · rw [hread] at hnone
      cases hnone
  · rw [andThen_ok, ends_bind] at hopened
    refine Or.inl ⟨f, rfl, ?_, trivial⟩
    revert hopened
    unfold Ends
    cases ((k.identityOf f).run st').1 with
    | error why =>
      rintro (⟨_, _, hok, _⟩ | ⟨_, hnone⟩)
      · cases hok
      · rw [hread] at hnone
        cases hnone
    | ok i =>
      rintro (⟨_, _, hok, hstands, hid⟩ | ⟨⟨_, hok⟩, _⟩)
      · cases hok
        rw [hread] at hid
        cases hid
        exact hstands
      · cases hok

end Kernel

/-! ## Tableaus -/

/-- A host where nothing ever happens. Files stand for the namespaces whose identities they
have. -/
structure Tableau where
  /-- The names in each directory. -/
  names : Path → Option (List Name) := fun _ => none
  /-- The bytes of each file. -/
  bytes : Path → Option Bytes := fun _ => none
  /-- The namespace that each file stands for. -/
  space : Path → Option Identity
  /-- The parents and creators of the namespaces. -/
  lineage : Lineage := ⟨fun _ => none, fun _ => none⟩

namespace Tableau

variable (t : Tableau)

/-- An answer that is there, or the error that there is none. -/
def answer {ε α : Type} (why : ε) : Option α → StateM Unit (Except ε α)
  | some a => return .ok a
  | none => return .error why

/-- The kernel of a tableau. It spawns nothing. -/
def kernel : Kernel Unit Identity :=
  { Kernel.bare with
    listing := fun p => answer (.refused .noEntry) (t.names p)
    contents := fun p => answer (.refused .noEntry) (t.bytes p)
    openFile := fun p => answer (.refused .noEntry) (t.space p)
    identify := fun f => return .ok f
    identifyAt := fun p => answer (.refused .noEntry) (t.space p)
    parent := fun f => answer .permission (t.lineage.up f)
    creator := fun f => answer .permission (t.lineage.creator f) }

theorem follows (s : Species) : t.kernel.Follows Eq s t.lineage where
  parent f id st hf := by
    subst hf
    change (∃ above p, (answer Errno.permission (t.lineage.up f) st).1 = .ok above ∧ _) ∨
      (∃ why, (answer Errno.permission (t.lineage.up f) st).1 = .error why) ∧ _
    cases t.lineage.up f with
    | none => exact Or.inr ⟨⟨_, rfl⟩, rfl⟩
    | some p => exact Or.inl ⟨p, p, rfl, rfl, rfl, fun _ => rfl⟩
  creator _ f id st hf := by
    subst hf
    change (answer Errno.permission (t.lineage.creator f) st).1.toOption = _
    cases t.lineage.creator f with
    | none => rfl
    | some _ => rfl

/-- The namespace of a species that a process has joined. -/
def joined (procfs : Path) (pid : Pid) (s : Species) : Option Identity :=
  t.space (procfs.ofNamespace pid s)

theorem reads (procfs : Path) (pid : Pid) (s : Species) :
    t.kernel.Reads Eq procfs (t.joined procfs) pid s := by
  intro st
  unfold Kernel.openedNamespace
  rw [ends_bind]
  change andThen _ _ ((answer _ (t.space (procfs.ofNamespace pid s)) st).1.mapError Error.file) st
  cases hspace : t.space (procfs.ofNamespace pid s) with
  | none => exact Or.inr ⟨⟨_, rfl⟩, hspace⟩
  | some id => exact Or.inl ⟨id, id, rfl, rfl, hspace⟩

/-- The tableau of two processes. The second is in a namespace two steps below that of the
first, and nothing shows the namespace between. -/
def nested : Tableau where
  names p := if p = Path.proc then some [Bytes.ofText "1", Bytes.ofText "7"] else none
  bytes p :=
    if p = "/proc/1/stat" then
      some (Bytes.ofText "1 (init) S 0 1 1 0 -1 0 0 0 0 0 0 0 0 0 20 0 1 0 1")
    else if p = "/proc/1/status" then some (Bytes.ofText "NSpid:\t1")
    else if p = "/proc/7/stat" then
      some (Bytes.ofText "7 (sh) S 1 7 7 0 -1 0 0 0 0 0 0 0 0 0 20 0 1 0 9")
    else if p = "/proc/7/status" then some (Bytes.ofText "NSpid:\t7\t2\t1")
    else none
  space p :=
    if p = "/proc/1/ns/user" ∨ p = "/proc/1/ns/pid" then some ⟨4, 1⟩
    else if p = "/proc/7/ns/user" ∨ p = "/proc/7/ns/pid" then some ⟨4, 3⟩
    else none
  lineage := {
    up id :=
      if id = ⟨4, 3⟩ then some ⟨4, 2⟩
      else if id = ⟨4, 2⟩ then some ⟨4, 1⟩
      else none
    creator id := if id = ⟨4, 3⟩ then some 1000 else none }

theorem acyclic_nested : Acyclic nested.lineage.up := by
  refine acyclic_of_rank (fun id => id.inode.toNat) fun a b hab => ?_
  simp only [nested] at hab
  split at hab
  · rename_i ha
    cases hab
    rw [ha]
    decide
  · split at hab
    · rename_i ha
      cases hab
      rw [ha]
      decide
    · cases hab

/-- The ways up of the two processes. -/
theorem way_nested : Way nested.lineage.up ⟨4, 1⟩ [] ∧
    Way nested.lineage.up ⟨4, 3⟩ [⟨4, 2⟩, ⟨4, 1⟩] :=
  ⟨.top (by decide), .step (by decide) (.step (by decide) (.top (by decide)))⟩

end Tableau

end NamespaceAtlas
