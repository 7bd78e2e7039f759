-- What is seen below a root. A view answers for names, whichever root it is
-- seen below; so a path leads to the same file below every root that shows
-- the same view.
import NamespaceAtlas.Proofs.Quiet
import NamespaceAtlas.Proofs.Resolution

namespace NamespaceAtlas

open NamespaceAtlas.Path (parentName IsStep)

variable {σ φ α : Type}

/-- What stands at the names below a root, and which files open there. -/
structure View (α : Type) where
  look : List Name → Except FileFault Sight
  file : List Name → Option α

namespace View

variable (V : View α)

/-- What a resolution comes to, that looks at nothing but a view. -/
def resolved (path : Path) (links : Nat) (done pending : List Name) :
    Except FileFault (List Name) :=
  (resolveNames (fun names => (pure (V.look names) : StateM Unit _)) path links done pending ()).1

/-- The file that a path opens. -/
def opened (p : Path) : Option α := (V.resolved p linkLimit [] p.steps).toOption.bind V.file

/-- What a path outside procfs opens in a view, it opens in another one as well. -/
def SharedBy (V' : View α) : Prop :=
  ∀ p a, p.isAbsolute = true → p.startsWith Path.proc = false → V.opened p = some a →
    V'.opened p = some a

variable {V}

theorem SharedBy.refl : V.SharedBy V := fun _ _ _ _ h => h

theorem resolved_parent {path : Path} {links : Nat} {done rest : List Name} :
    V.resolved path links done (parentName :: rest) = V.resolved path links done.dropLast rest := by
  unfold resolved
  rw [resolveNames, if_pos rfl]

theorem resolved_name {path : Path} {links : Nat} {done rest : List Name} {name : Name}
    (hname : name ≠ parentName) :
    V.resolved path links done (name :: rest) =
      match V.look (done ++ [name]) with
      | .error why => .error why
      | .ok .missing => .ok (done ++ name :: rest)
      | .ok .plain => V.resolved path links (done ++ [name]) rest
      | .ok (.link target) =>
        if target.isNamespaceText then V.resolved path links (done ++ [name]) rest
        else
          match links with
          | 0 => .error (.tooManyLinks path)
          | links + 1 =>
            V.resolved path links (if target.isAbsolute then [] else done)
              (target.steps ++ rest) := by
  unfold resolved
  rw [resolveNames, if_neg hname]
  dsimp only [bind, StateT.bind, pure, StateT.pure]
  cases V.look (done ++ [name]) with
  | error why => rfl
  | ok sight =>
    cases sight with
    | missing => exact congrArg Except.ok (List.append_assoc ..)
    | plain => rfl
    | link target =>
      dsimp only
      split
      · rfl
      · cases links <;> rfl

/-- A resolution goes on below these names: no link stands there, or the link of a namespace. -/
def Passes (V : View α) (names : List Name) : Prop :=
  V.look names = .ok .plain ∨
    ∃ target, V.look names = .ok (.link target) ∧ target.isNamespaceText = true

theorem resolved_of_passes {path : Path} {links : Nat} {done rest : List Name} {name : Name}
    (hname : name ≠ parentName) (h : V.Passes (done ++ [name])) :
    V.resolved path links done (name :: rest) = V.resolved path links (done ++ [name]) rest := by
  rw [resolved_name hname]
  rcases h with hlook | ⟨target, hlook, htext⟩
  · rw [hlook]
  · rw [hlook]
    exact if_pos htext

/-- A resolution comes to what the view says, if each look answers as the view does. -/
theorem resolved_of_look (look : List Name → StateM σ (Except FileFault Sight)) {holds : σ → Prop}
    (hlook : ∀ names st, (∀ s ∈ names, IsStep s) → holds st →
      (look names st).1 = V.look names ∧ holds (look names st).2)
    (path : Path) (links : Nat) {pending : List Name} (hpending : ∀ s ∈ pending, IsStep s) (st : σ)
    (hst : holds st) :
    (resolveNames look path links [] pending st).1 = V.resolved path links [] pending ∧
      holds (resolveNames look path links [] pending st).2 := by
  -- From each point on the way the view comes to what it comes to from the start.
  refine resolves look path
    (fun links' done rest st => (∀ s ∈ done ++ rest, IsStep s) ∧ holds st ∧
      V.resolved path links' done rest = V.resolved path links [] pending)
    (fun outcome st => outcome = V.resolved path links [] pending ∧ holds st)
    ?_ ?_ ?_ links [] pending st ⟨hpending, hst, rfl⟩
  · rintro links' done st ⟨_, hst, hsame⟩
    have hend : V.resolved path links' done [] = .ok done := by
      unfold resolved resolveNames
      rfl
    exact ⟨hend.symm.trans hsame, hst⟩
  · rintro links' done rest st ⟨hsteps, hst, hsame⟩
    refine ⟨fun s hs => ?_, hst, resolved_parent.symm.trans hsame⟩
    rcases List.mem_append.1 hs with hs | hs
    · exact hsteps s (List.mem_append_left _ (List.dropLast_subset done hs))
    · exact hsteps s (List.mem_append_right _ (List.mem_cons_of_mem _ hs))
  · rintro links' done name rest st hname ⟨hsteps, hst, hsame⟩
    rw [List.append_cons] at hsteps
    have hhere : ∀ s ∈ done ++ [name], IsStep s :=
      fun s hs => hsteps s (List.mem_append_left rest hs)
    obtain ⟨hanswer, hst'⟩ := hlook (done ++ [name]) st hhere hst
    rw [resolved_name hname] at hsame
    rw [hanswer]
    revert hsame
    cases V.look (done ++ [name]) with
    | error why => exact fun hsame => ⟨hsame, hst'⟩
    | ok sight =>
      cases sight with
      | missing => exact fun hsame => ⟨hsame, hst'⟩
      | plain => exact fun hsame => ⟨hsteps, hst', hsame⟩
      | link target =>
        unfold afterLook
        dsimp only
        split
        · exact fun hsame => ⟨hsteps, hst', hsame⟩
        · cases links' with
          | zero => exact fun hsame => ⟨hsame, hst'⟩
          | succ links' =>
            refine fun hsame => ⟨fun s hs => ?_, hst', hsame⟩
            rcases List.mem_append.1 hs with hs | hs
            · split at hs
              · cases hs
              · exact hhere s (List.mem_append_left _ hs)
            · rcases List.mem_append.1 hs with hs | hs
              · exact Path.isStep_of_mem_steps hs
              · exact hsteps s (List.mem_append_right _ hs)

/-- Views that agree on all names share what they open. -/
theorem SharedBy.of_agree {V' : View α}
    (hlook : ∀ names, (∀ s ∈ names, IsStep s) → V'.look names = V.look names)
    (hfile : ∀ names, (∀ s ∈ names, IsStep s) → V'.file names = V.file names) :
    V.SharedBy V' := by
  intro p a _ _ ha
  have hsteps : ∀ s ∈ p.steps, IsStep s := fun _ => Path.isStep_of_mem_steps
  have hresolved : V'.resolved p linkLimit [] p.steps = V.resolved p linkLimit [] p.steps :=
    (resolved_of_look (V := V) (fun names => (pure (V'.look names) : StateM Unit _))
      (fun names _ hnames (_ : True) => ⟨hlook names hnames, trivial⟩) p linkLimit hsteps ()
      trivial).1
  have hconfined := confined_resolveNames
    (fun names => (pure (V'.look names) : StateM Unit _)) p linkLimit hsteps ()
  unfold opened at ha ⊢
  rw [hresolved]
  cases hnames : V.resolved p linkLimit [] p.steps with
  | error why =>
    rw [hnames] at ha
    cases ha
  | ok names =>
    rw [hnames] at ha
    exact (hfile names (hconfined names (hresolved.trans hnames)).1).trans ha

end View

/-! ## Kernels that show a view -/

/-- Wherever `holds`, the kernel answers below a root as a view does. `of` is the file that an open
one is. -/
structure Kernel.ShowsView (k : Kernel σ φ) (of : φ → α) (holds : σ → Prop) (root : Path)
    (V : View α) : Prop where
  look : ∀ names st, (∀ s ∈ names, IsStep s) → holds st →
    (k.look (root.below names) st).1 = V.look names
  file : ∀ names st, (∀ s ∈ names, IsStep s) → holds st →
    (k.openFile (root.below names) st).1.toOption.map of = V.file names

/-- Below a root that shows a view a path opens the file that it opens in the view. -/
theorem Kernel.ShowsView.ends_opened {k : Kernel σ φ} {of : φ → α} {holds : σ → Prop} {root : Path}
    {V : View α} (hV : k.ShowsView of holds root V) (hk : k.Quiet holds) (p : Path) {st : σ}
    (hst : holds st) :
    Ends (k.resolveIn root p >>= k.opened) st fun outcome st' =>
      outcome.toOption.map of = V.opened p ∧ holds st' := by
  have hsteps : ∀ s ∈ p.steps, IsStep s := fun _ => Path.isStep_of_mem_steps
  have hresolved := View.resolved_of_look (V := V) (fun names => k.look (root.below names))
    (fun names st hnames hst => ⟨hV.look names st hnames hst, hk.look _ st hst⟩)
    p linkLimit hsteps st hst
  have hnames := confined_resolveNames (fun names => k.look (root.below names)) p linkLimit hsteps
    st
  rw [ends_bind, ends_resolveIn, ends_file]
  obtain ⟨houtcome, hst'⟩ := hresolved
  unfold View.opened
  rw [← houtcome]
  cases hout : (resolveNames (fun names => k.look (root.below names)) p linkLimit [] p.steps
      st).1 with
  | error why => exact ⟨rfl, hst'⟩
  | ok names =>
    have hfile := hV.file names _ (hnames names hout).1 hst'
    refine ⟨Eq.trans ?_ hfile, hk.opened _ _ hst'⟩
    change ((k.openFile _ _).1.mapError Error.file).toOption.map of = _
    cases (k.openFile (root.below names) _).1 <;> rfl

end NamespaceAtlas
