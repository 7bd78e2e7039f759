-- The resolution of paths in another root. What it comes to is the root and
-- names below it; a `..` among them stands behind a name where nothing stands.
import NamespaceAtlas.Gateway.Confined
import NamespaceAtlas.Proofs.Outcome
import NamespaceAtlas.Proofs.Path

namespace NamespaceAtlas

variable {σ φ : Type}

/-! ## The rule -/

/-- What is to hold after a look at the next name, for `inv` to hold on the way and `post` at the
end. -/
def afterLook (path : Path) (inv : Nat → List Name → List Name → σ → Prop)
    (post : Except FileFault (List Name) → σ → Prop) (links : Nat) (done : List Name) (name : Name)
    (rest : List Name) : Except FileFault Sight → σ → Prop
  | .error why, st => post (.error why) st
  | .ok .missing, st => post (.ok (done ++ name :: rest)) st
  | .ok .plain, st => inv links (done ++ [name]) rest st
  | .ok (.link target), st =>
    if target.isNamespaceText then inv links (done ++ [name]) rest st
    else
      match links with
      | 0 => post (.error (.tooManyLinks path)) st
      | links + 1 => inv links (if target.isAbsolute then [] else done) (target.steps ++ rest) st

/-- What holds at the start of a resolution and after each of its steps holds on all of the way. -/
theorem resolves (look : List Name → StateM σ (Except FileFault Sight)) (path : Path)
    (inv : Nat → List Name → List Name → σ → Prop)
    (post : Except FileFault (List Name) → σ → Prop)
    (hend : ∀ links done st, inv links done [] st → post (.ok done) st)
    (hup : ∀ links done rest st, inv links done (Path.parentName :: rest) st →
      inv links done.dropLast rest st)
    (hlook : ∀ links done name rest st, name ≠ Path.parentName → inv links done (name :: rest) st →
      afterLook path inv post links done name rest (look (done ++ [name]) st).1
        (look (done ++ [name]) st).2)
    (links : Nat) (done pending : List Name) :
    ∀ st, inv links done pending st →
      post (resolveNames look path links done pending st).1
        (resolveNames look path links done pending st).2 := by
  induction links, done, pending using resolveNames.induct with
  | case1 links done =>
    intro st h
    unfold resolveNames
    exact hend links done st h
  | case2 links done rest ih =>
    intro st h
    unfold resolveNames
    rw [if_pos rfl]
    exact ih st (hup links done rest st h)
  | case3 links done name rest hname here ihplain ihlink =>
    intro st h
    have hafter := hlook links done name rest st hname h
    unfold resolveNames
    rw [if_neg hname]
    change afterLook path inv post links done name rest (look here st).1 (look here st).2 at hafter
    revert hafter
    dsimp only [bind, StateT.bind]
    rcases look here st with ⟨why | sight, st'⟩
    · exact id
    cases sight with
    | missing =>
      intro hafter
      change post (.ok (done ++ [name] ++ rest)) st'
      rwa [List.append_assoc]
    | plain => exact ihplain st'
    | link target =>
      simp only [afterLook]
      split
      · exact ihplain st'
      · cases links with
        | zero => exact id
        | succ links => exact ihlink target st'

/-! ## Names below a root -/

open NamespaceAtlas.Path (parentName IsStep partOf)

/-- The parts of a path below a root. -/
theorem Path.parts_below {root : Path} {names : List Name} (h : ∀ s ∈ names, IsStep s) :
    (root.below names).parts =
      (if root.bytes = [] then [.root] else root.parts) ++ names.map partOf := by
  have hrelative : (ofNames names).isAbsolute = false := by
    cases names with
    | nil => rfl
    | cons s rest =>
      obtain ⟨hvoid, hslash⟩ := h s List.mem_cons_self
      exact isAbsolute_ofNames hvoid hslash
  have hnames : (ofNames names).segments.filterMap part? = names.map partOf := by
    cases names with
    | nil => rfl
    | cons s rest =>
      rw [segments_ofNames (List.cons_ne_nil s rest) fun s hs => (h s hs).2, filterMap_part?,
        filter_isStep h]
  unfold below
  split
  · rw [parts_join (by decide) hrelative, hnames]
    rfl
  · rename_i hroot
    rw [parts_join hroot hrelative, hnames]

/-- The steps of a path below a root. -/
theorem Path.steps_below {root : Path} {names : List Name} (h : ∀ s ∈ names, IsStep s) :
    (root.below names).steps = (if root.bytes = [] then [] else root.steps) ++ names := by
  unfold steps
  rw [parts_below h, List.filterMap_append, filterMap_partOf rfl fun _ => rfl]
  split <;> rfl

/-- Of these names, only those behind one where nothing stands may be `..`. -/
def Confined (look : List Name → StateM σ (Except FileFault Sight)) (names : List Name) : Prop :=
  parentName ∉ names ∨ ∃ found name rest, names = found ++ name :: rest ∧
    parentName ∉ found ++ [name] ∧ ∃ st, (look (found ++ [name]) st).1 = .ok .missing

/-- The names that a resolution comes to are steps, and confined. -/
theorem confined_resolveNames (look : List Name → StateM σ (Except FileFault Sight)) (path : Path)
    (links : Nat) {pending : List Name} (hpending : ∀ s ∈ pending, IsStep s) (st : σ) :
    ∀ names, (resolveNames look path links [] pending st).1 = .ok names →
      (∀ s ∈ names, IsStep s) ∧ Confined look names := by
  refine resolves look path
    (fun _ done pending _ => (∀ s ∈ done, IsStep s ∧ s ≠ parentName) ∧ ∀ s ∈ pending, IsStep s)
    (fun outcome _ => ∀ names, outcome = .ok names → (∀ s ∈ names, IsStep s) ∧ Confined look names)
    ?_ ?_ ?_ links [] pending st ⟨by simp, hpending⟩
  · rintro _ done _ ⟨hdone, _⟩ _ ⟨⟩
    refine ⟨fun s hs => (hdone s hs).1, Or.inl fun hup => (hdone _ hup).2 rfl⟩
  · rintro _ done rest _ ⟨hdone, hrest⟩
    exact ⟨fun s hs => hdone s (List.dropLast_subset done hs),
      fun s hs => hrest s (List.mem_cons_of_mem _ hs)⟩
  · rintro links done name rest st hname ⟨hdone, hpending⟩
    have hhere : ∀ s ∈ done ++ [name], IsStep s ∧ s ≠ parentName := by
      intro s hs
      rcases List.mem_append.1 hs with hs | hs
      · exact hdone s hs
      · rw [List.mem_singleton.1 hs]
        exact ⟨hpending name List.mem_cons_self, hname⟩
    have hrest : ∀ s ∈ rest, IsStep s := fun s hs => hpending s (List.mem_cons_of_mem _ hs)
    cases hlook : look (done ++ [name]) st with
    | mk sight st' =>
      rcases sight with why | _ | _ | target
      · rintro _ ⟨⟩
      · rintro _ ⟨⟩
        refine ⟨fun s hs => ?_,
          Or.inr ⟨done, name, rest, rfl, fun hup => (hhere _ hup).2 rfl, st, ?_⟩⟩
        · rcases List.mem_append.1 hs with hs | hs
          · exact (hdone s hs).1
          · exact hpending s hs
        · rw [hlook]
      · exact ⟨hhere, hrest⟩
      · unfold afterLook
        dsimp only
        split
        · exact ⟨hhere, hrest⟩
        · cases links with
          | zero => rintro _ ⟨⟩
          | succ links =>
            refine ⟨fun s hs => ?_, fun s hs => ?_⟩
            · split at hs
              · cases hs
              · exact hdone s hs
            · rcases List.mem_append.1 hs with hs | hs
              · exact Path.isStep_of_mem_steps hs
              · exact hrest s hs

/-- A resolution inside a root, by the names that it comes to. -/
theorem ends_resolveIn {k : Kernel σ φ} {root path : Path} {st : σ}
    {post : Except Error Path → σ → Prop} :
    Ends (k.resolveIn root path) st post ↔
      Ends (Ask.file (resolveNames (fun names => k.look (root.below names)) path linkLimit []
        path.steps)) st fun names st' => post (names.map root.below) st' := by
  unfold Kernel.resolveIn
  rw [ends_bind, ends_file, ends_file]
  cases (resolveNames (fun names => k.look (root.below names)) path linkLimit [] path.steps
    st).1 with
  | error why => rfl
  | ok names => rfl

/-! ## The law -/

/-- Where nothing stands the kernel has said so. -/
theorem Kernel.isLink_of_look_missing {k : Kernel σ φ} {p : Path} {st : σ}
    (h : (k.look p st).1 = .ok .missing) : (k.isLink p st).1 = .error (.refused .noEntry) := by
  unfold look at h
  dsimp only [bind, StateT.bind] at h
  revert h
  rcases k.isLink p st with ⟨why | link, st'⟩
  · dsimp only
    split
    · rename_i hmissing
      intro _
      simpa [FileFault.isMissing] using hmissing
    · intro h
      cases h
  · cases link with
    | false =>
      intro h
      cases h
    | true =>
      dsimp only [StateT.bind]
      rcases k.linkTarget p st' with ⟨why | target, st''⟩
      · intro h
        cases h
      · intro h
        cases h

/-- Whatever the files are, and whatever the kernel answers: a path that is resolved inside a root
comes out as the root and names below it. None of them is `..`, unless it stands behind a name of
which the kernel has said that nothing stands there. -/
theorem a_resolved_path_is_below_its_root (k : Kernel σ φ) (root path : Path) (st : σ) (r : Path)
    (h : ((k.resolveIn root path).run st).1 = .ok r) :
    ∃ names, r = root.below names ∧
      r.parts = (if root.bytes = [] then [.root] else root.parts) ++ names.map partOf ∧
      (∀ s ∈ names, IsStep s) ∧
      (parentName ∉ names ∨ ∃ found name rest, names = found ++ name :: rest ∧
        parentName ∉ found ++ [name] ∧
        ∃ st, (k.isLink (root.below (found ++ [name])) st).1 = .error (.refused .noEntry)) := by
  have hends : Ends (k.resolveIn root path) st fun outcome _ => outcome = .ok r := h
  rw [ends_resolveIn, ends_file] at hends
  have hconfined := confined_resolveNames (fun names => k.look (root.below names)) path linkLimit
    (fun _ => Path.isStep_of_mem_steps (p := path)) st
  cases hfound : (resolveNames (fun names => k.look (root.below names)) path linkLimit [] path.steps
      st).1 with
  | error why =>
    rw [hfound] at hends
    cases hends
  | ok names =>
    rw [hfound] at hends
    cases hends
    obtain ⟨hsteps, hup⟩ := hconfined names hfound
    refine ⟨names, rfl, Path.parts_below hsteps, hsteps, hup.imp_right ?_⟩
    rintro ⟨found, name, rest, hnames, hfound, st, hmissing⟩
    exact ⟨found, name, rest, hnames, hfound, st, Kernel.isLink_of_look_missing hmissing⟩

/-- A kernel without files, with one state. -/
def bareKernel : Kernel Unit Unit := .bare

/-- Without files the first name that is no `..` is kept, and all that comes after it. -/
theorem resolveNames_bareKernel (root path : Path) (links : Nat) (done : List Name) {name : Name}
    (hname : name ≠ parentName) (rest : List Name) :
    resolveNames (fun names => bareKernel.look (root.below names)) path links done
      (name :: rest) () = (.ok (done ++ [name] ++ rest), ()) := by
  unfold resolveNames
  rw [if_neg hname]
  rfl

/-- The first steps to a parent stay at the root. -/
theorem the_first_parents_stay_at_the_root :
    ((bareKernel.resolveIn "" "/../../etc/./passwd").run ()).1 = .ok "/etc/passwd" ∧
      ∃ names : List Name, Path.parts "/etc/passwd" = .root :: names.map partOf ∧
        ∀ s ∈ names, IsStep s := by
  have hresolved : ((bareKernel.resolveIn "" "/../../etc/./passwd").run ()).1 =
      .ok "/etc/passwd" := by
    have hsteps : Path.steps "/../../etc/./passwd" =
        [parentName, parentName, Bytes.ofText "etc", Bytes.ofText "passwd"] := by decide
    change Ends (bareKernel.resolveIn "" "/../../etc/./passwd") () fun outcome _ => outcome = _
    rw [ends_resolveIn, ends_file, hsteps, resolveNames, if_pos rfl, resolveNames, if_pos rfl,
      resolveNames_bareKernel _ _ _ _ (by decide)]
    decide
  obtain ⟨names, _, hparts, hnames, _⟩ :=
    a_resolved_path_is_below_its_root bareKernel "" "/../../etc/./passwd" () "/etc/passwd"
      hresolved
  exact ⟨hresolved, names, hparts, hnames⟩

/-- Behind a name that is missing a `..` is kept. -/
theorem a_parent_behind_a_missing_name_is_kept :
    ((bareKernel.resolveIn "/r" "/missing/../../etc").run ()).1 = .ok "/r/missing/../../etc" ∧
      Path.Part.parent ∈ Path.parts "/r/missing/../../etc" := by
  have hsteps : Path.steps "/missing/../../etc" =
      [Bytes.ofText "missing", parentName, parentName, Bytes.ofText "etc"] := by decide
  refine ⟨?_, by decide⟩
  change Ends (bareKernel.resolveIn "/r" "/missing/../../etc") () fun outcome _ => outcome = _
  rw [ends_resolveIn, ends_file, hsteps, resolveNames_bareKernel _ _ _ _ (by decide)]
  decide

end NamespaceAtlas
