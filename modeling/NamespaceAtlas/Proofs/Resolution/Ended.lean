-- Resolutions end, whatever the files turn into on the way. A turn takes one name,
-- and only a link that is followed brings names in; so there are no more turns
-- than the path has names and the followed links have, and links are followed up
-- to a limit only. The turns are told one by one here, as many as there are, so
-- that they end is no matter of a bound.
import Mathlib.Algebra.Ring.Nat
import NamespaceAtlas.Proofs.Resolution

namespace NamespaceAtlas

open NamespaceAtlas.Path (parentName)

variable {σ φ α : Type}

/-! ## Turn by turn -/

/-- What becomes of one turn of a resolution. -/
inductive Advance where
  /-- The resolution is over. -/
  | stop (outcome : Except FileFault (List Name))
  /-- It goes on from these names, with the names that are left. -/
  | goOn (done : List Name)
  /-- It comes to a link that is to be followed. -/
  | follow (target : Path)

/-- One turn of a resolution, which takes a name. -/
def advance (look : List Name → StateM σ (Except FileFault Sight)) (done : List Name) (name : Name)
    (rest : List Name) : StateM σ Advance :=
  if name = parentName then return .goOn done.dropLast
  else do
    match ← look (done ++ [name]) with
    | .error why => return .stop (.error why)
    | .ok .missing => return .stop (.ok (done ++ [name] ++ rest))
    | .ok .plain => return .goOn (done ++ [name])
    | .ok (.link target) =>
      if target.isNamespaceText then return .goOn (done ++ [name]) else return .follow target

/-- A resolution that ends, with the targets of the links that it follows and the number of its
turns. It has followed some links before, and no more than the limit in all. -/
inductive Resolves (look : List Name → StateM σ (Except FileFault Sight)) (path : Path) :
    (followed : Nat) → (done pending : List Name) → σ → List Path → Nat →
      Except FileFault (List Name) → σ → Prop
  | done {followed done st} : Resolves look path followed done [] st [] 0 (.ok done) st
  | stop {followed done name rest st st' outcome} :
      advance look done name rest st = (.stop outcome, st') →
      Resolves look path followed done (name :: rest) st [] 1 outcome st'
  | goOn {followed done done' name rest st st' st'' targets turns outcome} :
      advance look done name rest st = (.goOn done', st') →
      Resolves look path followed done' rest st' targets turns outcome st'' →
      Resolves look path followed done (name :: rest) st targets (turns + 1) outcome st''
  | follow {followed done name rest st st' st'' target targets turns outcome} :
      advance look done name rest st = (.follow target, st') → followed < linkLimit →
      Resolves look path (followed + 1) (if target.isAbsolute then [] else done)
        (target.steps ++ rest) st' targets turns outcome st'' →
      Resolves look path followed done (name :: rest) st (target :: targets) (turns + 1) outcome
        st''
  | past {followed done name rest st st' target} :
      advance look done name rest st = (.follow target, st') → linkLimit ≤ followed →
      Resolves look path followed done (name :: rest) st [] 1 (.error (.tooManyLinks path)) st'

variable {look : List Name → StateM σ (Except FileFault Sight)} {path : Path}
  {followed turns : Nat} {done pending : List Name} {st st' : σ} {targets : List Path}
  {outcome : Except FileFault (List Name)}

theorem resolveNames_cons (links : Nat) (name : Name) (rest : List Name) :
    resolveNames look path links done (name :: rest) = advance look done name rest >>= fun
      | .stop outcome => pure outcome
      | .goOn done => resolveNames look path links done rest
      | .follow target =>
        match links with
        | 0 => pure (.error (.tooManyLinks path))
        | links + 1 =>
          resolveNames look path links (if target.isAbsolute then [] else done)
            (target.steps ++ rest) := by
  rw [resolveNames]
  unfold advance
  split
  · rfl
  · rw [bind_assoc]
    refine bind_congr fun sight => ?_
    rcases sight with why | _ | _ | target
    · rfl
    · rfl
    · rfl
    · dsimp only
      split
      · rfl
      · cases links <;> rfl

/-- From wherever it stands a resolution ends. A turn uses up a link that may be followed, or else
a name that is to come. -/
theorem exists_resolves (look : List Name → StateM σ (Except FileFault Sight)) (path : Path)
    (links : Nat) (done pending : List Name) (followed : Nat) (st : σ)
    (h : followed + links = linkLimit) : ∃ targets turns,
      Resolves look path followed done pending st targets turns
        (resolveNames look path links done pending st).1
        (resolveNames look path links done pending st).2 := by
  cases pending with
  | nil =>
    unfold resolveNames
    exact ⟨[], 0, .done⟩
  | cons name rest =>
    rw [resolveNames_cons]
    dsimp only [bind, StateT.bind]
    rcases hturn : advance look done name rest st with ⟨outcome | done' | target, st'⟩
    · exact ⟨[], 1, .stop hturn⟩
    · obtain ⟨targets, turns, hrest⟩ := exists_resolves look path links done' rest followed st' h
      exact ⟨targets, turns + 1, .goOn hturn hrest⟩
    · cases links with
      | zero => exact ⟨[], 1, .past hturn (Nat.le_of_eq h.symm)⟩
      | succ links =>
        obtain ⟨targets, turns, hrest⟩ := exists_resolves look path links
          (if target.isAbsolute then [] else done) (target.steps ++ rest) (followed + 1) st'
          (by omega)
        exact ⟨target :: targets, turns + 1, .follow hturn (by omega) hrest⟩
termination_by (links, pending.length)

/-- There are no more turns than there are names to come, now and from the links. -/
theorem Resolves.turns_le
    (h : Resolves look path followed done pending st targets turns outcome st') :
    turns ≤ pending.length + (targets.map fun target => target.steps.length).sum := by
  induction h with
  | done => exact Nat.zero_le _
  | stop _ => simp
  | goOn _ _ ih =>
    rw [List.length_cons]
    omega
  | follow _ _ _ ih =>
    rw [List.length_append] at ih
    rw [List.length_cons, List.map_cons, List.sum_cons]
    omega
  | past _ _ => simp

theorem Resolves.length_targets_le
    (h : Resolves look path followed done pending st targets turns outcome st')
    (hfollowed : followed ≤ linkLimit) : followed + targets.length ≤ linkLimit := by
  induction h with
  | done => exact hfollowed
  | stop _ => exact hfollowed
  | goOn _ _ ih => exact ih hfollowed
  | follow _ hlt _ ih =>
    have hle := ih hlt
    rw [List.length_cons]
    omega
  | past _ _ => exact hfollowed

/-! ## How often the kernel is asked -/

/-- A question to a kernel that keeps a count, which it leaves alone. -/
def uncounted (m : StateM σ α) : StateM (σ × Nat) α :=
  fun s => ((m s.1).1, ((m s.1).2, s.2))

/-- A kernel that counts how often it is asked whether a file is a link. -/
def Kernel.counting (k : Kernel σ φ) : Kernel (σ × Nat) φ where
  caller := k.caller
  directory := uncounted k.directory
  isLink p := fun s => ((k.isLink p s.1).1, ((k.isLink p s.1).2, s.2 + 1))
  linkTarget p := uncounted (k.linkTarget p)
  listing p := uncounted (k.listing p)
  contents p := uncounted (k.contents p)
  openFile p := uncounted (k.openFile p)
  identify f := uncounted (k.identify f)
  identifyAt p := uncounted (k.identifyAt p)
  speciesFlag f := uncounted (k.speciesFlag f)
  owner f := uncounted (k.owner f)
  parent f := uncounted (k.parent f)
  creator f := uncounted (k.creator f)
  spawn mount user limit := uncounted (k.spawn mount user limit)
  release pid := uncounted (k.release pid)
  isLate limit := uncounted (k.isLate limit)

variable {k : Kernel σ φ} {root : Path}

/-- A look asks once whether there is a link. -/
theorem Kernel.look_counting (p : Path) (s : σ × Nat) :
    k.counting.look p s = ((k.look p s.1).1, ((k.look p s.1).2, s.2 + 1)) := by
  unfold look counting
  dsimp only [bind, StateT.bind]
  rcases k.isLink p s.1 with ⟨why | _ | _, st⟩
  · rfl
  · rfl
  · dsimp only [StateT.bind, uncounted]
    rcases k.linkTarget p st with ⟨why | target, st'⟩
    · rfl
    · rfl

/-- The count makes no difference to a turn, which looks once at most. -/
theorem advance_counting (k : Kernel σ φ) (root : Path) (done : List Name) (name : Name)
    (rest : List Name) (s : σ × Nat) :
    ∃ count ≤ s.2 + 1, advance (fun names => k.counting.look (root.below names)) done name rest s =
      ((advance (fun names => k.look (root.below names)) done name rest s.1).1,
        ((advance (fun names => k.look (root.below names)) done name rest s.1).2, count)) := by
  unfold advance
  split
  · exact ⟨s.2, Nat.le_succ s.2, rfl⟩
  · refine ⟨s.2 + 1, Nat.le_refl _, ?_⟩
    dsimp only [bind, StateT.bind]
    rw [Kernel.look_counting]
    rcases k.look (root.below (done ++ [name])) s.1 with ⟨why | _ | _ | target, st⟩
    · rfl
    · rfl
    · rfl
    · dsimp only
      split
      · rfl
      · rfl

theorem Resolves.count_le {s s' : σ × Nat}
    (h : Resolves (fun names => k.counting.look (root.below names)) path followed done pending s
      targets turns outcome s') : s'.2 ≤ s.2 + turns := by
  have hturn : ∀ {done name rest s s' a}, advance (fun names => k.counting.look (root.below names))
      done name rest s = (a, s') → s'.2 ≤ s.2 + 1 := by
    intro done name rest s s' a hrun
    obtain ⟨count, hle, hcount⟩ := advance_counting k root done name rest s
    rw [hcount] at hrun
    obtain ⟨_, rfl⟩ := Prod.mk.inj hrun
    exact hle
  induction h with
  | done => exact Nat.le_refl _
  | stop hrun => exact hturn hrun
  | goOn hrun _ ih =>
    have hle := hturn hrun
    omega
  | follow hrun _ _ ih =>
    have hle := hturn hrun
    omega
  | past hrun _ => exact hturn hrun

/-- Nor does the count make a difference to a whole resolution. -/
theorem resolveNames_counting (k : Kernel σ φ) (root path : Path) (links : Nat)
    (done pending : List Name) (s : σ × Nat) : ∃ count,
    resolveNames (fun names => k.counting.look (root.below names)) path links done pending s =
      ((resolveNames (fun names => k.look (root.below names)) path links done pending s.1).1,
        ((resolveNames (fun names => k.look (root.below names)) path links done pending s.1).2,
          count)) := by
  cases pending with
  | nil =>
    unfold resolveNames
    exact ⟨s.2, rfl⟩
  | cons name rest =>
    rw [resolveNames_cons, resolveNames_cons]
    dsimp only [bind, StateT.bind]
    obtain ⟨count, _, hturn⟩ := advance_counting k root done name rest s
    rw [hturn]
    rcases advance (fun names => k.look (root.below names)) done name rest s.1 with
      ⟨outcome | done' | target, st⟩
    · exact ⟨count, rfl⟩
    · exact resolveNames_counting k root path links done' rest (st, count)
    · cases links with
      | zero => exact ⟨count, rfl⟩
      | succ links =>
        exact resolveNames_counting k root path links (if target.isAbsolute then [] else done)
          (target.steps ++ rest) (st, count)
termination_by (links, pending.length)

/-! ## Ending -/

/-- What the names come to below the root, a whole resolution comes to. -/
theorem Kernel.resolveIn_run {k : Kernel σ φ} {root path : Path} {st st' : σ}
    {outcome : Except FileFault (List Name)}
    (h : resolveNames (fun names => k.look (root.below names)) path linkLimit [] path.steps st =
      (outcome, st')) :
    (k.resolveIn root path).run st = ((outcome.mapError Error.file).map root.below, st') := by
  have hends : Ends (k.resolveIn root path) st fun answer st'' =>
      answer = (outcome.mapError Error.file).map root.below ∧ st'' = st' := by
    rw [ends_resolveIn, ends_file, h]
    exact ⟨rfl, rfl⟩
  exact Prod.ext hends.1 hends.2

/-- A resolution ends whatever the kernel answers, which need not be the same from one time to the
next. It is made of turns that follow 40 links at most, and asks at most as often whether there is
a link as there are names in the path and in the targets that it follows; the counting of these
questions makes no difference to what it comes to. -/
theorem a_resolution_ends_though_the_tree_changes (k : Kernel σ φ) (root path : Path) (st : σ) :
    ∃ targets turns outcome st' looks,
      Resolves (fun names => k.counting.look (root.below names)) path 0 [] path.steps (st, 0)
        targets turns outcome (st', looks) ∧
      (k.counting.resolveIn root path).run (st, 0) =
        ((outcome.mapError Error.file).map root.below, (st', looks)) ∧
      (k.resolveIn root path).run st = ((outcome.mapError Error.file).map root.below, st') ∧
      targets.length ≤ 40 ∧ looks ≤ turns ∧
      turns ≤ path.steps.length + (targets.map fun target => target.steps.length).sum := by
  obtain ⟨targets, turns, h⟩ := exists_resolves
    (fun names => k.counting.look (root.below names)) path linkLimit [] path.steps 0 (st, 0) rfl
  obtain ⟨looks, hcount⟩ := resolveNames_counting k root path linkLimit [] path.steps (st, 0)
  rw [hcount] at h
  have hfollowed := h.length_targets_le (Nat.zero_le _)
  rw [Nat.zero_add] at hfollowed
  have hlooks := h.count_le
  rw [Nat.zero_add] at hlooks
  exact ⟨targets, turns, _, _, looks, h, Kernel.resolveIn_run hcount, Kernel.resolveIn_run rfl,
    hfollowed, hlooks, h.turns_le⟩

end NamespaceAtlas
