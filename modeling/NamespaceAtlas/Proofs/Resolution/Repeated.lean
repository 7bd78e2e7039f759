-- Paths that are resolved once more. Names that a resolution comes to lead on
-- without a link to be followed, up to a name where nothing stands; so it
-- leaves them as they are when it meets them again.
import NamespaceAtlas.Proofs.NodeTree
import NamespaceAtlas.Proofs.View

namespace NamespaceAtlas

open NamespaceAtlas.Path (parentName IsStep partOf)

variable {σ φ α : Type}

/-! ## Settled names -/

namespace View

variable {V : View α} {path : Path} {links : Nat} {name : Name}
  {names rest done pending : List Name}

/-- A resolution goes on below each of these names, and none leads to a parent. -/
structure Open (V : View α) (names : List Name) : Prop where
  noParent : parentName ∉ names
  passes : ∀ l, l <+: names → l ≠ [] → V.Passes l

/-- Names at which a resolution can end: all are open, or all are up to one where nothing stands,
behind which there may be anything. -/
inductive Settled (V : View α) : List Name → Prop
  | found {names : List Name} : V.Open names → Settled V names
  | missing {found rest : List Name} {name : Name} : V.Open found → name ≠ parentName →
      V.look (found ++ [name]) = .ok .missing → Settled V (found ++ name :: rest)

theorem Open.nil (V : View α) : V.Open [] where
  noParent := List.not_mem_nil
  passes _ hl hne := absurd (List.prefix_nil.1 hl) hne

theorem Open.of_prefix {l : List Name} (h : V.Open names) (hl : l <+: names) : V.Open l where
  noParent hmem := h.noParent (hl.subset hmem)
  passes m hm := h.passes m (hm.trans hl)

theorem Open.concat (h : V.Open names) (hname : name ≠ parentName)
    (hpasses : V.Passes (names ++ [name])) : V.Open (names ++ [name]) where
  noParent hmem := by
    rcases List.mem_append.1 hmem with hmem | hmem
    · exact h.noParent hmem
    · exact hname (List.mem_singleton.1 hmem).symm
  passes l hl hne := by
    rcases List.prefix_concat_iff.1 hl with rfl | hl
    · exact hpasses
    · exact h.passes l hl hne

/-! ## The first time -/

/-- A resolution that comes through comes to settled names. -/
theorem settled_of_resolved (hdone : V.Open done) :
    V.resolved path links done pending = .ok names → V.Settled names := by
  refine resolves (fun names => (pure (V.look names) : StateM Unit _)) path
    (fun _ done _ _ => V.Open done) (fun outcome _ => outcome = .ok names → V.Settled names)
    ?_ ?_ ?_ links done pending () hdone
  · rintro _ done _ hdone ⟨⟩
    exact .found hdone
  · intro _ done _ _ hdone
    exact hdone.of_prefix (List.dropLast_prefix done)
  · intro links done name rest _ hname hdone
    change afterLook path _ _ links done name rest (V.look (done ++ [name])) ()
    cases hlook : V.look (done ++ [name]) with
    | error why => rintro ⟨⟩
    | ok sight =>
      cases sight with
      | missing =>
        rintro ⟨⟩
        exact .missing hdone hname hlook
      | plain => exact hdone.concat hname (.inl hlook)
      | link target =>
        unfold afterLook
        dsimp only
        split
        · exact hdone.concat hname (.inr ⟨target, hlook, ‹_›⟩)
        · cases links with
          | zero => rintro ⟨⟩
          | succ links =>
            dsimp only
            split
            · exact .nil V
            · exact hdone

/-! ## The second time -/

/-- A resolution goes over open names without following a link. -/
theorem resolved_of_open (h : V.Open (done ++ pending)) :
    V.resolved path links done (pending ++ rest) =
      V.resolved path links (done ++ pending) rest := by
  induction pending generalizing done with
  | nil => rw [List.append_nil, List.nil_append]
  | cons name more ih =>
    have hname : name ≠ parentName := by
      rintro rfl
      exact h.noParent (List.mem_append_right done List.mem_cons_self)
    rw [List.append_cons] at h ⊢
    rw [List.cons_append, resolved_of_passes hname, ih h]
    exact h.passes _ (List.prefix_append _ more) (by simp)

/-- Settled names are left as they are, even if no link may be followed. -/
theorem Settled.resolved (h : V.Settled names) : V.resolved path links [] names = .ok names := by
  cases h with
  | found hopen =>
    have hgo : V.resolved path links [] (names ++ []) = V.resolved path links names [] :=
      resolved_of_open hopen
    rw [List.append_nil] at hgo
    rw [hgo]
    unfold View.resolved resolveNames
    rfl
  | @missing found rest name hopen hname hlook =>
    have hgo : V.resolved path links [] (found ++ name :: rest) =
        V.resolved path links found (name :: rest) := resolved_of_open hopen
    rw [hgo, resolved_name hname, hlook]

end View

/-! ## Files that stand still -/

/-- What is seen of names below a root at one moment. -/
def Kernel.sightsAt (k : Kernel σ φ) (root : Path) (st : σ) : View Unit where
  look names := (k.look (root.below names) st).1
  file _ := none

/-- Wherever `holds`, the kernel says the same of the links at a path whenever it is asked. -/
structure Kernel.StandsStill (k : Kernel σ φ) (holds : σ → Prop) : Prop where
  isLink : ∀ p st st', holds st → holds st' → (k.isLink p st).1 = (k.isLink p st').1
  linkTarget : ∀ p st st', holds st → holds st' → (k.linkTarget p st).1 = (k.linkTarget p st').1
  keeps_isLink : ∀ p, Keeps holds (k.isLink p)
  keeps_linkTarget : ∀ p, Keeps holds (k.linkTarget p)

namespace Kernel.StandsStill

variable {k : Kernel σ φ} {holds : σ → Prop} {st st' : σ} (hk : k.StandsStill holds)
include hk

theorem keeps_look (p : Path) : Keeps holds (k.look p) := by
  apply Keeps.bind (hk.keeps_isLink p)
  rintro (why | link)
  · exact Keeps.pure
  · cases link with
    | false => exact Keeps.pure
    | true =>
      apply Keeps.bind (hk.keeps_linkTarget p)
      rintro (why | target)
      · exact Keeps.pure
      · exact Keeps.pure

theorem look_eq (hst : holds st) (hst' : holds st') (p : Path) :
    (k.look p st).1 = (k.look p st').1 := by
  have hlink := hk.isLink p st st' hst hst'
  have hafter := hk.keeps_isLink p st hst
  have hafter' := hk.keeps_isLink p st' hst'
  unfold look
  dsimp only [bind, StateT.bind]
  revert hlink hafter hafter'
  rcases k.isLink p st with ⟨answer, st₁⟩
  rcases k.isLink p st' with ⟨_, st₁'⟩
  rintro rfl hafter hafter'
  rcases answer with why | _ | _
  · rfl
  · rfl
  · have htarget := hk.linkTarget p st₁ st₁' hafter hafter'
    dsimp only [StateT.bind]
    revert htarget
    rcases k.linkTarget p st₁ with ⟨answer, st₂⟩
    rcases k.linkTarget p st₁' with ⟨_, st₂'⟩
    rintro rfl
    cases answer with
    | error why => rfl
    | ok target => rfl

/-- A resolution comes to what is seen below the root at any one moment. -/
theorem resolveIn_eq_ok_iff {root path r : Path} (hst : holds st) (hst' : holds st') :
    ((k.resolveIn root path).run st').1 = .ok r ↔
      ∃ names, (k.sightsAt root st).resolved path linkLimit [] path.steps = .ok names ∧
        r = root.below names := by
  have hsame := (View.resolved_of_look (V := k.sightsAt root st)
    (fun names => k.look (root.below names))
    (fun _ st₁ _ hst₁ => ⟨hk.look_eq hst₁ hst _, hk.keeps_look _ st₁ hst₁⟩)
    path linkLimit (fun _ => Path.isStep_of_mem_steps (p := path)) st' hst').1
  change Ends (k.resolveIn root path) st' (fun outcome _ => outcome = .ok r) ↔ _
  rw [ends_resolveIn, ends_file, hsame]
  cases (k.sightsAt root st).resolved path linkLimit [] path.steps with
  | error why => exact iff_of_false nofun nofun
  | ok names =>
    change Except.ok (root.below names) = Except.ok r ↔ _
    simp [eq_comm]

end Kernel.StandsStill

/-- The files of a host stand still as long as no sandbox comes or goes. -/
theorem Host.standsStill (h : Host) (top : FileTree) :
    h.kernel.StandsStill fun m => m.files = top where
  isLink p m m' hm hm' := by
    change (m.files.look false p).bind _ = (m'.files.look false p).bind _
    rw [hm, hm']
  linkTarget p m m' hm hm' := by
    change (m.files.look false p).bind _ = (m'.files.look false p).bind _
    rw [hm, hm']
  keeps_isLink _ _ hm := hm
  keeps_linkTarget _ _ hm := hm

/-! ## The law -/

namespace Path

variable {root p q : Path} {names : List Name}

/-- `q` is the part of a path below a root: its steps are what the path has behind the parts of the
root. How `q` is spelled makes no difference. -/
def IsPartBelow (root p q : Path) : Prop := p.parts = (root.below []).parts ++ q.steps.map partOf

theorem partOf_injective : Function.Injective partOf := by
  intro s t h
  unfold partOf at h
  split at h
  · rename_i hs
    split at h
    · rename_i ht
      rw [hs, ht]
    · cases h
  · split at h
    · cases h
    · exact Part.name.inj h

theorem steps_ofNames (h : ∀ s ∈ names, IsStep s) : (ofNames names).steps = names := by
  rw [steps_eq]
  cases names with
  | nil => rfl
  | cons s rest =>
    rw [segments_ofNames (List.cons_ne_nil s rest) fun s hs => (h s hs).2, filter_isStep h]

theorem isPartBelow_below_iff (h : ∀ s ∈ names, IsStep s) :
    IsPartBelow root (root.below names) q ↔ q.steps = names := by
  unfold IsPartBelow
  rw [parts_below h, parts_below (List.forall_mem_nil _), List.map_nil, List.append_nil,
    List.append_cancel_left_eq, (List.map_injective_iff.2 partOf_injective).eq_iff, eq_comm]

end Path

/-- On files that stand still, with whatever links, holes and circles: a path that comes out of a
resolution inside a root comes out again when the part of it below the root is resolved there. -/
theorem resolving_again_changes_nothing (k : Kernel σ φ) (holds : σ → Prop)
    (hk : k.StandsStill holds) (root path r : Path) (st : σ) (hst : holds st)
    (h : ((k.resolveIn root path).run st).1 = .ok r) :
    holds ((k.resolveIn root path).run st).2 ∧ (∃ q, Path.IsPartBelow root r q) ∧
      ∀ q, Path.IsPartBelow root r q → ∀ st', holds st' →
        ((k.resolveIn root q).run st').1 = .ok r := by
  obtain ⟨names, hnames, rfl⟩ := (hk.resolveIn_eq_ok_iff hst hst).1 h
  have hsteps : ∀ s ∈ names, IsStep s :=
    (confined_resolveNames _ path linkLimit (fun _ => Path.isStep_of_mem_steps) () names hnames).1
  have hsettled : (k.sightsAt root st).Settled names :=
    View.settled_of_resolved (.nil _) hnames
  refine ⟨?_, ⟨.ofNames names, ?_⟩, fun q hq st' hst' => ?_⟩
  · change Ends (k.resolveIn root path) st fun _ st' => holds st'
    rw [ends_resolveIn, ends_file]
    exact keeps_resolveNames (fun _ => hk.keeps_look _) path linkLimit [] path.steps st hst
  · rw [Path.isPartBelow_below_iff hsteps]
    exact Path.steps_ofNames hsteps
  · rw [Path.isPartBelow_below_iff hsteps] at hq
    rw [hk.resolveIn_eq_ok_iff hst hst', hq]
    exact ⟨names, hsettled.resolved, rfl⟩

/-! ## A host -/

section Host

variable {h : Host} {m : Host.Machine} {p target : Path} {place : List Name}

theorem Host.look_link (hat : m.files.look false p = .ok (place, .link target)) :
    h.kernel.look p m = (.ok (.link target), m) := by
  have hlink : h.kernel.isLink p m = (.ok true, m) := by
    change ((m.files.look false p).bind _, m) = _
    rw [hat]
    rfl
  have htarget : h.kernel.linkTarget p m = (.ok target, m) := by
    change ((m.files.look false p).bind _, m) = _
    rw [hat]
    rfl
  unfold Kernel.look
  dsimp only [bind, StateT.bind]
  rw [hlink]
  dsimp only [StateT.bind]
  rw [htarget]
  rfl

theorem Host.look_missing (hat : m.files.look false p = .error (.refused .noEntry)) :
    h.kernel.look p m = (.ok .missing, m) := by
  have hlink : h.kernel.isLink p m = (.error (.refused .noEntry), m) := by
    change ((m.files.look false p).bind _, m) = _
    rw [hat]
    rfl
  unfold Kernel.look
  dsimp only [bind, StateT.bind]
  rw [hlink]
  rfl

end Host

/-- A directory with the link of a namespace, and one that leads over a name that is not there. -/
def FileTree.frayed : FileTree :=
  .directory [(Host.name "held", .link "net:[7]"), (Host.name "out", .link "gone/../../y")]

/-- What a host lets see of this directory. -/
def frayedView : View Unit := Host.lone.kernel.sightsAt .empty { files := FileTree.frayed }

theorem look_frayed_held : frayedView.look [Host.name "held"] = .ok (.link "net:[7]") := by
  have hsteps : FileTree.steps "/held" = [Host.name "held"] := by decide
  have hlook : FileTree.frayed.look false "/held" = .ok ([Host.name "held"], .link "net:[7]") := by
    unfold FileTree.look FileTree.locate
    rw [hsteps, FileTree.walk]
    rfl
  exact congrArg Prod.fst (Host.look_link hlook)

theorem look_frayed_out : frayedView.look [Host.name "out"] = .ok (.link "gone/../../y") := by
  have hsteps : FileTree.steps "/out" = [Host.name "out"] := by decide
  have hlook : FileTree.frayed.look false "/out" =
      .ok ([Host.name "out"], .link "gone/../../y") := by
    unfold FileTree.look FileTree.locate
    rw [hsteps, FileTree.walk]
    rfl
  exact congrArg Prod.fst (Host.look_link hlook)

theorem look_frayed_gone : frayedView.look [Host.name "gone"] = .ok .missing := by
  have hsteps : FileTree.steps "/gone" = [Host.name "gone"] := by decide
  have hlook : FileTree.frayed.look false "/gone" = .error (.refused .noEntry) := by
    unfold FileTree.look FileTree.locate
    rw [hsteps, FileTree.walk]
    rfl
  exact congrArg Prod.fst (Host.look_missing hlook)

/-- The way over the links, up to the name that is not there. -/
theorem resolved_frayed :
    frayedView.resolved "/held/../out/./z" linkLimit [] (Path.steps "/held/../out/./z") =
      .ok [Host.name "gone", parentName, parentName, Host.name "y", Host.name "z"] := by
  have hsteps : Path.steps "/held/../out/./z" =
      [Host.name "held", parentName, Host.name "out", Host.name "z"] := by decide
  have htarget : Path.steps "gone/../../y" =
      [Host.name "gone", parentName, parentName, Host.name "y"] := by decide
  have hheld : Path.isNamespaceText "net:[7]" = true := by decide +kernel
  have hout : Path.isNamespaceText "gone/../../y" = false := by decide +kernel
  have hrelative : Path.isAbsolute "gone/../../y" = false := by decide
  calc
    _ = frayedView.resolved "/held/../out/./z" linkLimit [Host.name "held"]
          [parentName, Host.name "out", Host.name "z"] := by
      rw [hsteps]
      exact View.resolved_of_passes (by decide) (.inr ⟨_, look_frayed_held, hheld⟩)
    _ = frayedView.resolved "/held/../out/./z" linkLimit [] [Host.name "out", Host.name "z"] :=
      View.resolved_parent
    _ = frayedView.resolved "/held/../out/./z" 39 []
          [Host.name "gone", parentName, parentName, Host.name "y", Host.name "z"] := by
      rw [View.resolved_name (by decide), List.nil_append, look_frayed_out]
      dsimp only
      rw [hout, hrelative, htarget]
      rfl
    _ = _ := by
      rw [View.resolved_name (by decide), List.nil_append, look_frayed_gone]
      rfl

/-- What leads over a name that is not there is kept the first time, and the second time too. -/
theorem a_missing_name_is_kept_twice :
    ((Host.lone.kernel.resolveIn .empty "/held/../out/./z").run { files := FileTree.frayed }).1 =
        .ok "/gone/../../y/z" ∧
      ((Host.lone.kernel.resolveIn .empty "gone/../.././y/z").run { files := FileTree.frayed }).1 =
        .ok "/gone/../../y/z" := by
  have hstill := Host.lone.standsStill FileTree.frayed
  have hfirst : ((Host.lone.kernel.resolveIn .empty "/held/../out/./z").run
      { files := FileTree.frayed }).1 = .ok "/gone/../../y/z" := by
    have hsame : Host.Machine.files { files := FileTree.frayed } = FileTree.frayed := rfl
    exact (hstill.resolveIn_eq_ok_iff hsame hsame).2 ⟨_, resolved_frayed, by decide⟩
  obtain ⟨_, _, hagain⟩ := resolving_again_changes_nothing Host.lone.kernel _ hstill .empty
    "/held/../out/./z" "/gone/../../y/z" { files := FileTree.frayed } rfl hfirst
  refine ⟨hfirst, hagain "gone/../.././y/z" ?_ _ rfl⟩
  unfold Path.IsPartBelow
  decide

end NamespaceAtlas
