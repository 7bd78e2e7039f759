-- Walks from node to node. The resolution of a path works on names and takes
-- them off again for `..`; a walk moves through a tree of files and goes to
-- the parent. Both come to the same node, and give up at the same link.
import Mathlib.Logic.Relation
import NamespaceAtlas.Proofs.NodeTree
import NamespaceAtlas.Proofs.Resolution

namespace NamespaceAtlas

open NamespaceAtlas.Path (parentName isVoid IsStep)

variable {σ φ ν : Type}

/-- A walk under way: the node that it has reached, the segments of paths that are to come, and the
number of links that it has followed. -/
structure Walker (ν : Type) where
  node : ν
  pending : List Name
  followed : Nat

namespace NodeTree

variable (t : NodeTree ν)

/-- One step of a walk. A link is not entered: its segments come next, from the directory that it is
in, or from the root. -/
inductive Step : Walker ν → Walker ν → Prop
  | stay {d : ν} {s : Name} {rest : List Name} {n : Nat} : isVoid s = true →
      Step ⟨d, s :: rest, n⟩ ⟨d, rest, n⟩
  | up {d : ν} {rest : List Name} {n : Nat} : Step ⟨d, parentName :: rest, n⟩ ⟨t.parent d, rest, n⟩
  | into {d c : ν} {s : Name} {rest : List Name} {n : Nat} : IsStep s → s ≠ parentName →
      t.entry d s = some c → t.target c = none → Step ⟨d, s :: rest, n⟩ ⟨c, rest, n⟩
  | follow {d c : ν} {s : Name} {rest : List Name} {n : Nat} {p : Path} : IsStep s →
      s ≠ parentName → t.entry d s = some c → t.target c = some p →
      Step ⟨d, s :: rest, n⟩ ⟨if p.isAbsolute then t.root else d, p.segments ++ rest, n + 1⟩

/-- The walk along a path from the root comes by here. -/
def Walks (path : Path) (w : Walker ν) : Prop :=
  Relation.ReflTransGen t.Step ⟨t.root, path.segments, 0⟩ w

end NodeTree

variable {k : Kernel σ φ} {holds : σ → Prop} {root path : Path} {t : NodeTree ν} {st : σ}

/-! ## The resolution keeps up with the walk -/

/-- The resolution has come as far as the walk: what is left of it comes out as `outcome`. Once the
walk has followed too many links, it has given up. -/
def KeepsUp (k : Kernel σ φ) (holds : σ → Prop) (root path : Path) (t : NodeTree ν)
    (outcome : Except FileFault (List Name) × σ) (w : Walker ν) : Prop :=
  (w.followed ≤ linkLimit ∧ ∃ names st, holds st ∧ t.Leads names w.node ∧
    resolveNames (fun names => k.look (root.below names)) path (linkLimit - w.followed) names
      (w.pending.filter (!isVoid ·)) st = outcome) ∨
  linkLimit < w.followed ∧ outcome.1 = .error (.tooManyLinks path)

theorem keepsUp_step {outcome : Except FileFault (List Name) × σ} {w w' : Walker ν}
    (hk : k.ShowsTree holds root t) (htext : ∀ c p, t.target c = some p → p.isNamespaceText = false)
    (hstep : t.Step w w') (h : KeepsUp k holds root path t outcome w) :
    KeepsUp k holds root path t outcome w' := by
  rcases h with ⟨hn, names, st, hst, hlead, hrun⟩ | ⟨hn, hrun⟩
  · cases hstep with
    | @stay d s rest n hs =>
      refine Or.inl ⟨hn, names, st, hst, hlead, ?_⟩
      rwa [List.filter_cons_of_neg (by simp [hs])] at hrun
    | @up d rest n =>
      refine Or.inl ⟨hn, names.dropLast, st, hst, hlead.parent, ?_⟩
      rw [List.filter_cons_of_pos (by decide), resolveNames, if_pos rfl] at hrun
      exact hrun
    | @into d c s rest n hs hne hc hplain =>
      obtain ⟨st', hst', hlook⟩ := hk.look hlead hs hne hc hst
      refine Or.inl ⟨hn, names ++ [s], st', hst', .entry hlead hs hne hc hplain, ?_⟩
      rw [List.filter_cons_of_pos (by simp [hs.1]), resolveNames, if_neg hne] at hrun
      dsimp only [bind, StateT.bind] at hrun
      rw [hlook, NodeTree.sight, hplain] at hrun
      exact hrun
    | @follow d c s rest n p hs hne hc hp =>
      obtain ⟨st', hst', hlook⟩ := hk.look hlead hs hne hc hst
      rw [List.filter_cons_of_pos (by simp [hs.1]), resolveNames, if_neg hne] at hrun
      dsimp only [bind, StateT.bind] at hrun
      rw [hlook, NodeTree.sight, hp] at hrun
      dsimp only at hrun
      rw [htext c p hp, if_neg Bool.false_ne_true] at hrun
      change n ≤ linkLimit at hn
      rcases Nat.lt_or_eq_of_le hn with hn | rfl
      · have hleft : linkLimit - n = linkLimit - (n + 1) + 1 := by omega
        rw [hleft] at hrun
        refine Or.inl ⟨hn, if p.isAbsolute then [] else names, st', hst', ?_, ?_⟩
        · split
          · exact .root
          · exact hlead
        · rw [List.filter_append, ← Path.steps_eq]
          exact hrun
      · rw [Nat.sub_self] at hrun
        exact Or.inr ⟨Nat.lt_succ_self _, by rw [← hrun]; rfl⟩
  · refine Or.inr ⟨?_, hrun⟩
    cases hstep with
    | stay => exact hn
    | up => exact hn
    | into => exact hn
    | follow => exact Nat.lt_succ_of_lt hn

theorem keepsUp_walks {w : Walker ν} (hk : k.ShowsTree holds root t)
    (htext : ∀ c p, t.target c = some p → p.isNamespaceText = false) (hst : holds st)
    (hwalk : t.Walks path w) :
    KeepsUp k holds root path t
      (resolveNames (fun names => k.look (root.below names)) path linkLimit [] path.steps st)
      w := by
  induction hwalk with
  | refl => exact Or.inl ⟨Nat.zero_le _, [], st, hst, .root, by rw [Path.steps_eq]; rfl⟩
  | tail _ hstep ih => exact keepsUp_step hk htext hstep ih

/-! ## The law -/

/-- Wherever the walk along a path comes to its end, at a node and over no more links than may be
followed, the resolution of the path comes to names that lead there without any link. And wherever
the walk has to follow a link too many, the resolution ends in an error. -/
theorem a_resolution_leads_where_the_walk_does (k : Kernel σ φ) (holds : σ → Prop)
    (root path : Path) (t : NodeTree ν) (st : σ) (w : Walker ν) (hk : k.ShowsTree holds root t)
    (htext : ∀ c p, t.target c = some p → p.isNamespaceText = false) (hst : holds st)
    (hwalk : t.Walks path w) :
    (w.pending = [] → w.followed ≤ linkLimit →
      ∃ names, ((k.resolveIn root path).run st).1 = .ok (root.below names) ∧
        t.Leads names w.node) ∧
    (linkLimit < w.followed →
      ((k.resolveIn root path).run st).1 = .error (.file (.tooManyLinks path))) := by
  have hkeeps := keepsUp_walks hk htext hst hwalk
  refine ⟨fun hend hfollowed => ?_, fun hfollowed => ?_⟩
  · obtain ⟨_, names, st', _, hlead, hrun⟩ :=
      hkeeps.resolve_right fun h => Nat.not_lt_of_le hfollowed h.1
    rw [hend] at hrun
    refine ⟨names, ?_, hlead⟩
    change Ends (k.resolveIn root path) st fun outcome _ => outcome = _
    rw [ends_resolveIn, ends_file, ← hrun]
    unfold resolveNames
    rfl
  · have hrun := (hkeeps.resolve_left fun h => Nat.not_lt_of_le h.1 hfollowed).2
    change Ends (k.resolveIn root path) st fun outcome _ => outcome = _
    rw [ends_resolveIn, ends_file, hrun]
    rfl

/-- A directory with links to a file in another, one of them past the root, and two links that lead
to each other. -/
def FileTree.linked : FileTree :=
  let name := Host.name
  .directory [
    (name "a", .directory [(name "there", .link "../b"), (name "out", .link "/../../b/./file")]),
    (name "b", .directory [(name "file", .plain [])]),
    (name "to", .link "fro"),
    (name "fro", .link "to")]

theorem FileTree.fits_linked : linked.Fits := fits_of_places (by decide)

/-- The walk over the link past the root. -/
theorem walks_out :
    FileTree.linked.nodes.Walks "/a/out" ⟨[Host.name "b", Host.name "file"], [], 1⟩ := by
  refine .tail (.tail (.tail (.tail (.tail (.tail (.tail (.tail (.single (.stay rfl))
    (.into (s := Host.name "a") ?_ ?_ rfl rfl)) (.follow (p := "/../../b/./file") ?_ ?_ rfl rfl))
    (.stay rfl)) .up) .up) (.into (s := Host.name "b") ?_ ?_ rfl rfl)) (.stay rfl))
    (.into (s := Host.name "file") ?_ ?_ rfl rfl)
  all_goals decide

/-- The walk that goes round and round. -/
theorem walks_round (n : Nat) :
    FileTree.linked.nodes.Walks "/to" ⟨[], [Host.name "to"], 2 * n⟩ := by
  induction n with
  | zero => exact .single (.stay rfl)
  | succ n ih =>
    refine (ih.tail (.follow (p := "fro") ?_ ?_ rfl rfl)).tail (.follow (p := "to") ?_ ?_ rfl rfl)
    all_goals decide

/-- A link past the root leads to a file, and the links to each other lead nowhere. -/
theorem links_lead_there_or_nowhere :
    ((Host.lone.kernel.resolveIn "" "/a/out").run { files := FileTree.linked }).1 =
        .ok (Path.empty.below [Host.name "b", Host.name "file"]) ∧
      ((Host.lone.kernel.resolveIn "" "/to").run { files := FileTree.linked }).1 =
        .error (.file (.tooManyLinks "/to")) := by
  have hshows := Host.lone.showsTree FileTree.fits_linked
  have htext : ∀ c p, FileTree.linked.nodes.target c = some p → p.isNamespaceText = false :=
    FileTree.text_of_places (by decide +kernel)
  obtain ⟨hends, _⟩ := a_resolution_leads_where_the_walk_does Host.lone.kernel _ "" "/a/out" _
    { files := FileTree.linked } _ hshows htext rfl walks_out
  obtain ⟨_, hround⟩ := a_resolution_leads_where_the_walk_does Host.lone.kernel _ "" "/to" _
    { files := FileTree.linked } _ hshows htext rfl (walks_round 21)
  obtain ⟨names, hrun, hlead⟩ := hends rfl (by decide)
  obtain ⟨hnames, _⟩ := FileTree.leads_nodes hlead
  cases hnames
  exact ⟨hrun, hround (by decide)⟩

end NamespaceAtlas
