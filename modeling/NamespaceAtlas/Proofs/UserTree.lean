-- The printed trees of user namespaces. A walk down through children keeps no
-- account of where it has been. That it ends, and comes to every namespace once,
-- is due to the graph: it is a forest.
import NamespaceAtlas.Report
import NamespaceAtlas.Proofs.Graph.Forest
import NamespaceAtlas.Proofs.KernelText

namespace NamespaceAtlas

/-! ## The walk -/

/-- A walk down from namespaces at one depth comes to these, each at its depth: to a namespace, then
to all below it, then to the next. Nothing bounds the walk. -/
inductive Graph.Descent (g : Graph) (s : Species) :
    Nat → List Identity → List (Nat × Namespace) → Prop
  | done {depth : Nat} : Descent g s depth [] []
  | unknown {depth : Nat} {id : Identity} {rest : List Identity} {after : List (Nat × Namespace)} :
      g.get? s id = none → Descent g s depth rest after → Descent g s depth (id :: rest) after
  | known {depth : Nat} {id : Identity} {n : Namespace} {rest : List Identity}
      {below after : List (Nat × Namespace)} :
      g.get? s id = some n → Descent g s (depth + 1) n.children below →
      Descent g s depth rest after → Descent g s depth (id :: rest) ((depth, n) :: below ++ after)

open NamespaceAtlas.Graph (Descent)

namespace Graph.Descent

variable {g : Graph} {s : Species} {depth : Nat} {id : Identity} {ids : List Identity}
  {l m : List (Nat × Namespace)}

theorem cons (hid : Descent g s depth [id] l) (hrest : Descent g s depth ids m) :
    Descent g s depth (id :: ids) (l ++ m) := by
  cases hid with
  | unknown hnone hdone =>
    cases hdone
    exact .unknown hnone hrest
  | known hn hbelow hdone =>
    cases hdone
    rw [List.append_nil]
    exact .known hn hbelow hrest

/-- Walks from one namespace after the other, each printed in some way. -/
theorem exists_of_each {print : Nat × Namespace → String} {f : Identity → List String}
    (h : ∀ id ∈ ids, ∃ l, Descent g s depth [id] l ∧ f id = l.map print) :
    ∃ l, Descent g s depth ids l ∧ ids.flatMap f = l.map print := by
  induction ids with
  | nil => exact ⟨[], .done, rfl⟩
  | cons id rest ih =>
    obtain ⟨l, hl, hprint⟩ := h id List.mem_cons_self
    obtain ⟨m, hm, hrest⟩ := ih fun id hid => h id (List.mem_cons_of_mem _ hid)
    refine ⟨l ++ m, hl.cons hm, ?_⟩
    rw [List.flatMap_cons, List.map_append, hprint, hrest]

/-- The walk keeps to the order in which it is given namespaces. -/
theorem sublist (h : Descent g s depth ids l) :
    (ids.filterMap (g.get? s)).Sublist (l.map (·.2)) := by
  induction h with
  | done => simp
  | unknown hnone _ ih => simpa [List.filterMap_cons, hnone] using ih
  | known hn _ _ _ ih =>
    simp only [List.filterMap_cons, hn, List.cons_append, List.map_cons, List.map_append]
    exact (ih.trans (List.sublist_append_right _ _)).cons_cons _

end Graph.Descent

/-! ## In a forest -/

namespace Forest

variable {g : Graph} {s : Species} {depth : Nat} {id child : Identity} {ids : List Identity}
  {l : List (Nat × Namespace)} {n : Namespace}

/-- Above a child stand its parent and what stands above that. -/
theorem ancestors_of_parent? (h : Forest g) (hp : g.parent? s child = some id) :
    g.ancestors s child = id :: g.ancestors s id :=
  (h.way_ancestors s child).unique (.step hp (h.way_ancestors s id))

theorem ancestors_of_mem_children (h : Forest g) (hn : g.get? s id = some n)
    (hc : child ∈ n.children) : g.ancestors s child = id :: g.ancestors s id := by
  rw [← Graph.children_of_get? hn, ← h.linked] at hc
  exact h.ancestors_of_parent? hc

/-- A namespace is at or below another if it is that one, or at or below a child of it. -/
theorem mem_cons_ancestors_iff (h : Forest g) (hn : g.get? s id = some n) {x : Identity} :
    id ∈ x :: g.ancestors s x ↔ id = x ∨ ∃ child ∈ n.children, child ∈ x :: g.ancestors s x := by
  rw [(h.way_ancestors s x).mem_iff_up, ← Graph.children_of_get? hn]
  simp only [h.linked]
  exact or_congr_right (exists_congr fun c => and_comm)

/-- No child of a namespace is the namespace or stands above it. -/
theorem child_not_above (h : Forest g) (hn : g.get? s id = some n) (hc : child ∈ n.children) :
    child ∉ id :: g.ancestors s id := by
  rw [← Graph.children_of_get? hn, ← h.linked] at hc
  intro hmem
  rcases List.mem_cons.1 hmem with rfl | hmem
  · exact h.acyclic s child (Above.single hc)
  · exact h.acyclic s id (((h.way_ancestors s id).mem_iff.1 hmem).tail hc)

/-- Of namespaces equally deep only one is at or above another. -/
theorem eq_of_depth (h : Forest g) {x i j : Identity} (hi : i ∈ x :: g.ancestors s x)
    (hj : j ∈ x :: g.ancestors s x)
    (hdepth : (g.ancestors s i).length = (g.ancestors s j).length) : i = j :=
  (h.way_ancestors s x).eq_of_length hi hj (h.way_ancestors s i) (h.way_ancestors s j) hdepth

/-- Every namespace is met as deep as its ancestors are many. -/
theorem depth_of_descent (h : Forest g) (hl : Descent g s depth ids l)
    (hids : ∀ id ∈ ids, (g.ancestors s id).length = depth) :
    ∀ x ∈ l, x.1 = (g.ancestors s x.2.id).length := by
  induction hl with
  | done => simp
  | unknown _ _ ih => exact ih fun id hid => hids id (List.mem_cons_of_mem _ hid)
  | @known depth id n rest below after hn _ _ ihbelow ihafter =>
    have hdepth := hids id List.mem_cons_self
    intro x hx
    rw [List.cons_append, List.mem_cons, List.mem_append] at hx
    rcases hx with rfl | hx | hx
    · rw [(h.filed s id n hn).1, hdepth]
    · refine ihbelow (fun c hc => ?_) x hx
      rw [h.ancestors_of_mem_children hn hc, List.length_cons, hdepth]
    · exact ihafter (fun id hid => hids id (List.mem_cons_of_mem _ hid)) x hx

/-- What is met is at or below a namespace of the start, and all that is there is met. -/
theorem mem_descent_iff (h : Forest g) (hl : Descent g s depth ids l) :
    n ∈ l.map (·.2) ↔
      g.get? s n.id = some n ∧ ∃ id ∈ ids, id ∈ n.id :: g.ancestors s n.id := by
  induction hl with
  | done => simp
  | @unknown depth id rest after hnone _ ih =>
    -- At or below a namespace that is not known there is nothing.
    have hnot : g.get? s n.id = some n → id ∉ n.id :: g.ancestors s n.id := by
      intro hn hid
      have hunknown : ¬ g.contains s id = true := by simp [Graph.contains_iff, hnone]
      rcases List.mem_cons.1 hid with rfl | hid
      · exact hunknown (Graph.contains_iff.2 ⟨n, hn⟩)
      · exact hunknown ((h.way_ancestors s n.id).forall_mem (h.parentsKnown s) id hid)
    rw [ih, List.exists_mem_cons_iff]
    exact and_congr_right fun hn => (or_iff_right (hnot hn)).symm
  | @known depth id m rest below after hm _ _ ihbelow ihafter =>
    have hid : id = n.id ∧ g.get? s n.id = some n ↔ n = m := by
      constructor
      · rintro ⟨rfl, hn⟩
        exact Option.some.inj (hn.symm.trans hm)
      · rintro rfl
        have hid := (h.filed s id n hm).1
        exact ⟨hid.symm, hid.symm ▸ hm⟩
    rw [List.cons_append, List.map_cons, List.map_append, List.mem_cons, List.mem_append, ihbelow,
      ihafter, List.exists_mem_cons_iff, h.mem_cons_ancestors_iff hm, ← hid,
      and_comm (a := id = n.id), ← and_or_left, ← and_or_left, or_assoc]

/-- Nothing is met twice, if the walk starts at different namespaces that are equally deep. -/
theorem nodup_descent (h : Forest g) (hl : Descent g s depth ids l) (hnodup : ids.Nodup)
    (hids : ∀ id ∈ ids, (g.ancestors s id).length = depth) : (l.map (·.2.id)).Nodup := by
  induction hl with
  | done => simp
  | unknown _ _ ih =>
    exact ih (List.nodup_cons.1 hnodup).2 fun id hid => hids id (List.mem_cons_of_mem _ hid)
  | @known depth id n rest below after hn hbelow hafter ihbelow ihafter =>
    obtain ⟨hfirst, hrest⟩ := List.nodup_cons.1 hnodup
    have hid : n.id = id := (h.filed s id n hn).1
    have hchildren : n.children.Nodup := by
      rw [← Graph.children_of_get? hn]
      exact h.children_nodup s id
    have hdeeper : ∀ c ∈ n.children, (g.ancestors s c).length = depth + 1 := by
      intro c hc
      rw [h.ancestors_of_mem_children hn hc, List.length_cons, hids id List.mem_cons_self]
    have hunder : ∀ x ∈ below, ∃ c ∈ n.children, c ∈ x.2.id :: g.ancestors s x.2.id :=
      fun x hx => ((h.mem_descent_iff hbelow).1 (List.mem_map_of_mem hx)).2
    have hafter : ∀ x ∈ after, id ∉ x.2.id :: g.ancestors s x.2.id := by
      intro x hx hmem
      obtain ⟨j, hj, hxj⟩ := ((h.mem_descent_iff hafter).1 (List.mem_map_of_mem hx)).2
      have hdepth : (g.ancestors s id).length = (g.ancestors s j).length := by
        rw [hids id List.mem_cons_self, hids j (List.mem_cons_of_mem _ hj)]
      exact hfirst (h.eq_of_depth hmem hxj hdepth ▸ hj)
    rw [List.cons_append, List.map_cons, List.map_append, List.nodup_cons, List.nodup_append]
    refine ⟨?_, ihbelow hchildren hdeeper,
      ihafter hrest fun id hid => hids id (List.mem_cons_of_mem _ hid), ?_⟩
    · rw [List.mem_append, List.mem_map, List.mem_map, hid]
      rintro (⟨x, hx, hsame⟩ | ⟨x, hx, hsame⟩)
      · obtain ⟨c, hc, hmem⟩ := hunder x hx
        rw [hsame] at hmem
        exact h.child_not_above hn hc hmem
      · exact hafter x hx (by simp [hsame])
    · intro i hi j hj hij
      obtain ⟨x, hx, rfl⟩ := List.mem_map.1 hi
      obtain ⟨y, hy, rfl⟩ := List.mem_map.1 hj
      refine hafter y hy ?_
      rw [← hij]
      exact (h.mem_cons_ancestors_iff hn).2 (Or.inr (hunder x hx))

/-- What the walk does not start at comes after its parent. -/
theorem parent_before (h : Forest g) (hl : Descent g s depth ids l) :
    ∀ n ∈ l.map (·.2), n.id ∈ ids ∨
      ∃ m, n.parent? = some m.id ∧ [m, n].Sublist (l.map (·.2)) := by
  induction hl with
  | done => simp
  | unknown _ _ ih =>
    intro n hn
    exact (ih n hn).imp_left (List.mem_cons_of_mem _)
  | @known depth id m rest below after hm hbelow _ ihbelow ihafter =>
    have hid : m.id = id := (h.filed s id m hm).1
    intro n hn
    rw [List.cons_append, List.map_cons, List.map_append] at hn ⊢
    rcases List.mem_cons.1 hn with rfl | hn
    · exact Or.inl (hid ▸ List.mem_cons_self)
    rcases List.mem_append.1 hn with hn | hn
    · refine Or.inr ?_
      rcases ihbelow n hn with hchild | ⟨p, hp, hsub⟩
      · rw [← Graph.children_of_get? hm, ← h.linked] at hchild
        have hknown := ((h.mem_descent_iff hbelow).1 hn).1
        refine ⟨m, ?_, ?_⟩
        · rw [hid, ← Graph.parent?_of_get? hknown, hchild]
        · exact (List.singleton_sublist.2 (List.mem_append_left _ hn)).cons_cons m
      · exact ⟨p, hp, (hsub.trans (List.sublist_append_left _ _)).cons m⟩
    · rcases ihafter n hn with hin | ⟨p, hp, hsub⟩
      · exact Or.inl (List.mem_cons_of_mem _ hin)
      · exact Or.inr ⟨p, hp, (hsub.trans (List.sublist_append_right _ _)).cons m⟩

/-! ## From the roots -/

theorem mem_roots_iff (h : Forest g) (hs : s.hasParents = true) :
    n ∈ g.roots s ↔ g.get? s n.id = some n ∧ n.parent? = none := by
  unfold Graph.roots
  rw [if_pos hs, List.mem_filter, Registry.mem_values_iff, Option.isNone_iff_eq_none]
  refine and_congr_left fun _ => ⟨?_, fun hn => ⟨n.id, hn⟩⟩
  rintro ⟨id, hn⟩
  rw [(h.filed s id n hn).1]
  exact hn

/-- The roots come by ascending identities. -/
theorem ascending_roots (h : Forest g) (hs : s.hasParents = true) :
    (g.roots s).Pairwise fun m n => Ranked.Before m.id n.id := by
  unfold Graph.roots
  rw [if_pos hs]
  refine List.Pairwise.filter _ (List.pairwise_map.2 ?_)
  refine (g.ofSpecies s).ascending.imp_of_mem fun {a b} ha hb hbefore => ?_
  have ha := (h.filed s a.1 a.2 (Registry.mem_entries_iff.1 ha)).1
  have hb := (h.filed s b.1 b.2 (Registry.mem_entries_iff.1 hb)).1
  rwa [ha, hb]

theorem filterMap_roots (h : Forest g) (hs : s.hasParents = true) :
    ((g.roots s).map (·.id)).filterMap (g.get? s) = g.roots s := by
  rw [List.filterMap_map]
  refine Eq.trans (List.filterMap_congr fun n hn => ?_) (List.filterMap_some)
  exact ((h.mem_roots_iff hs).1 hn).1

theorem nodup_roots (h : Forest g) (hs : s.hasParents = true) :
    ((g.roots s).map (·.id)).Nodup := by
  refine List.pairwise_map.2 ((h.ascending_roots hs).imp fun hbefore heq => ?_)
  rw [heq] at hbefore
  exact lt_irrefl _ hbefore

theorem length_ancestors_root (h : Forest g) (hs : s.hasParents = true)
    (hid : id ∈ (g.roots s).map (·.id)) : (g.ancestors s id).length = 0 := by
  obtain ⟨n, hn, rfl⟩ := List.mem_map.1 hid
  obtain ⟨hknown, hroot⟩ := (h.mem_roots_iff hs).1 hn
  have hnone : g.parent? s n.id = none := by rw [Graph.parent?_of_get? hknown, hroot]
  rw [(h.way_ancestors s n.id).unique (.top hnone), List.length_nil]

/-- A walk down from all roots comes to every namespace. -/
theorem mem_descent_roots_iff (h : Forest g) (hs : s.hasParents = true)
    (hl : Descent g s 0 ((g.roots s).map (·.id)) l) :
    n ∈ l.map (·.2) ↔ g.get? s n.id = some n := by
  rw [h.mem_descent_iff hl, and_iff_left_iff_imp]
  intro hn
  obtain ⟨root, hroot, hlast⟩ := h.last_mem_roots hs (Graph.contains_iff.2 ⟨n, hn⟩)
  exact ⟨root.id, List.mem_map_of_mem hroot, hlast ▸ List.getLast_mem _⟩

theorem get?_eq_some_iff_descent (h : Forest g) (hs : s.hasParents = true)
    (hl : Descent g s 0 ((g.roots s).map (·.id)) l) :
    g.get? s id = some n ↔ n ∈ l.map (·.2) ∧ n.id = id := by
  rw [h.mem_descent_roots_iff hs hl]
  constructor
  · intro hn
    have hid := (h.filed s id n hn).1
    exact ⟨hid ▸ hn, hid⟩
  · rintro ⟨hn, rfl⟩
    exact hn

theorem map_descent_roots (h : Forest g) (hs : s.hasParents = true)
    (hl : Descent g s 0 ((g.roots s).map (·.id)) l) :
    (l.map (·.2)).map (fun n => ((g.ancestors s n.id).length, n)) = l := by
  have hdepth := h.depth_of_descent hl fun id hid => h.length_ancestors_root hs hid
  rw [List.map_map]
  refine (List.map_congr_left fun x hx => ?_).trans (List.map_id l)
  exact Prod.ext (hdepth x hx).symm rfl

theorem nodup_descent_roots (h : Forest g) (hs : s.hasParents = true)
    (hl : Descent g s 0 ((g.roots s).map (·.id)) l) : ((l.map (·.2)).map (·.id)).Nodup := by
  rw [List.map_map]
  exact h.nodup_descent hl (h.nodup_roots hs) fun id hid => h.length_ancestors_root hs hid

theorem parent_before_roots (h : Forest g) (hs : s.hasParents = true)
    (hl : Descent g s 0 ((g.roots s).map (·.id)) l) (hn : n ∈ l.map (·.2))
    (hp : n.parent? = some id) : ∃ m, m.id = id ∧ [m, n].Sublist (l.map (·.2)) := by
  rcases h.parent_before hl n hn with hroot | ⟨m, hm, hsub⟩
  · obtain ⟨root, hroot, hid⟩ := List.mem_map.1 hroot
    obtain ⟨hknown, hnone⟩ := (h.mem_roots_iff hs).1 hroot
    rw [hid, (h.mem_descent_roots_iff hs hl).1 hn] at hknown
    cases hknown
    rw [hnone] at hp
    cases hp
  · rw [hp] at hm
    exact ⟨m, (Option.some.inj hm).symm, hsub⟩

/-- The roots are met in their order, and nothing else that is met is one. -/
theorem filter_descent_roots (h : Forest g) (hs : s.hasParents = true)
    (hl : Descent g s 0 ((g.roots s).map (·.id)) l) :
    (l.map (·.2)).filter (·.parent?.isNone) = g.roots s := by
  have hroots : (g.roots s).filter (·.parent?.isNone) = g.roots s := by
    refine List.filter_eq_self.2 fun n hn => ?_
    simp [((h.mem_roots_iff hs).1 hn).2]
  have hsub : (g.roots s).Sublist ((l.map (·.2)).filter (·.parent?.isNone)) := by
    have := hl.sublist.filter (·.parent?.isNone)
    rwa [h.filterMap_roots hs, hroots] at this
  have hnodup : (l.map (·.2)).Nodup := (h.nodup_descent_roots hs hl).of_map (·.id)
  have hsubset : (l.map (·.2)).filter (·.parent?.isNone) ⊆ g.roots s := by
    intro n hn
    obtain ⟨hn, hnone⟩ := List.mem_filter.1 hn
    exact (h.mem_roots_iff hs).2
      ⟨(h.mem_descent_roots_iff hs hl).1 hn, Option.isNone_iff_eq_none.1 hnone⟩
  exact (hsub.eq_of_length_le ((hnodup.filter _).length_le_of_subset hsubset)).symm

end Forest

/-! ## The printed tree -/

/-- The tree that is printed from a namespace is all of a walk down from it, if as many levels are
allowed as there are namespaces that are no ancestors of it. -/
theorem Report.exists_descent (v : Survey) (names : UserNames) (h : Forest v.graph) (levels : Nat) :
    ∀ depth id, (v.graph.contains .user id = true →
      (v.graph.ofSpecies .user).size ≤ (v.graph.ancestors .user id).length + levels) →
    ∃ l, Descent v.graph .user depth [id] l ∧
      userTree v names levels depth id = l.map fun x => userLine v names x.1 x.2 := by
  induction levels with
  | zero =>
    intro depth id hlevels
    -- A known namespace has fewer ancestors than there are namespaces.
    have hunknown : v.graph.get? .user id = none := by
      refine Option.eq_none_iff_forall_ne_some.2 fun n hn => ?_
      have hknown := Graph.contains_iff.2 ⟨n, hn⟩
      have hlt := (h.parentsKnown .user).length_way_lt hknown (h.way_ancestors .user id)
      have := hlevels hknown
      omega
    exact ⟨[], .unknown hunknown .done, rfl⟩
  | succ levels ih =>
    intro depth id hlevels
    unfold userTree
    cases hn : v.graph.get? .user id with
    | none => exact ⟨[], .unknown hn .done, rfl⟩
    | some n =>
      have hroom := hlevels (Graph.contains_iff.2 ⟨n, hn⟩)
      have hchildren : ∀ c ∈ n.children, ∃ l, Descent v.graph .user (depth + 1) [c] l ∧
          userTree v names levels (depth + 1) c = l.map fun x => userLine v names x.1 x.2 := by
        intro c hc
        refine ih (depth + 1) c fun _ => ?_
        rw [h.ancestors_of_mem_children hn hc, List.length_cons]
        omega
      obtain ⟨below, hbelow, hprint⟩ := Descent.exists_of_each hchildren
      refine ⟨(depth, n) :: below, ?_, ?_⟩
      · simpa using Descent.known hn hbelow .done
      · rw [List.map_cons, ← hprint]

namespace Report

/-- What a line of a tree tells by its blanks and its first word: the depth at which it stands, and the
inode of a user namespace. -/
def place? (line : String) : Option (Nat × UInt64) :=
  let blanks := line.toList.takeWhile (· == ' ')
  let word := (line.toList.dropWhile (· == ' ')).takeWhile (· != ' ')
  match Species.parseText? (String.ofList word) with
  | some (.user, inode) => some (blanks.length / 2, inode)
  | _ => none

/-- A line begins with blanks for its depth, and then comes the text for its namespace. -/
theorem userLine_eq (v : Survey) (names : UserNames) (depth : Nat) (n : Namespace) :
    ∃ rest, userLine v names depth n =
      indent depth ++ Species.user.text n.id.inode ++ " owner " ++ rest := by
  unfold userLine
  dsimp only
  rw [String.append_assoc, String.append_assoc]
  exact ⟨_, rfl⟩

/-- The text for a namespace is one word. -/
theorem toList_text_user (inode : UInt64) :
    ∃ more : List Char, (Species.user.text inode).toList = 'u' :: more ∧ ' ' ∉ more := by
  refine ⟨"ser:[".toList ++ (Decimal.digits inode.toNat ++ [']']), ?_, fun hblank => ?_⟩
  · simp [Species.text, Species.name, Decimal.text]
  have hdigit : ∀ d < 10, Decimal.digitChar d ≠ ' ' := by decide
  rcases List.mem_append.1 hblank with hname | hblank
  · exact absurd hname (by decide)
  rcases List.mem_append.1 hblank with hnumber | hclosing
  · obtain ⟨d, hd, heq⟩ := Decimal.digits_of_mem hnumber
    exact hdigit d hd heq.symm
  · exact absurd hclosing (by decide)

/-- Depth and namespace are read off a line. -/
theorem place?_userLine (v : Survey) (names : UserNames) (depth : Nat) (n : Namespace) :
    place? (userLine v names depth n) = some (depth, n.id.inode) := by
  obtain ⟨rest, hline⟩ := userLine_eq v names depth n
  obtain ⟨more, htext, hmore⟩ := toList_text_user n.id.inode
  have hchars : (userLine v names depth n).toList = List.replicate (2 * depth) ' ' ++
      ('u' :: (more ++ ' ' :: ("owner ".toList ++ rest.toList))) := by
    rw [hline]
    simp [indent, repeated, htext]
  have hblanks : ∀ c ∈ List.replicate (2 * depth) ' ', (c == ' ') = true := by
    simp
  have hword : ('u' :: (more ++ ' ' :: ("owner ".toList ++ rest.toList))).takeWhile (· != ' ') =
      'u' :: more := by
    rw [List.takeWhile_cons_of_pos (by decide),
      List.takeWhile_append_of_pos fun c hc => bne_iff_ne.2 (ne_of_mem_of_not_mem hc hmore),
      List.takeWhile_cons_of_neg (by decide), List.append_nil]
  have hread : Species.parseText? (String.ofList ('u' :: more)) = some (.user, n.id.inode) := by
    rw [← htext, String.ofList_toList]
    exact Species.parseText?_eq_some_iff.2 (Species.spells_text .user n.id.inode)
  unfold place?
  dsimp only
  rw [hchars, List.takeWhile_append_of_pos hblanks, List.dropWhile_append_of_pos hblanks,
    List.takeWhile_cons_of_neg (by decide), List.dropWhile_cons_of_neg (by decide), hword, hread]
  simp

end Report

/-- Whatever changes made the graph: the walk down from all roots, which nothing bounds, ends, and
what is printed is a line for every namespace it comes to. It comes to each user namespace once and
to nothing else, as deep as its ancestors are many, and after its parent. The roots come by
ascending identities. A line is indented by the depth, and begins with the text for its namespace;
both are read off it. -/
theorem the_user_trees_show_every_namespace_once (found : Survey) (names : UserNames)
    (changes : List Change) :
    let v : Survey := { found with graph := .after changes }
    let roots := v.graph.roots .user
    let depth (n : Namespace) : Nat := (v.graph.ancestors .user n.id).length
    ∃ order : List Namespace,
      Descent v.graph .user 0 (roots.map (·.id)) (order.map fun n => (depth n, n)) ∧
      roots.flatMap (fun root => Report.userTreeOf v names 0 root.id) =
        order.map (fun n => Report.userLine v names (depth n) n) ∧
      (∀ n ∈ order, (∃ rest, Report.userLine v names (depth n) n =
          Report.indent (depth n) ++ Species.user.text n.id.inode ++ " owner " ++ rest) ∧
        Report.place? (Report.userLine v names (depth n) n) = some (depth n, n.id.inode)) ∧
      (order.map (·.id)).Nodup ∧
      (∀ id n, v.graph.get? .user id = some n ↔ n ∈ order ∧ n.id = id) ∧
      (∀ n ∈ order, ∀ p, n.parent? = some p → ∃ m, m.id = p ∧ [m, n].Sublist order) ∧
      order.filter (·.parent?.isNone) = roots ∧
      roots.Pairwise fun m n => Ranked.Before m.id n.id := by
  intro v roots depth
  have h : Forest v.graph := Forest.after changes
  have hwalk : ∀ id ∈ roots.map (·.id), ∃ l, Descent v.graph .user 0 [id] l ∧
      Report.userTreeOf v names 0 id = l.map fun x => Report.userLine v names x.1 x.2 :=
    fun id _ => Report.exists_descent v names h _ 0 id fun _ => Nat.le_add_left _ _
  obtain ⟨l, hl, hprint⟩ := Descent.exists_of_each hwalk
  have hplaced := h.map_descent_roots rfl hl
  refine ⟨l.map (·.2), hplaced.symm ▸ hl, ?_,
    fun n _ => ⟨Report.userLine_eq v names _ n, Report.place?_userLine v names _ n⟩,
    h.nodup_descent_roots rfl hl,
    fun id n => h.get?_eq_some_iff_descent rfl hl,
    fun n hn p hp => h.parent_before_roots rfl hl hn hp, h.filter_descent_roots rfl hl,
    h.ascending_roots rfl⟩
  calc roots.flatMap (fun root => Report.userTreeOf v names 0 root.id)
    _ = l.map (fun x => Report.userLine v names x.1 x.2) := by
      rw [← hprint, List.flatMap_map]
    _ = ((l.map (·.2)).map fun n => (depth n, n)).map
        (fun x => Report.userLine v names x.1 x.2) := by rw [hplaced]
    _ = (l.map (·.2)).map (fun n => Report.userLine v names (depth n) n) := by
      rw [List.map_map]
      rfl

end NamespaceAtlas
