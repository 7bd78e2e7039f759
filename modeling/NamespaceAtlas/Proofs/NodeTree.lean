-- Trees of files. A tree is seen below a root by a kernel that answers for its
-- paths, and a host shows its own files like that.
import NamespaceAtlas.Host.Answers
import NamespaceAtlas.Proofs.Kept
import NamespaceAtlas.Proofs.Path

namespace NamespaceAtlas

open NamespaceAtlas.Path (parentName isVoid IsStep)

variable {σ φ ν : Type}

/-- The files below a root, as nodes. Every node but the root is an entry of its parent. -/
structure NodeTree (ν : Type) where
  root : ν
  /-- The entry of a directory under a name. -/
  entry : ν → Name → Option ν
  parent : ν → ν
  /-- Where a node leads that is a symbolic link. -/
  target : ν → Option Path
  parent_root : parent root = root
  parent_entry : ∀ d name c, entry d name = some c → parent c = d

namespace NodeTree

variable (t : NodeTree ν)

/-- These names lead from the root to a node, entry by entry, and none of the nodes on the way is a
link. -/
inductive Leads : List Name → ν → Prop
  | root : Leads [] t.root
  | entry {d c : ν} {names : List Name} {name : Name} : Leads names d → IsStep name →
      name ≠ parentName → t.entry d name = some c → t.target c = none → Leads (names ++ [name]) c

/-- What there is to see at a node. -/
def sight (c : ν) : Sight :=
  match t.target c with
  | none => .plain
  | some p => .link p

end NodeTree

/-- Wherever `holds`, the kernel shows a tree of files below a root. It need answer for such paths
only as lead there without a link. -/
structure Kernel.ShowsTree (k : Kernel σ φ) (holds : σ → Prop) (root : Path) (t : NodeTree ν) :
    Prop where
  isLink : ∀ names name d c, t.Leads names d → IsStep name → name ≠ parentName →
    t.entry d name = some c → ∀ st, holds st →
      (k.isLink (root.below (names ++ [name])) st).1 = .ok (t.target c).isSome
  linkTarget : ∀ names name d c p, t.Leads names d → IsStep name → name ≠ parentName →
    t.entry d name = some c → t.target c = some p → ∀ st, holds st →
      (k.linkTarget (root.below (names ++ [name])) st).1 = .ok p
  keeps_isLink : ∀ p, Keeps holds (k.isLink p)
  keeps_linkTarget : ∀ p, Keeps holds (k.linkTarget p)

variable {k : Kernel σ φ} {holds : σ → Prop} {root : Path} {t : NodeTree ν} {d c : ν}
  {names : List Name} {name : Name} {st : σ}

/-! ## Names and nodes -/

/-- The names without the last lead to the parent. -/
theorem NodeTree.Leads.parent (h : t.Leads names d) : t.Leads names.dropLast (t.parent d) := by
  cases h with
  | root =>
    rw [t.parent_root]
    exact .root
  | entry hdir _ _ hentry _ =>
    rw [List.dropLast_concat, t.parent_entry _ _ _ hentry]
    exact hdir

/-- What the kernel lets see of an entry. -/
theorem Kernel.ShowsTree.look (hk : k.ShowsTree holds root t) (hd : t.Leads names d)
    (hname : IsStep name) (hne : name ≠ parentName) (hc : t.entry d name = some c)
    (hst : holds st) :
    ∃ st', holds st' ∧ k.look (root.below (names ++ [name])) st = (.ok (t.sight c), st') := by
  have hlink := hk.isLink names name d c hd hname hne hc st hst
  have hst' := hk.keeps_isLink (root.below (names ++ [name])) st hst
  unfold Kernel.look NodeTree.sight
  dsimp only [bind, StateT.bind]
  revert hlink hst'
  rcases k.isLink (root.below (names ++ [name])) st with ⟨_, st'⟩
  rintro rfl hst'
  cases hp : t.target c with
  | none => exact ⟨st', hst', rfl⟩
  | some p =>
    have htarget := hk.linkTarget names name d c p hd hname hne hc hp st' hst'
    have hst'' := hk.keeps_linkTarget (root.below (names ++ [name])) st' hst'
    dsimp only [Option.isSome, StateT.bind]
    revert htarget hst''
    rcases k.linkTarget (root.below (names ++ [name])) st' with ⟨_, st''⟩
    rintro rfl hst''
    exact ⟨st'', hst'', rfl⟩

/-! ## The files of a host -/

namespace FileTree

variable {top : FileTree} {l m : List Name} {n : Name}

theorem at?_append (top : FileTree) (l m : List Name) :
    top.at? (l ++ m) = (top.at? l).bind (·.at? m) := by
  induction l generalizing top with
  | nil => rfl
  | cons name rest ih =>
    rw [List.cons_append, at?, at?]
    cases top.child? name with
    | none => rfl
    | some e => exact ih e

theorem at?_concat (top : FileTree) (l : List Name) (n : Name) :
    top.at? (l ++ [n]) = (top.at? l).bind (·.child? n) := by
  rw [at?_append]
  congr 1
  funext e
  rw [at?]
  cases e.child? n with
  | none => rfl
  | some e => rfl

/-- What has entries is a directory. -/
theorem isDirectory_of_at? (h : (top.at? (l ++ [n])).isSome) :
    ∃ entries, top.at? l = some (.directory entries) := by
  rw [at?_concat] at h
  cases hl : top.at? l with
  | none =>
    rw [hl] at h
    cases h
  | some e =>
    rw [hl] at h
    cases e with
    | directory entries => exact ⟨entries, rfl⟩
    | plain | link | space => cases h

/-- The nodes of a tree are its places. -/
def nodes (top : FileTree) : NodeTree (List Name) where
  root := []
  entry d name := if (top.at? (d ++ [name])).isSome then some (d ++ [name]) else none
  parent := List.dropLast
  target place :=
    match top.at? place with
    | some (.link target) => some target
    | _ => none
  parent_root := rfl
  parent_entry d name c h := by
    split at h
    · cases h
      exact List.dropLast_concat
    · cases h

theorem nodes_entry_eq_some {d c : List Name} (h : top.nodes.entry d n = some c) :
    c = d ++ [n] ∧ (top.at? c).isSome := by
  unfold nodes at h
  dsimp only at h
  split at h
  · cases h
    exact ⟨rfl, ‹_›⟩
  · cases h

/-- Names lead to the place that they are, and no link stands on the way. -/
theorem leads_nodes {d : List Name} (h : top.nodes.Leads l d) :
    d = l ∧ (∀ s ∈ l, IsStep s ∧ s ≠ parentName) ∧
      ∀ m, m <+: l → m ≠ [] → ∀ target, top.at? m ≠ some (.link target) := by
  induction h with
  | root => exact ⟨rfl, by simp, fun m hm hne => absurd (List.prefix_nil.1 hm) hne⟩
  | @entry d c names name _ hname hne hc hplain ih =>
    obtain ⟨rfl, hnames, hlinks⟩ := ih
    obtain ⟨rfl, _⟩ := nodes_entry_eq_some hc
    refine ⟨rfl, fun s hs => ?_, fun m hm hm' target hlink => ?_⟩
    · rcases List.mem_append.1 hs with hs | hs
      · exact hnames s hs
      · rw [List.mem_singleton.1 hs]
        exact ⟨hname, hne⟩
    · rcases List.prefix_concat_iff.1 hm with rfl | hm
      · unfold nodes at hplain
        dsimp only at hplain
        rw [hlink] at hplain
        cases hplain
      · exact hlinks m hm hm' target hlink

/-- A walk over names with no link before the last comes to the place that they are. -/
theorem walk_eq_ok (links : Nat) {done pending : List Name}
    (hat : (top.at? (done ++ pending)).isSome)
    (hnames : ∀ s ∈ pending, IsStep s ∧ s ≠ parentName ∧ s.length ≤ nameLimit)
    (hlinks : ∀ m, m <+: pending → m ≠ [] → m ≠ pending →
      ∀ target, top.at? (done ++ m) ≠ some (.link target)) :
    walk top false links done pending = .ok (done ++ pending) := by
  induction pending generalizing done with
  | nil =>
    unfold walk
    rw [List.append_nil]
  | cons name rest ih =>
    obtain ⟨hname, hne, hlength⟩ := hnames name List.mem_cons_self
    have hhere : name ≠ Path.hereName := by
      rintro rfl
      cases hname.1
    rw [List.append_cons] at hat ⊢
    have hentry : (top.at? (done ++ [name])).isSome := by
      rw [at?_append] at hat
      exact Option.isSome_of_isSome_bind hat
    obtain ⟨entries, hdir⟩ := isDirectory_of_at? hentry
    have hchild : (directory entries).child? name = top.at? (done ++ [name]) := by
      rw [at?_concat, hdir]
      rfl
    have hrest : walk top false links (done ++ [name]) rest = .ok (done ++ [name] ++ rest) := by
      refine ih hat (fun s hs => hnames s (List.mem_cons_of_mem name hs)) fun m hm hm' hm'' => ?_
      rw [List.append_assoc]
      exact hlinks (name :: m) (List.cons_prefix_cons.2 ⟨rfl, hm⟩) (List.cons_ne_nil _ _)
        (by simpa using hm'')
    unfold walk
    rw [hdir]
    dsimp only
    rw [if_neg hhere, if_neg hne, if_neg (Nat.not_lt_of_le hlength), hchild]
    obtain ⟨e, he⟩ := Option.isSome_iff_exists.1 hentry
    rw [he]
    cases e with
    | link target =>
      cases rest with
      | nil => rw [List.append_nil]; rfl
      | cons next more =>
        exact absurd he (hlinks [name] ⟨next :: more, rfl⟩ (List.cons_ne_nil _ _) (by simp) target)
    | directory | plain | space => exact hrest

/-- Names end in something else than a slash. -/
theorem getLast?_joined (hl : l ≠ []) (h : ∀ s ∈ l, IsStep s) :
    ∃ b, (joined [Path.slash] l).getLast? = some b ∧ b ≠ Path.slash := by
  induction l with
  | nil => exact absurd rfl hl
  | cons s rest ih =>
    cases rest with
    | nil =>
      obtain ⟨hvoid, hslash⟩ := h s List.mem_cons_self
      cases hlast : s.getLast? with
      | none =>
        rw [List.getLast?_eq_none_iff.1 hlast] at hvoid
        cases hvoid
      | some b => exact ⟨b, hlast, fun hb => hslash (hb ▸ List.mem_of_getLast? hlast)⟩
    | cons next more =>
      obtain ⟨b, hb, hne⟩ := ih (List.cons_ne_nil _ _) fun s' hs' =>
        h s' (List.mem_cons_of_mem s hs')
      refine ⟨b, ?_, hne⟩
      rw [joined, List.getLast?_append, hb, Option.some_or]
      exact List.cons_ne_nil next more

theorem bytes_below (hl : l ≠ []) (h : ∀ s ∈ l, IsStep s) :
    Path.empty.below l = ⟨[] ++ Path.slash :: joined [Path.slash] l⟩ := by
  obtain ⟨s, rest, rfl⟩ := List.exists_cons_of_ne_nil hl
  have hs := h s List.mem_cons_self
  change Path.root.join (Path.ofNames (s :: rest)) = _
  unfold Path.join
  rw [if_neg (by simp [Path.isAbsolute_ofNames hs.1 hs.2])]
  rfl

/-- The steps of a path of names from the top. -/
theorem steps_below (hl : l ≠ []) (h : ∀ s ∈ l, IsStep s) : steps (Path.empty.below l) = l := by
  obtain ⟨b, hlast, hb⟩ := getLast?_joined hl h
  have hsegments : (Path.mk (joined [Path.slash] l)).segments = l :=
    Path.segments_ofNames hl fun s hs => (h s hs).2
  have hproper : l.filter (!·.isEmpty) = l := by
    rw [List.filter_eq_self]
    intro s hs
    cases s with
    | nil => exact absurd (h [] hs).1 (by decide)
    | cons _ _ => rfl
  have hempty : (Path.mk []).segments = [[]] := rfl
  unfold steps
  rw [bytes_below hl h, Path.segments_slash, hsegments, hempty]
  dsimp only
  rw [List.nil_append, List.getLast?_cons, hlast]
  simp [hb, hproper]

/-- The file of a namespace. -/
def isSpace : FileTree → Bool
  | space _ => true
  | _ => false

/-- A tree whose files a host can look at, each by its path from the top. -/
structure Fits (top : FileTree) : Prop where
  names : ∀ l, (top.at? l).isSome → ∀ s ∈ l, s.length ≤ nameLimit
  paths : ∀ l, (top.at? l).isSome →
    0 ∉ (Path.empty.below l).bytes ∧ (Path.empty.below l).bytes.length < pathLimit
  spaces : ∀ l e, top.at? l = some e → e.isSpace = false

theorem mem_placesOf {entries : List (Name × FileTree)} {e : FileTree} {here : List Name}
    (he : (n, e) ∈ entries) (hl : l ∈ places (here ++ [n]) e) : l ∈ placesOf here entries := by
  induction entries with
  | nil => cases he
  | cons first rest ih =>
    rw [placesOf, List.mem_append]
    rcases List.mem_cons.1 he with rfl | he
    · exact Or.inl hl
    · exact Or.inr (ih he)

theorem mem_places (h : (top.at? l).isSome) (here : List Name) : here ++ l ∈ top.places here := by
  induction l generalizing top here with
  | nil =>
    rw [List.append_nil]
    cases top with
    | directory entries => exact List.mem_cons_self
    | plain | link | space => exact List.mem_singleton_self here
  | cons name rest ih =>
    cases top with
    | directory entries =>
      rw [at?, child?] at h
      cases hfind : entries.find? (·.1 == name) with
      | none =>
        rw [hfind] at h
        cases h
      | some entry =>
        rw [hfind] at h
        have hname : entry.1 = name := by simpa using List.find?_some hfind
        have hmem := ih h (here ++ [name])
        rw [List.append_assoc] at hmem
        rw [places]
        refine List.mem_cons_of_mem here (mem_placesOf ?_ hmem)
        rw [← hname]
        exact List.mem_of_find?_eq_some hfind
    | plain | link | space => cases h

/-- Whether a tree fits is seen at its places. -/
theorem fits_of_places (h : ∀ l ∈ top.places [], (∀ s ∈ l, s.length ≤ nameLimit) ∧
    0 ∉ (Path.empty.below l).bytes ∧ (Path.empty.below l).bytes.length < pathLimit ∧
      (top.at? l).all (!·.isSpace)) : top.Fits where
  names l hl := (h l (mem_places hl [])).1
  paths l hl := ⟨(h l (mem_places hl [])).2.1, (h l (mem_places hl [])).2.2.1⟩
  spaces l e he := by
    have hspaces := (h l (mem_places (by simp [he]) [])).2.2.2
    rw [he] at hspaces
    simpa using hspaces

/-- Whether a tree has links to namespaces is seen at its places. -/
theorem text_of_places
    (h : (top.places []).all (fun l => (top.nodes.target l).all (!·.isNamespaceText)) = true)
    (c : List Name) (p : Path) (hp : top.nodes.target c = some p) : p.isNamespaceText = false := by
  have hat : (top.at? c).isSome := by
    unfold nodes at hp
    dsimp only at hp
    cases hc : top.at? c with
    | none =>
      rw [hc] at hp
      cases hp
    | some e => rfl
  have htext := List.all_eq_true.1 h c (mem_places hat [])
  rw [hp] at htext
  simpa using htext

theorem look_below (hfits : top.Fits) {e : FileTree} (hat : top.at? l = some e) (hl : l ≠ [])
    (hnames : ∀ s ∈ l, IsStep s ∧ s ≠ parentName)
    (hlinks : ∀ m, m <+: l → m ≠ [] → m ≠ l → ∀ target, top.at? m ≠ some (.link target)) :
    top.look false (Path.empty.below l) = .ok (l, e) := by
  have hsome : (top.at? l).isSome := by simp [hat]
  obtain ⟨hnul, hshort⟩ := hfits.paths l hsome
  have hne : (Path.empty.below l).bytes ≠ [] := by
    rw [bytes_below hl fun s hs => (hnames s hs).1]
    exact List.cons_ne_nil _ _
  have hwalk : walk top false walkLimit [] l = .ok l :=
    walk_eq_ok walkLimit hsome
      (fun s hs => ⟨(hnames s hs).1, (hnames s hs).2, hfits.names l hsome s hs⟩) hlinks
  have hlocate : top.locate false (Path.empty.below l) = .ok l := by
    unfold locate
    rw [if_neg hnul, if_neg (by simpa using hne), if_neg (Nat.not_le_of_lt hshort),
      steps_below hl fun s hs => (hnames s hs).1, hwalk]
    rfl
  unfold look
  rw [hlocate]
  dsimp only [bind, Except.bind]
  rw [hat]
  rfl

end FileTree

/-- A host shows its files from the top. -/
theorem Host.showsTree (h : Host) {top : FileTree} (hfits : top.Fits) :
    h.kernel.ShowsTree (fun m => m.files = top) Path.empty top.nodes := by
  have hlook : ∀ names name d c, top.nodes.Leads names d → IsStep name → name ≠ parentName →
      top.nodes.entry d name = some c → ∃ e, top.at? c = some e ∧
        top.look false (Path.empty.below (names ++ [name])) = .ok (c, e) := by
    intro names name d c hlead hname hne hc
    obtain ⟨rfl, hnames, hlinks⟩ := FileTree.leads_nodes hlead
    obtain ⟨rfl, hat⟩ := FileTree.nodes_entry_eq_some hc
    obtain ⟨e, he⟩ := Option.isSome_iff_exists.1 hat
    refine ⟨e, he, FileTree.look_below hfits he (by simp) (fun s hs => ?_) fun m hm hm' hm'' => ?_⟩
    · rcases List.mem_append.1 hs with hs | hs
      · exact hnames s hs
      · rw [List.mem_singleton.1 hs]
        exact ⟨hname, hne⟩
    · exact hlinks m ((List.prefix_concat_iff.1 hm).resolve_left hm'') hm'
  constructor
  · rintro names name d c hlead hname hne hc m rfl
    obtain ⟨e, he, hsaw⟩ := hlook names name d c hlead hname hne hc
    change (m.files.look false _ |>.bind _) = _
    rw [hsaw]
    unfold FileTree.nodes
    dsimp only [Except.bind]
    rw [he]
    cases e with
    | space label => cases hfits.spaces c _ he
    | directory | plain | link => rfl
  · rintro names name d c p hlead hname hne hc hp m rfl
    obtain ⟨e, he, hsaw⟩ := hlook names name d c hlead hname hne hc
    change (m.files.look false _ |>.bind _) = _
    rw [hsaw]
    unfold FileTree.nodes at hp
    dsimp only at hp
    rw [he] at hp
    cases e with
    | link target =>
      cases hp
      rfl
    | directory | plain | space => cases hp
  · intro p m hm
    exact hm
  · intro p m hm
    exact hm

end NamespaceAtlas
