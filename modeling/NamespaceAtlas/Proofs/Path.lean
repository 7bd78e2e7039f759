-- The parts of a path that is made of segments of another. What is left after
-- some parts of an absolute path has the parts that come after them.
import NamespaceAtlas.Path
import NamespaceAtlas.Proofs.Text.Pieces
import Mathlib.Data.List.DropRight

namespace NamespaceAtlas

namespace Path

/-! ## Segments -/

theorem slash_notMem_of_mem_segments {p : Path} {s : Name} (h : s ∈ p.segments) : slash ∉ s := by
  intro hmem
  have hmark := not_mark_of_mem_pieces h slash hmem
  simp at hmark

/-- The segments of a path that is made of names are these names. -/
theorem segments_ofNames {l : List Name} (hne : l ≠ []) (h : ∀ s ∈ l, slash ∉ s) :
    (ofNames l).segments = l := pieces_joined hne h

theorem segments_slash (b c : Bytes) :
    (Path.mk (b ++ slash :: c)).segments = (Path.mk b).segments ++ (Path.mk c).segments :=
  pieces_append_mark (by simp) b c

/-! ## Void segments -/

variable {l : List Name} {s : Name}

theorem part?_of_isVoid (h : isVoid s = true) : part? s = none := Option.isNone_iff_eq_none.1 h

theorem filterMap_dropParts (n : Nat) (l : List Name) :
    (dropParts n l).filterMap part? = (l.filterMap part?).drop n := by
  induction n, l using dropParts.induct with
  | case1 l => rw [dropParts, List.drop_zero]
  | case2 n => rfl
  | case3 n s rest hvoid ih =>
    unfold dropParts
    rw [if_pos hvoid, ih, List.filterMap_cons_none (part?_of_isVoid hvoid)]
  | case4 n s rest hvoid ih =>
    unfold dropParts
    obtain ⟨part, hpart⟩ : ∃ part, part? s = some part := by
      apply Option.ne_none_iff_exists'.1
      intro hnone
      exact hvoid (Option.isNone_iff_eq_none.2 hnone)
    rw [if_neg hvoid, ih, List.filterMap_cons_some hpart, List.drop_succ_cons]

theorem filterMap_dropWhile_isVoid (l : List Name) :
    (l.dropWhile isVoid).filterMap part? = l.filterMap part? := by
  induction l with
  | nil => rfl
  | cons s rest ih =>
    rw [List.dropWhile_cons]
    split
    · rename_i hvoid
      rw [ih, List.filterMap_cons_none (part?_of_isVoid hvoid)]
    · rfl

theorem filterMap_trimVoid (l : List Name) :
    (trimVoid l).filterMap part? = l.filterMap part? := by
  unfold trimVoid
  rw [List.filterMap_reverse, filterMap_dropWhile_isVoid, List.filterMap_reverse,
    List.reverse_reverse, filterMap_dropWhile_isVoid]

theorem mem_of_mem_dropParts {n : Nat} (h : s ∈ dropParts n l) : s ∈ l := by
  induction n, l using dropParts.induct with
  | case1 l =>
    rw [dropParts] at h
    exact h
  | case2 n => cases h
  | case3 n s' rest hvoid ih =>
    unfold dropParts at h
    rw [if_pos hvoid] at h
    exact List.mem_cons_of_mem s' (ih h)
  | case4 n s' rest hvoid ih =>
    unfold dropParts at h
    rw [if_neg hvoid] at h
    exact List.mem_cons_of_mem s' (ih h)

theorem trimVoid_prefix_dropWhile (l : List Name) : trimVoid l <+: l.dropWhile isVoid :=
  List.rdropWhile_prefix isVoid (l.dropWhile isVoid)

theorem mem_of_mem_trimVoid (h : s ∈ trimVoid l) : s ∈ l :=
  (List.dropWhile_suffix isVoid).subset ((trimVoid_prefix_dropWhile l).subset h)

/-- What is trimmed does not begin with a void segment. -/
theorem not_isVoid_of_trimVoid {rest : List Name} (h : trimVoid l = s :: rest) :
    isVoid s = false := by
  obtain ⟨tail, htail⟩ := trimVoid_prefix_dropWhile l
  rw [h, List.cons_append] at htail
  have hhead := List.head?_dropWhile_not isVoid l
  rw [← htail] at hhead
  exact hhead

/-! ## Parts -/

/-- A path that opens with a name proper is relative. -/
theorem isAbsolute_ofNames {rest : List Name} (hs : isVoid s = false) (h : slash ∉ s) :
    (ofNames (s :: rest)).isAbsolute = false := by
  cases s with
  | nil => cases hs
  | cons b more =>
    have hb : b ≠ slash := fun heq => h (heq ▸ List.mem_cons_self)
    cases rest with
    | nil => simpa [isAbsolute, ofNames, joined] using hb
    | cons _ _ => simpa [isAbsolute, ofNames, joined] using hb

/-- It has the parts of its names. -/
theorem parts_ofNames {rest : List Name} (hs : isVoid s = false)
    (h : ∀ n ∈ s :: rest, slash ∉ n) :
    (ofNames (s :: rest)).parts = (s :: rest).filterMap part? := by
  have hsegments := segments_ofNames (List.cons_ne_nil s rest) h
  have hhere : s ≠ hereName := by
    rintro rfl
    cases hs
  unfold parts
  rw [hsegments, isAbsolute_ofNames hs (h s List.mem_cons_self)]
  simp [hhere]

/-- What is left of an absolute path after `n` parts past the root. -/
theorem parts_afterParts {p : Path} (hp : p.isAbsolute = true) (n : Nat) :
    (p.afterParts n).parts = p.parts.drop (n + 1) := by
  have hparts : p.parts = .root :: p.segments.filterMap part? := by
    unfold parts
    rw [hp]
    rfl
  have hnames : (trimVoid (dropParts n p.segments)).filterMap part? =
      (p.segments.filterMap part?).drop n := by
    rw [filterMap_trimVoid, filterMap_dropParts]
  rw [hparts, List.drop_succ_cons, ← hnames]
  unfold afterParts
  cases htrim : trimVoid (dropParts n p.segments) with
  | nil => rfl
  | cons s rest =>
    apply parts_ofNames (not_isVoid_of_trimVoid htrim)
    intro name hname
    rw [← htrim] at hname
    exact slash_notMem_of_mem_segments (mem_of_mem_dropParts (mem_of_mem_trimVoid hname))

theorem isAbsolute_of_parts {p : Path} {rest : List Part} (h : p.parts = .root :: rest) :
    p.isAbsolute = true := by
  cases habs : p.isAbsolute with
  | true => rfl
  | false =>
    have hmem : Part.root ∈ p.parts := h ▸ List.mem_cons_self
    have hnot : ∀ s : Name, part? s ≠ some .root := by
      intro s
      unfold part?
      split
      · simp
      · split <;> simp
    unfold parts at hmem
    rw [habs] at hmem
    simp only [Bool.false_eq_true, if_false, List.mem_append, List.mem_filterMap] at hmem
    rcases hmem with hmem | ⟨s, _, hs⟩
    · split at hmem <;> simp at hmem
    · exact absurd hs (hnot s)

/-! ## Steps -/

/-- A name that is a step of a path: one directory entry, or `..`. -/
def IsStep (s : Name) : Prop := isVoid s = false ∧ slash ∉ s

instance : DecidablePred IsStep := fun s => inferInstanceAs (Decidable (_ ∧ slash ∉ s))

/-- The part that a step is. -/
def partOf (s : Name) : Part := if s = parentName then .parent else .name s

theorem part?_eq_partOf (h : isVoid s = false) : part? s = some (partOf s) := by
  unfold isVoid at h
  unfold part? partOf at *
  split at h
  · cases h
  · rename_i hproper
    rw [if_neg hproper]
    split
    · rfl
    · rfl

theorem filterMap_part? (l : List Name) :
    l.filterMap part? = (l.filter (!isVoid ·)).map partOf := by
  induction l with
  | nil => rfl
  | cons s rest ih =>
    cases hs : isVoid s with
    | true =>
      rw [List.filterMap_cons_none (part?_of_isVoid hs), List.filter_cons_of_neg (by simp [hs]), ih]
    | false =>
      rw [List.filterMap_cons_some (part?_eq_partOf hs), List.filter_cons_of_pos (by simp [hs]),
        List.map_cons, ih]

theorem filter_isStep (h : ∀ s ∈ l, IsStep s) : l.filter (!isVoid ·) = l := by
  rw [List.filter_eq_self]
  intro s hs
  simp [(h s hs).1]

theorem filterMap_partOf {name? : Part → Option Name} (hparent : name? .parent = some parentName)
    (hname : ∀ n, name? (.name n) = some n) (l : List Name) :
    (l.map partOf).filterMap name? = l := by
  induction l with
  | nil => rfl
  | cons s rest ih =>
    have hs : name? (partOf s) = some s := by
      unfold partOf
      split
      · rename_i hup
        rw [hup, hparent]
      · exact hname s
    rw [List.map_cons, List.filterMap_cons_some hs, ih]

/-- The steps of a path are its segments without the void ones. -/
theorem steps_eq (p : Path) : p.steps = p.segments.filter (!isVoid ·) := by
  unfold steps parts
  rw [List.filterMap_append, filterMap_part?, filterMap_partOf rfl fun _ => rfl]
  split
  · rfl
  · split
    · rfl
    · rfl

theorem isStep_of_mem_steps {p : Path} (h : s ∈ p.steps) : IsStep s := by
  rw [steps_eq, List.mem_filter] at h
  exact ⟨by simpa using h.2, slash_notMem_of_mem_segments h.1⟩

/-! ## Joining -/

theorem parts_slash (b c : Bytes) : (Path.mk (b ++ slash :: c)).parts =
    (Path.mk (b ++ [slash])).parts ++ (Path.mk c).segments.filterMap part? := by
  have habsolute : (Path.mk (b ++ slash :: c)).isAbsolute =
      (Path.mk (b ++ [slash])).isAbsolute := by
    unfold isAbsolute
    cases b with
    | nil => rfl
    | cons _ _ => rfl
  have hhead : ∀ l, ((Path.mk b).segments ++ l).head? = (Path.mk b).segments.head? :=
    fun l => List.head?_append_of_ne_nil _ (pieces_ne_nil _ _)
  have hnone : (Path.mk []).segments.filterMap part? = [] := rfl
  unfold parts
  rw [habsolute, segments_slash, segments_slash, hhead, hhead, List.filterMap_append,
    List.filterMap_append, hnone, List.append_nil, List.append_assoc]

/-- A slash at the end adds no part. -/
theorem parts_append_slash {b : Bytes} (hb : b ≠ []) :
    (Path.mk (b ++ [slash])).parts = (Path.mk b).parts := by
  have habsolute : (Path.mk (b ++ [slash])).isAbsolute = (Path.mk b).isAbsolute := by
    unfold isAbsolute
    rw [List.head?_append_of_ne_nil _ hb]
  have hhead : ∀ l, ((Path.mk b).segments ++ l).head? = (Path.mk b).segments.head? :=
    fun l => List.head?_append_of_ne_nil _ (pieces_ne_nil _ _)
  have hnone : (Path.mk []).segments.filterMap part? = [] := rfl
  unfold parts
  rw [habsolute, segments_slash, hhead, List.filterMap_append, hnone, List.append_nil]

/-- A relative path adds its parts to those of the path that it is joined to. -/
theorem parts_join {p q : Path} (hp : p.bytes ≠ []) (hq : q.isAbsolute = false) :
    (p.join q).parts = p.parts ++ q.segments.filterMap part? := by
  unfold join
  rw [if_neg (by simp [hq])]
  cases hlast : p.bytes.getLast? with
  | none => exact absurd (List.getLast?_eq_none_iff.1 hlast) hp
  | some b =>
    dsimp only
    split
    · rename_i hb
      subst hb
      obtain ⟨front, hfront⟩ := List.getLast?_eq_some_iff.1 hlast
      have hp' : p = ⟨front ++ [slash]⟩ := congrArg Path.mk hfront
      rw [hp', ← parts_slash, List.append_assoc]
      rfl
    · rw [parts_slash, parts_append_slash hp]

/-! ## Mount namespaces of processes -/

/-- A path `/proc/<pid>/ns/mnt` or `/proc/self/ns/mnt`, in any spelling with these parts. -/
def IsMountOfProcess (p : Path) : Prop :=
  ∃ who, p.parts = [.root, .name (Bytes.ofText "proc"), .name who, .name (Bytes.ofText "ns"),
      .name (Bytes.ofText "mnt")] ∧
    (who = Bytes.ofText "self" ∨
      ∃ digits pid, Bytes.text? who = some digits ∧ Pid.read digits.toList = .ok pid)

/-- What is read off a path that names a process. -/
theorem of_process?_eq_some {p rest : Path} {who : Who} (h : p.process? = some (who, rest)) :
    ∃ name more, p.parts = .root :: .name (Bytes.ofText "proc") :: .name name :: more ∧
      rest.parts = more ∧
      (name = Bytes.ofText "self" ∨
        ∃ digits pid, Bytes.text? name = some digits ∧ Pid.read digits.toList = .ok pid) := by
  unfold process? at h
  split at h
  · rename_i dir name more hparts
    split at h
    · rename_i hdir
      subst hdir
      have hrest : (p.afterParts 2).parts = more := by
        rw [parts_afterParts (isAbsolute_of_parts hparts), hparts]
        rfl
      refine ⟨name, more, hparts, ?_⟩
      split at h
      · rename_i hself
        cases h
        exact ⟨hrest, Or.inl hself⟩
      · obtain ⟨digits, hdigits, h⟩ := Option.bind_eq_some_iff.1 h
        obtain ⟨pid, hpid, h⟩ := Option.bind_eq_some_iff.1 h
        cases h
        refine ⟨hrest, Or.inr ⟨digits, pid, hdigits, ?_⟩⟩
        cases hread : Pid.read digits.toList with
        | error why =>
          rw [hread] at hpid
          cases hpid
        | ok found =>
          rw [hread] at hpid
          exact congrArg Except.ok (Option.some.inj hpid)
    · cases h
  · cases h

theorem process?_of_parts {p : Path} {name : Name} {more : List Part}
    (h : p.parts = .root :: .name (Bytes.ofText "proc") :: .name name :: more)
    (hname : name = Bytes.ofText "self" ∨
        ∃ digits pid, Bytes.text? name = some digits ∧ Pid.read digits.toList = .ok pid) :
    ∃ who, p.process? = some (who, p.afterParts 2) ∧ (p.afterParts 2).parts = more := by
  have hrest : (p.afterParts 2).parts = more := by
    rw [parts_afterParts (isAbsolute_of_parts h), h]
    rfl
  unfold process?
  rw [h]
  dsimp only
  rw [if_pos rfl]
  split
  · exact ⟨.caller, rfl, hrest⟩
  · rename_i hself
    obtain ⟨digits, pid, hdigits, hpid⟩ := hname.resolve_left hself
    rw [hdigits]
    refine ⟨.process pid, ?_, hrest⟩
    simp [hpid, Except.toOption]

end Path

end NamespaceAtlas
