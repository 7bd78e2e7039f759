-- Mount tables read back. However the kernel spells a mount in a line, as long as
-- it escapes what would break the line, the mount is read from it; lines that
-- are none are passed over.
import NamespaceAtlas.MountTable
import NamespaceAtlas.Proofs.Number.Decimal
import NamespaceAtlas.Proofs.Text.Pieces
import NamespaceAtlas.Proofs.Text.Utf8

namespace NamespaceAtlas.Mount

/-- Whether a field can stand in a line: it has no blank and no line end. -/
def IsWord (field : Bytes) : Prop := 0x20 ∉ field ∧ 0x0A ∉ field

instance (field : Bytes) : Decidable (IsWord field) := inferInstanceAs (Decidable (_ ∧ _))

/-! ## Escapes -/

/-- The escape of a byte: a backslash and three octal digits. -/
def escape (b : UInt8) : Bytes := [0x5C, 0x30 + b / 64, 0x30 + b / 8 % 8, 0x30 + b % 8]

/-- A field spells bytes if each stands for itself or is escaped. Blanks, line ends and
backslashes are escaped always. -/
inductive Spelled : Bytes → Bytes → Prop
  | nil : Spelled [] []
  | plain {b : UInt8} {bytes field : Bytes} (hb : b ≠ 0x20 ∧ b ≠ 0x0A ∧ b ≠ 0x5C)
    (h : Spelled bytes field) : Spelled (b :: bytes) (b :: field)
  | escaped (b : UInt8) {bytes field : Bytes} (h : Spelled bytes field) :
    Spelled (b :: bytes) (escape b ++ field)

/-- What holds of the 256 bytes holds of each. -/
theorem forall_byte {P : UInt8 → Prop} (h : ∀ n < 256, P (UInt8.ofNat n)) (b : UInt8) : P b := by
  have hb := h b.toNat b.toNat_lt
  rwa [UInt8.ofNat_toNat] at hb

theorem escaped?_escape :
    ∀ b, escaped? (0x30 + b / 64) (0x30 + b / 8 % 8) (0x30 + b % 8) = some b := by
  apply forall_byte
  decide +kernel

theorem isWord_escape : ∀ b, IsWord (escape b) := by
  apply forall_byte
  decide +kernel

/-- The spelling with no more escapes than there must be. -/
def spell (bytes : Bytes) : Bytes :=
  bytes.flatMap fun b => if b ≠ 0x20 ∧ b ≠ 0x0A ∧ b ≠ 0x5C then [b] else escape b

theorem spelled_spell (bytes : Bytes) : Spelled bytes (spell bytes) := by
  induction bytes with
  | nil => exact .nil
  | cons b rest ih =>
    unfold spell
    rw [List.flatMap_cons]
    split
    · exact .plain ‹_› ih
    · exact .escaped b ih

namespace Spelled

variable {bytes field : Bytes}

/-- The escapes are undone once: a byte that comes out of one is not looked at again. -/
theorem unescape_eq (h : Spelled bytes field) : unescape field = bytes := by
  induction h with
  | nil => rfl
  | @plain b bytes field hb h ih =>
    rw [unescape, ih]
    rintro _ _ _ _ rfl
    exact absurd rfl hb.2.2
  | @escaped b bytes field h ih =>
    change unescape (0x5C :: _ :: _ :: _ :: field) = _
    rw [unescape, escaped?_escape, ih]

theorem isWord (h : Spelled bytes field) : IsWord field := by
  induction h with
  | nil => exact ⟨List.not_mem_nil, List.not_mem_nil⟩
  | @plain b bytes field hb h ih =>
    exact ⟨List.not_mem_cons_of_ne_of_not_mem hb.1.symm ih.1,
      List.not_mem_cons_of_ne_of_not_mem hb.2.1.symm ih.2⟩
  | @escaped b bytes field h ih =>
    obtain ⟨hblank, hend⟩ := isWord_escape b
    exact ⟨List.not_mem_append hblank ih.1, List.not_mem_append hend ih.2⟩

end Spelled

/-! ## Lines -/

/-- A number in a field. -/
def numeral (n : UInt32) : Bytes := Bytes.ofText (Decimal.text n.toNat)

variable (m : Mount)

/-- The fields of a mount before the separator, with spellings of its root and its point. -/
def fieldsBefore (root point : Bytes) : List Bytes :=
  numeral m.id :: numeral m.parentId :: (numeral m.major ++ 0x3A :: numeral m.minor) ::
    root :: point :: Bytes.ofText m.options :: m.tags.map Bytes.ofText

/-- The fields of a mount after the separator, with a spelling of its source. -/
def fieldsAfter (source : Bytes) : List Bytes :=
  [Bytes.ofText m.fsType, source, Bytes.ofText m.superOptions]

/-- A line that the kernel may write for a mount. Some fields have no escapes, so there must be
no blanks and no line ends in them; and no field may be taken for the separator. -/
inductive Written : Bytes → Prop
  | mk {root point source : Bytes} (hroot : Spelled (Bytes.ofText m.root) root)
    (hpoint : Spelled m.point.bytes point) (hsource : Spelled (Bytes.ofText m.source) source)
    (hwords : ∀ word ∈ m.options :: m.fsType :: m.superOptions :: m.tags,
      ' ' ∉ word.toList ∧ '\n' ∉ word.toList)
    (hdash : separator ∉ root :: point :: Bytes.ofText m.options :: m.tags.map Bytes.ofText) :
    Written (joined [0x20] (m.fieldsBefore root point ++ separator :: m.fieldsAfter source))

/-- The line for a mount with no more escapes than there must be. -/
def line : Bytes :=
  joined [0x20] (m.fieldsBefore (spell (Bytes.ofText m.root)) (spell m.point.bytes) ++
    separator :: m.fieldsAfter (spell (Bytes.ofText m.source)))

variable {m}

theorem number_numeral (n : UInt32) : number (numeral n) = .ok n := by
  unfold number numeral
  rw [Bytes.text?_ofText, Option.bind_some, Decimal.readUInt32_text]
  rfl

/-- A numeral has nothing but digits. -/
theorem not_mem_numeral {b : UInt8} (hb : b.toNat < 128)
    (hdigit : ∀ d < 10, Char.ofNat b.toNat ≠ Decimal.digitChar d) (n : UInt32) :
    b ∉ numeral n := by
  intro h
  have hc := Bytes.mem_of_mem_ofText hb h
  unfold Decimal.text at hc
  rw [String.toList_ofList] at hc
  obtain ⟨d, hd, heq⟩ := Decimal.digits_of_mem hc
  exact hdigit d hd heq

/-- The fields are those of the mount. -/
theorem ofFields_eq {root point source : Bytes} (hroot : Spelled (Bytes.ofText m.root) root)
    (hpoint : Spelled m.point.bytes point) (hsource : Spelled (Bytes.ofText m.source) source) :
    ofFields (m.fieldsBefore root point) (m.fieldsAfter source) = .ok m := by
  have hdevice : cutAt (· == 0x3A) (numeral m.major ++ 0x3A :: numeral m.minor) =
      some (numeral m.major, numeral m.minor) := by
    refine cutAt_append _ (fun b hb => ?_) rfl
    have hcolon : 0x3A ∉ numeral m.major := not_mem_numeral (by decide) (by decide) _
    exact beq_eq_false_iff_ne.2 fun heq => hcolon (heq ▸ hb)
  have htags : (m.tags.map Bytes.ofText).map Bytes.lossy = m.tags := by
    rw [List.map_map]
    exact List.map_id'' Bytes.lossy_ofText m.tags
  unfold fieldsBefore fieldsAfter ofFields
  simp only [hdevice, number_numeral, hroot.unescape_eq, hpoint.unescape_eq, hsource.unescape_eq,
    Bytes.lossy_ofText, htags]
  rfl

theorem isWord_numeral (n : UInt32) : IsWord (numeral n) :=
  ⟨not_mem_numeral (by decide) (by decide) n, not_mem_numeral (by decide) (by decide) n⟩

theorem isWord_ofText {word : String} (h : ' ' ∉ word.toList ∧ '\n' ∉ word.toList) :
    IsWord (Bytes.ofText word) :=
  ⟨fun hin => h.1 (Bytes.mem_of_mem_ofText (by decide) hin),
    fun hin => h.2 (Bytes.mem_of_mem_ofText (by decide) hin)⟩

namespace Written

variable {line : Bytes}

/-- A line of a mount falls into its fields, and is no more than one line. -/
theorem exists_fields (h : m.Written line) : ∃ root point source,
    Spelled (Bytes.ofText m.root) root ∧ Spelled m.point.bytes point ∧
      Spelled (Bytes.ofText m.source) source ∧
      line = joined [0x20] (m.fieldsBefore root point ++ separator :: m.fieldsAfter source) ∧
      (∀ field ∈ m.fieldsBefore root point ++ separator :: m.fieldsAfter source, IsWord field) ∧
      separator ∉ m.fieldsBefore root point := by
  obtain ⟨hroot, hpoint, hsource, hwords, hdash⟩ := h
  refine ⟨_, _, _, hroot, hpoint, hsource, rfl, ?_, ?_⟩
  · have hmajor := isWord_numeral m.major
    have hminor := isWord_numeral m.minor
    have hdevice : IsWord (numeral m.major ++ 0x3A :: numeral m.minor) :=
      ⟨List.not_mem_append hmajor.1 (List.not_mem_cons_of_ne_of_not_mem (by decide) hminor.1),
        List.not_mem_append hmajor.2 (List.not_mem_cons_of_ne_of_not_mem (by decide) hminor.2)⟩
    simp only [List.forall_mem_cons] at hwords
    obtain ⟨hoptions, hfsType, hsuper, htags⟩ := hwords
    have htags : ∀ field ∈ m.tags.map Bytes.ofText, IsWord field :=
      List.forall_mem_map.2 fun tag htag => isWord_ofText (htags tag htag)
    simp only [fieldsBefore, fieldsAfter, List.forall_mem_append, List.forall_mem_cons]
    exact ⟨⟨isWord_numeral _, isWord_numeral _, hdevice, hroot.isWord, hpoint.isWord,
      isWord_ofText hoptions, htags⟩, by decide, isWord_ofText hfsType, hsource.isWord,
      isWord_ofText hsuper, nofun⟩
  · have hnumeral : ∀ n, separator ≠ numeral n := by
      intro n heq
      have hdash : 0x2D ∉ numeral n := not_mem_numeral (by decide) (by decide) n
      exact hdash (heq ▸ List.mem_cons_self)
    have hdevice : separator ≠ numeral m.major ++ 0x3A :: numeral m.minor := by
      intro heq
      have hcolon : 0x3A ∈ separator := heq ▸ List.mem_append_right _ List.mem_cons_self
      revert hcolon
      decide
    unfold fieldsBefore
    simp only [List.mem_cons, not_or] at hdash ⊢
    exact ⟨hnumeral _, hnumeral _, hdevice, hdash⟩

theorem ofFieldsOf_eq (h : m.Written line) : ofFieldsOf line = .ok m := by
  obtain ⟨root, point, source, hroot, hpoint, hsource, rfl, hwords, hdash⟩ := h.exists_fields
  have hpieces := pieces_joined (by simp) fun field hfield => (hwords field hfield).1
  unfold ofFieldsOf aroundSeparator
  rw [hpieces, cutAt_append]
  · exact ofFields_eq hroot hpoint hsource
  · exact fun field hfield => beq_eq_false_iff_ne.2 fun heq => hdash (heq ▸ hfield)
  · rfl

theorem lineEnd_not_mem (h : m.Written line) : 0x0A ∉ line := by
  obtain ⟨root, point, source, _, _, _, rfl, hwords, _⟩ := h.exists_fields
  intro hin
  rcases mem_of_mem_joined hin with hin | ⟨field, hfield, hin⟩
  · revert hin
    decide
  · exact (hwords field hfield).2 hin

end Written

/-! ## Tables -/

/-- The mount of a line of a table, if there is one. -/
def mount? (line : Bytes) : Option Mount :=
  if line.isEmpty then none else (ofFieldsOf line).toOption

theorem Written.mount?_eq {line : Bytes} (h : m.Written line) : mount? line = some m := by
  have hok := h.ofFieldsOf_eq
  have hne : line ≠ [] := by
    rintro rfl
    cases hok
  unfold mount?
  rw [if_neg fun hempty => hne (List.isEmpty_iff.1 hempty), hok]
  rfl

theorem mount?_eq_none {line : Bytes} (h : line = [] ∨ ∃ why, ofLine line = .error why) :
    mount? line = none := by
  rcases h with rfl | ⟨why, herror⟩
  · rfl
  · unfold ofLine at herror
    unfold mount?
    cases hline : ofFieldsOf line with
    | ok m =>
      rw [hline] at herror
      cases herror
    | error fault =>
      split
      · rfl
      · rfl

/-- The lines of a table that the kernel may write for some mounts. There may be any other lines
between them that are empty or give no mount. -/
inductive Tabled : List Mount → List Bytes → Prop
  | nil : Tabled [] []
  | mount {m : Mount} {ms : List Mount} {line : Bytes} {lines : List Bytes} (hm : m.Written line)
    (h : Tabled ms lines) : Tabled (m :: ms) (line :: lines)
  | other {ms : List Mount} {line : Bytes} {lines : List Bytes} (hend : 0x0A ∉ line)
    (hline : line = [] ∨ ∃ why, ofLine line = .error why) (h : Tabled ms lines) :
    Tabled ms (line :: lines)

namespace Tabled

variable {ms : List Mount} {lines : List Bytes}

theorem lineEnd_not_mem (h : Tabled ms lines) : ∀ line ∈ lines, 0x0A ∉ line := by
  induction h with
  | nil => exact nofun
  | mount hm h ih => exact List.forall_mem_cons.2 ⟨hm.lineEnd_not_mem, ih⟩
  | other hend hline h ih => exact List.forall_mem_cons.2 ⟨hend, ih⟩

/-- The mounts of the lines. -/
theorem filterMap_mount? (h : Tabled ms lines) : lines.filterMap mount? = ms := by
  induction h with
  | nil => rfl
  | mount hm h ih => rw [List.filterMap_cons_some hm.mount?_eq, ih]
  | other hend hline h ih => rw [List.filterMap_cons_none (mount?_eq_none hline), ih]

end Tabled

/-- Whatever is escaped beyond what must be, and whatever lines stand between: from the table that
the kernel writes for some mounts, these mounts are read, in their order. -/
theorem a_mount_table_is_read_back {ms : List Mount} {lines : List Bytes} (h : Tabled ms lines) :
    ofTable (joined [0x0A] lines) = ms := by
  change (pieces (· == 0x0A) (joined [0x0A] lines)).filterMap mount? = ms
  cases lines with
  | nil => exact h.filterMap_mount?
  | cons line rest => rw [pieces_joined (List.cons_ne_nil _ _) h.lineEnd_not_mem, h.filterMap_mount?]

/-- The mount of a network namespace at a path with a blank. -/
def netMount : Mount where
  id := 612
  parentId := 29
  major := 0
  minor := 4
  root := "net:[4026532461]"
  point := "/run/my netns"
  options := "rw"
  tags := ["shared:5", "master:1"]
  fsType := "nsfs"
  source := "nsfs"
  superOptions := "rw"

example : netMount.line = Bytes.ofText
    "612 29 0:4 net:[4026532461] /run/my\\040netns rw shared:5 master:1 - nsfs nsfs rw" := by
  decide +kernel

/-- A mount from a share whose name has backslashes before digits, with no tags at all. -/
def shareMount : Mount where
  id := 613
  parentId := 29
  major := 0
  minor := 51
  root := "/"
  point := ⟨[0x2F, 0x5C, 0x30, 0x34, 0x30, 0xFE]⟩
  options := ""
  tags := []
  fsType := "-"
  source := "\\\\host\\040"
  superOptions := "rw"

/-- The two mounts are read from a table with an empty line and one that is no mount. -/
theorem two_mounts_are_read_back :
    ofTable (joined [0x0A] [netMount.line, [], Bytes.ofText "garbage", shareMount.line]) =
      [netMount, shareMount] := by
  have hnet : netMount.Written netMount.line := .mk (spelled_spell _) (spelled_spell _)
    (spelled_spell _) (by decide +kernel) (by decide +kernel)
  have hshare : shareMount.Written shareMount.line := .mk (spelled_spell _) (spelled_spell _)
    (spelled_spell _) (by decide +kernel) (by decide +kernel)
  have hgarbage : ∃ why, ofLine (Bytes.ofText "garbage") = .error why := ⟨_, rfl⟩
  have hshares : Tabled [shareMount] [Bytes.ofText "garbage", shareMount.line] :=
    .other (by decide +kernel) (.inr hgarbage) (.mount hshare .nil)
  exact a_mount_table_is_read_back (.mount hnet (.other List.not_mem_nil (.inl rfl) hshares))

end NamespaceAtlas.Mount
