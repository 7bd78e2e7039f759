-- The names in a user database. A line that gives no name is passed over, and of
-- the lines that name a user the first counts, but what comes after a line that
-- is no text is never seen.
import NamespaceAtlas.UserNames
import NamespaceAtlas.Registry.Lookup
import NamespaceAtlas.Proofs.Number.Decimal
import NamespaceAtlas.Proofs.Text.Pieces
import NamespaceAtlas.Proofs.Text.Utf8

namespace NamespaceAtlas.UserNames

variable {uid : UInt32} {name line : String} {cs : List Char} {rest : List Bytes}

/-! ## One line -/

/-- A line gives a user a name if, without the blanks at its ends, it begins with something but not
like a comment or a placeholder, and if of its fields between colons the first is the name and the
third stands for the number of the user. -/
structure Gives (line : String) (uid : UInt32) (name : String) : Prop where
  begins : ∃ c rest, trim line.toList = c :: rest ∧ c ≠ '#' ∧ c ≠ '+' ∧ c ≠ '-'
  fields : ∃ password number more,
    pieces (· == ':') (trim line.toList) = name.toList :: password :: number :: more ∧
      Decimal.Counts number uid.toNat

theorem isPassedOver_eq_false_iff :
    isPassedOver cs = false ↔ ∃ c rest, cs = c :: rest ∧ c ≠ '#' ∧ c ≠ '+' ∧ c ≠ '-' := by
  cases cs with
  | nil => simp [isPassedOver]
  | cons c rest => simp [isPassedOver, and_assoc]

/-- The first three of four fields are the first three of all. -/
theorem exists_piecesUpTo_iff {a b c : List Char} :
    (∃ more, piecesUpTo (· == ':') 4 cs = a :: b :: c :: more) ↔
      ∃ more, pieces (· == ':') cs = a :: b :: c :: more := by
  have htake (l : List (List Char)) : (∃ more, l = a :: b :: c :: more) ↔ l.take 3 = [a, b, c] := by
    constructor
    · rintro ⟨more, rfl⟩
      rfl
    · intro h
      exact ⟨l.drop 3, (List.take_append_drop 3 l).symm.trans (by rw [h]; rfl)⟩
  rw [htake, htake, take_piecesUpTo]

/-- A line is read as giving a name exactly if it does. -/
theorem userOf?_eq_some_iff : userOf? line.toList = some (uid, name) ↔ Gives line uid name := by
  unfold userOf?
  dsimp only
  constructor
  · intro h
    split at h
    · cases h
    · rename_i hbegins
      split at h
      · rename_i first password number more hpieces
        obtain ⟨n, hn, heq⟩ := Option.map_eq_some_iff.1 h
        cases heq
        rw [toOption_eq_some_iff, Decimal.readUInt32_eq_ok_iff] at hn
        obtain ⟨more, hfields⟩ := exists_piecesUpTo_iff.1 ⟨more, hpieces⟩
        have hname : first = (String.ofList first).toList := String.toList_ofList.symm
        exact ⟨isPassedOver_eq_false_iff.1 (by simpa using hbegins), password, number, more,
          hname ▸ hfields, hn⟩
      · cases h
  · rintro ⟨hbegins, password, number, more, hfields, hcounts⟩
    obtain ⟨more, hpieces⟩ := exists_piecesUpTo_iff.2 ⟨more, hfields⟩
    have hread := toOption_eq_some_iff.2 (Decimal.readUInt32_eq_ok_iff.2 hcounts)
    simp [isPassedOver_eq_false_iff.2 hbegins, hpieces, hread]

example : userOf? " alice:x:+1000:100:Alice:/home\r".toList = some (1000, "alice") := by decide

/-- The name that a line gives a user. -/
def nameIn? (uid : UInt32) (line : String) : Option String :=
  (userOf? line.toList).bind fun user => if user.1 = uid then some user.2 else none

theorem nameIn?_eq_some_iff : nameIn? uid line = some name ↔ Gives line uid name := by
  rw [← userOf?_eq_some_iff]
  unfold nameIn?
  cases userOf? line.toList with
  | none => simp
  | some user =>
    obtain ⟨u, n⟩ := user
    simp

theorem nameIn?_eq_none_iff : nameIn? uid line = none ↔ ∀ name, ¬ Gives line uid name := by
  simp only [Option.eq_none_iff_forall_ne_some, ne_eq, nameIn?_eq_some_iff]

/-- The name that a line gives a user, if it is a text. -/
def nameOf? (uid : UInt32) (line : Bytes) : Option String := (Bytes.text? line).bind (nameIn? uid)

theorem nameOf?_eq_some_iff {line : Bytes} : nameOf? uid line = some name ↔
    ∃ text, line = Bytes.ofText text ∧ Gives text uid name := by
  unfold nameOf?
  simp only [Option.bind_eq_some_iff, Bytes.text?_eq_some_iff, nameIn?_eq_some_iff]

/-! ## Lines that are texts -/

/-- Where reading stops: at the end, or before a line that is no text. -/
def Stops : List Bytes → Prop
  | [] => True
  | line :: _ => ∀ text, line ≠ Bytes.ofText text

theorem readableLines_of_stops (h : Stops rest) : readableLines rest = [] := by
  cases rest with
  | nil => rfl
  | cons line more =>
    have hnone : Bytes.text? line = none :=
      Option.eq_none_iff_forall_ne_some.2 fun text htext => h text (Bytes.text?_eq_some_iff.1 htext)
    rw [readableLines, hnone]

theorem readableLines_append_texts (texts : List String) (rest : List Bytes) :
    readableLines (texts.map Bytes.ofText ++ rest) = texts ++ readableLines rest := by
  induction texts with
  | nil => rfl
  | cons text more ih =>
    rw [List.map_cons, List.cons_append, readableLines, Bytes.text?_ofText]
    exact congrArg (text :: ·) ih

/-- The lines of a file are texts up to where reading stops. -/
theorem exists_stops (lines : List Bytes) :
    ∃ (texts : List String) (rest : List Bytes),
      lines = texts.map Bytes.ofText ++ rest ∧ Stops rest := by
  induction lines with
  | nil => exact ⟨[], [], rfl, trivial⟩
  | cons line more ih =>
    by_cases hline : ∃ text, line = Bytes.ofText text
    · obtain ⟨text, rfl⟩ := hline
      obtain ⟨texts, rest, rfl, hrest⟩ := ih
      exact ⟨text :: texts, rest, rfl, hrest⟩
    · exact ⟨[], line :: more, rfl, fun text htext => hline ⟨text, htext⟩⟩

theorem readableLines_cons_text (text : String) (rest : List Bytes) :
    readableLines (Bytes.ofText text :: rest) = text :: readableLines rest :=
  readableLines_append_texts [text] rest

/-- A line is read exactly if it is a text, and all lines before it are. -/
theorem exists_readableLines_iff {lines : List Bytes} {before : List String} :
    (∃ after, readableLines lines = before ++ line :: after) ↔
      ∃ after, lines = before.map Bytes.ofText ++ Bytes.ofText line :: after := by
  constructor
  · rintro ⟨after, hread⟩
    obtain ⟨texts, rest, rfl, hstops⟩ := exists_stops lines
    rw [readableLines_append_texts, readableLines_of_stops hstops, List.append_nil] at hread
    subst hread
    exact ⟨after.map Bytes.ofText ++ rest, by simp⟩
  · rintro ⟨after, rfl⟩
    exact ⟨readableLines after, by rw [readableLines_append_texts, readableLines_cons_text]⟩

/-- Behind some lines reading goes on, or it has stopped among them, whatever comes after. -/
theorem readableLines_append (before : List Bytes) :
    (∀ after, readableLines (before ++ after) = readableLines before ++ readableLines after) ∨
      ∀ after, readableLines (before ++ after) = readableLines before := by
  obtain ⟨texts, rest, rfl, hstops⟩ := exists_stops before
  have hread : readableLines (texts.map Bytes.ofText ++ rest) = texts := by
    rw [readableLines_append_texts, readableLines_of_stops hstops, List.append_nil]
  cases rest with
  | nil =>
    left
    intro after
    rw [hread, List.append_nil, readableLines_append_texts]
  | cons bad more =>
    right
    intro after
    have hstops' : Stops (bad :: more ++ after) := hstops
    rw [hread, List.append_assoc, readableLines_append_texts, readableLines_of_stops hstops',
      List.append_nil]

/-! ## The names -/

/-- The names with the one that a line gives. -/
def withLine (r : Registry UInt32 String) (line : String) : Registry UInt32 String :=
  match userOf? line.toList with
  | some (uid, name) => r.insertNew uid name
  | none => r

/-- A line names its user, if this has no name yet. -/
theorem get?_withLine (r : Registry UInt32 String) (line : String) (uid : UInt32) :
    (withLine r line).get? uid = (r.get? uid).or (nameIn? uid line) := by
  unfold withLine nameIn?
  cases userOf? line.toList with
  | none => simp
  | some user =>
    obtain ⟨u, n⟩ := user
    simp only [Registry.get?_insertNew, Registry.rank_inj, Option.bind_some]
    split <;> cases r.get? uid <;> simp

theorem get?_foldl_withLine (lines : List String) (r : Registry UInt32 String) (uid : UInt32) :
    (lines.foldl withLine r).get? uid = (r.get? uid).or (lines.findSome? (nameIn? uid)) := by
  induction lines generalizing r with
  | nil => simp
  | cons line more ih =>
    rw [List.foldl_cons, ih, get?_withLine, Option.or_assoc, List.findSome?_cons]
    cases nameIn? uid line with
    | none => rfl
    | some name => rfl

/-- A user has the name that the first line gives it. -/
theorem get?_namesOf (database : Bytes) (uid : UInt32) : (namesOf database).get? uid =
    (readableLines (pieces (· == 0x0A) database)).findSome? (nameIn? uid) :=
  get?_foldl_withLine _ .empty uid

theorem get?_namesOf_joined {lines : List Bytes} (h : ∀ line ∈ lines, 0x0A ∉ line)
    (uid : UInt32) : (namesOf (joined [0x0A] lines)).get? uid =
      (readableLines lines).findSome? (nameIn? uid) := by
  rw [get?_namesOf]
  cases lines with
  | nil =>
    have hempty : readableLines [[]] = [""] := readableLines_append_texts [""] []
    change (readableLines [[]]).findSome? (nameIn? uid) = none
    rw [hempty]
    rfl
  | cons line more => rw [pieces_joined (List.cons_ne_nil line more) h]

theorem get?_namesOf_eq_some_iff {database : Bytes} : (namesOf database).get? uid = some name ↔
    ∃ (before : List String) (line : String) (after : List Bytes),
      pieces (· == 0x0A) database = before.map Bytes.ofText ++ Bytes.ofText line :: after ∧
      Gives line uid name ∧ ∀ earlier ∈ before, ∀ other, ¬ Gives earlier uid other := by
  rw [get?_namesOf, List.findSome?_eq_some_iff]
  simp only [nameIn?_eq_some_iff, nameIn?_eq_none_iff]
  constructor
  · rintro ⟨before, line, more, hread, hgives, hfirst⟩
    obtain ⟨after, hlines⟩ := exists_readableLines_iff.1 ⟨more, hread⟩
    exact ⟨before, line, after, hlines, hgives, hfirst⟩
  · rintro ⟨before, line, after, hlines, hgives, hfirst⟩
    obtain ⟨more, hread⟩ := exists_readableLines_iff.2 ⟨after, hlines⟩
    exact ⟨before, line, more, hread, hgives, hfirst⟩

/-- Among the names that lines give, a line that gives nobody one does not count. -/
theorem findSome?_nameIn?_insert {before after : List Bytes} (h : ∀ name, ¬ Gives line uid name) :
    (readableLines (before ++ Bytes.ofText line :: after)).findSome? (nameIn? uid) =
      (readableLines (before ++ after)).findSome? (nameIn? uid) := by
  rcases readableLines_append before with hbefore | hbefore
  · rw [hbefore, hbefore, readableLines_cons_text, List.findSome?_append, List.findSome?_append,
      List.findSome?_cons, nameIn?_eq_none_iff.2 h]
  · rw [hbefore, hbefore]

theorem readableLines_insert {before after : List Bytes} {line : Bytes}
    (h : ∀ text, line ≠ Bytes.ofText text) :
    readableLines (before ++ line :: after) = readableLines before := by
  rcases readableLines_append before with hbefore | hbefore
  · have hstops : Stops (line :: after) := h
    rw [hbefore, readableLines_of_stops hstops, List.append_nil]
  · exact hbefore _

/-! ## The first lines -/

/-- Of the lines that are texts, the first that gives the user a name gives it this one. -/
def FirstGives (database : Bytes) (uid : UInt32) (name : String) : Prop :=
  ∃ (before : List Bytes) (line : String) (after : List Bytes),
    pieces (· == 0x0A) database = before ++ Bytes.ofText line :: after ∧ Gives line uid name ∧
      ∀ earlier, Bytes.ofText earlier ∈ before → ∀ other, ¬ Gives earlier uid other

/-- A line that is no text hides nobody if the users that lines behind it name have names before. -/
def HidesNobody (before : List Bytes) (after : List Bytes) : Prop :=
  ∀ later uid name, Bytes.ofText later ∈ after → Gives later uid name →
    ∃ earlier other, Bytes.ofText earlier ∈ before ∧ Gives earlier uid other

variable {database : Bytes}

theorem newline_not_mem {l : Bytes} (h : l ∈ pieces (· == 0x0A) database) : 0x0A ∉ l := fun hin =>
  absurd (not_mark_of_mem_pieces h _ hin) (by decide)

/-- A line up to which all are texts comes before one that is no text. -/
theorem mem_of_texts {texts : List String} {before after : List Bytes} {bad : Bytes}
    (h : texts.map Bytes.ofText ++ Bytes.ofText line :: rest = before ++ bad :: after)
    (hbad : ∀ text, bad ≠ Bytes.ofText text) : Bytes.ofText line ∈ before := by
  rcases List.append_eq_append_iff.1 h with ⟨between, rfl, hrest⟩ | ⟨between, htexts, hrest⟩
  · cases between with
    | nil => exact absurd (List.cons.inj hrest).1.symm (hbad line)
    | cons next more =>
      rw [(List.cons.inj hrest).1]
      exact List.mem_append_right _ List.mem_cons_self
  · cases between with
    | nil => exact absurd (List.cons.inj hrest).1 (hbad line)
    | cons next more =>
      have hin : bad ∈ texts.map Bytes.ofText := by
        rw [htexts, (List.cons.inj hrest).1]
        exact List.mem_append_right _ List.mem_cons_self
      obtain ⟨text, _, heq⟩ := List.mem_map.1 hin
      exact absurd heq.symm (hbad text)

/-- If a line gives the user a name, one is the first to do so. -/
theorem exists_firstGives (hline : Bytes.ofText line ∈ pieces (· == 0x0A) database)
    (h : Gives line uid name) : ∃ name, FirstGives database uid name := by
  cases hfind : (pieces (· == 0x0A) database).findSome? (nameOf? uid) with
  | none =>
    have hnone := List.findSome?_eq_none_iff.1 hfind _ hline
    rw [nameOf?_eq_some_iff.2 ⟨line, rfl, h⟩] at hnone
    cases hnone
  | some first =>
    obtain ⟨before, l, after, hlines, hl, hbefore⟩ := List.findSome?_eq_some_iff.1 hfind
    obtain ⟨text, rfl, htext⟩ := nameOf?_eq_some_iff.1 hl
    refine ⟨first, before, text, after, hlines, htext, fun earlier hearlier other hother => ?_⟩
    have hnone := hbefore _ hearlier
    rw [nameOf?_eq_some_iff.2 ⟨earlier, rfl, hother⟩] at hnone
    cases hnone

/-- Every user has the name of the first line that gives it one exactly if no line that is no text
hides anybody. -/
theorem firstGives_iff : (∀ uid name, (namesOf database).get? uid = some name ↔
    FirstGives database uid name) ↔
      ∀ before line after, pieces (· == 0x0A) database = before ++ line :: after →
        (∀ text, line ≠ Bytes.ofText text) → HidesNobody before after := by
  constructor
  · intro hall before bad after hlines hbad later uid name hlater hgives
    have hin : Bytes.ofText later ∈ pieces (· == 0x0A) database := by
      rw [hlines]
      exact List.mem_append_right _ (List.mem_cons_of_mem _ hlater)
    obtain ⟨first, hfirst⟩ := exists_firstGives hin hgives
    obtain ⟨texts, line, rest, hlines', hline, _⟩ :=
      get?_namesOf_eq_some_iff.1 ((hall uid first).2 hfirst)
    exact ⟨line, first, mem_of_texts (hlines'.symm.trans hlines) hbad, hline⟩
  · intro hnobody uid name
    rw [get?_namesOf_eq_some_iff]
    constructor
    · rintro ⟨before, line, after, hlines, hgives, hfirst⟩
      refine ⟨before.map Bytes.ofText, line, after, hlines, hgives, fun earlier hearlier => ?_⟩
      obtain ⟨text, htext, heq⟩ := List.mem_map.1 hearlier
      exact Bytes.ofText_injective heq ▸ hfirst text htext
    · rintro ⟨before, line, after, hlines, hgives, hfirst⟩
      obtain ⟨texts, rest, rfl, hstops⟩ := exists_stops before
      cases rest with
      | nil =>
        refine ⟨texts, line, after, by simpa using hlines, hgives, fun earlier hearlier => ?_⟩
        exact hfirst earlier (by simpa using ⟨earlier, hearlier, rfl⟩)
      | cons bad more =>
        rw [List.append_assoc] at hlines
        obtain ⟨earlier, other, hearlier, hother⟩ := hnobody _ bad _ hlines hstops line uid name
          (by simp) hgives
        exact absurd hother (hfirst earlier (List.mem_append_left _ hearlier) other)

/-! ## The law -/

/-- A user has a name exactly if a line gives it this name, no line before gives it one, and all
lines up to there are texts. So every user has the name of the first line that gives it one exactly
if no line that is no text hides anybody. A text that gives nobody a name may be put in as a line
anywhere, or taken out, and nothing changes. From a line that is no text on, no line counts. -/
theorem the_first_line_of_a_user_names_it (database : Bytes) :
    (∀ uid name, (namesOf database).get? uid = some name ↔
      ∃ (before : List String) (line : String) (after : List Bytes),
        pieces (· == 0x0A) database = before.map Bytes.ofText ++ Bytes.ofText line :: after ∧
        Gives line uid name ∧ ∀ earlier ∈ before, ∀ other, ¬ Gives earlier uid other) ∧
    ((∀ uid name, (namesOf database).get? uid = some name ↔ FirstGives database uid name) ↔
      ∀ before line after, pieces (· == 0x0A) database = before ++ line :: after →
        (∀ text, line ≠ Bytes.ofText text) → HidesNobody before after) ∧
    (∀ before line after, pieces (· == 0x0A) database = before ++ after → '\n' ∉ line.toList →
      (∀ uid name, ¬ Gives line uid name) →
      namesOf (joined [0x0A] (before ++ Bytes.ofText line :: after)) = namesOf database) ∧
    (∀ before line after, pieces (· == 0x0A) database = before ++ Bytes.ofText line :: after →
      (∀ uid name, ¬ Gives line uid name) →
      namesOf (joined [0x0A] (before ++ after)) = namesOf database) ∧
    ∀ before line after, pieces (· == 0x0A) database = before ++ line :: after →
      (∀ text, line ≠ Bytes.ofText text) →
      namesOf database = namesOf (joined [0x0A] before) := by
  refine ⟨fun uid name => get?_namesOf_eq_some_iff, firstGives_iff,
    fun before line after hlines hnewline hnone => ?_, fun before line after hlines hnone => ?_,
    fun before line after hlines hline => ?_⟩
  · have hlines' : ∀ l ∈ before ++ Bytes.ofText line :: after, 0x0A ∉ l := by
      intro l hl hin
      rw [List.mem_append, List.mem_cons, or_left_comm, ← List.mem_append, ← hlines] at hl
      rcases hl with rfl | hl
      · exact hnewline (Bytes.mem_of_mem_ofText (by decide) hin)
      · exact newline_not_mem hl hin
    refine Registry.ext_get? fun uid => ?_
    rw [get?_namesOf_joined hlines', get?_namesOf, hlines, findSome?_nameIn?_insert (hnone uid)]
  · have hsub : (before ++ after).Sublist (pieces (· == 0x0A) database) := by
      rw [hlines]
      exact (List.sublist_cons_self _ _).append_left _
    have hlines' : ∀ l ∈ before ++ after, 0x0A ∉ l := fun l hl => newline_not_mem (hsub.subset hl)
    refine Registry.ext_get? fun uid => ?_
    rw [get?_namesOf_joined hlines', get?_namesOf, hlines, findSome?_nameIn?_insert (hnone uid)]
  · have hlines' : ∀ l ∈ before, 0x0A ∉ l := fun l hl =>
      newline_not_mem (hlines ▸ List.mem_append_left _ hl)
    refine Registry.ext_get? fun uid => ?_
    rw [get?_namesOf_joined hlines', get?_namesOf, hlines, readableLines_insert hline]

/-- The first line is one byte, and no text has this byte. -/
theorem a_line_that_is_no_text_hides_the_rest :
    let database : Bytes := 0xFF :: 0x0A :: Bytes.ofText "root:x:0:0\n"
    (∀ text, [0xFF] ≠ Bytes.ofText text) ∧
      pieces (· == 0x0A) database = [[0xFF], Bytes.ofText "root:x:0:0", []] ∧
      Gives "root:x:0:0" 0 "root" ∧ (namesOf database).get? 0 = none ∧
      (namesOf (Bytes.ofText "root:x:0:0\n")).get? 0 = some "root" := by
  have hnone : Bytes.text? [0xFF] = none := by
    unfold Bytes.text? Bytes.chars
    rfl
  have hstops : ∀ text, [0xFF] ≠ Bytes.ofText text := by
    intro text htext
    rw [Bytes.text?_eq_some_iff.2 htext] at hnone
    cases hnone
  have hroot : Gives "root:x:0:0" 0 "root" := userOf?_eq_some_iff.1 (by decide)
  have hlines : pieces (· == 0x0A) (0xFF :: 0x0A :: Bytes.ofText "root:x:0:0\n") =
      [[0xFF], Bytes.ofText "root:x:0:0", []] := by decide
  have hroots : pieces (· == 0x0A) (Bytes.ofText "root:x:0:0\n") =
      [Bytes.ofText "root:x:0:0", []] := by decide
  refine ⟨hstops, hlines, hroot, ?_, ?_⟩
  · have hread : readableLines [[0xFF], Bytes.ofText "root:x:0:0", []] = [] :=
      readableLines_of_stops hstops
    rw [get?_namesOf, hlines, hread]
    rfl
  · rw [get?_namesOf, hroots, readableLines_cons_text, List.findSome?_cons,
      nameIn?_eq_some_iff.2 hroot]

end NamespaceAtlas.UserNames
