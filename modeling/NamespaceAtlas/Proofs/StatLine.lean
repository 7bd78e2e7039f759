-- Stat lines. A line is read exactly if it has the form of one, whatever the name
-- is made of: it stands between the first opening bracket and the last closing
-- one. Bytes are never cut out of range, and no other line is taken.
import NamespaceAtlas.Procfs
import NamespaceAtlas.Proofs.Number.Decimal
import NamespaceAtlas.Proofs.Text.Pieces
import Mathlib.Data.List.TakeWhile

namespace NamespaceAtlas

/-! ## Words -/

section Words

variable {cs blanks : List Char} {c : Char}

theorem dropWhile_of_forall_not {α : Type} {p : α → Bool} {l : List α}
    (h : ∀ a ∈ l, p a = false) : l.dropWhile p = l := by
  cases l with
  | nil => rfl
  | cons a rest => simp [h a List.mem_cons_self]

/-- Blanks after a text without any are taken off. -/
theorem trim_append (hcs : ∀ c ∈ cs, isBlank c = false) (hblanks : ∀ c ∈ blanks, isBlank c = true) :
    trim (cs ++ blanks) = cs := by
  have hback : (cs ++ blanks).reverse.dropWhile isBlank = cs.reverse := by
    rw [List.reverse_append, List.dropWhile_append_of_pos (by simpa using hblanks)]
    exact dropWhile_of_forall_not (by simpa using hcs)
  unfold trim
  cases cs with
  | nil => simp [List.dropWhile_eq_nil_iff.2 hblanks]
  | cons c rest =>
    have hfront : (c :: rest ++ blanks).dropWhile isBlank = c :: rest ++ blanks := by
      simp [hcs c List.mem_cons_self]
    rw [hfront, hback, List.reverse_reverse]

theorem words_append_blank (hc : isBlank c = true) (l m : List Char) :
    words (l ++ c :: m) = words l ++ words m := by
  unfold words
  rw [pieces_append_mark hc, List.filter_append]

theorem words_of_blank (h : ∀ c ∈ cs, isBlank c = true) : words cs = [] := by
  induction cs with
  | nil => rfl
  | cons c rest ih =>
    exact (words_append_blank (h c List.mem_cons_self) [] rest).trans
      (ih fun c hc => h c (List.mem_cons_of_mem _ hc))

theorem words_of_word (hne : cs ≠ []) (h : ∀ c ∈ cs, isBlank c = false) : words cs = [cs] := by
  unfold words
  rw [pieces_of_not_mark h]
  simp [hne]

/-- Words with a blank between each two are the words of the whole. -/
theorem words_intercalate {l : List (List Char)} (hne : ∀ word ∈ l, word ≠ [])
    (h : ∀ word ∈ l, ∀ c ∈ word, isBlank c = false) : words ([' '].intercalate l) = l := by
  induction l with
  | nil => rfl
  | cons word rest ih =>
    have hword := words_of_word (hne word List.mem_cons_self) (h word List.mem_cons_self)
    cases rest with
    | nil => simpa using hword
    | cons next more =>
      rw [List.intercalate_cons_cons, List.append_assoc, List.singleton_append,
        words_append_blank (by decide), hword, ih (fun w hw => hne w (List.mem_cons_of_mem _ hw))
          fun w hw => h w (List.mem_cons_of_mem _ hw)]
      rfl

end Words

/-! ## Cuts at bytes -/

/-- How many bytes a text takes. -/
def byteLength : List Char → Nat
  | [] => 0
  | c :: rest => c.utf8Size + byteLength rest

/-- The text before so many bytes, and the text after them. There is none if the cut is inside a
character or past the end. -/
def cutAtByte? : Nat → List Char → Option (List Char × List Char)
  | 0, cs => some ([], cs)
  | _ + 1, [] => none
  | n + 1, c :: rest =>
    if c.utf8Size ≤ n + 1 then
      (cutAtByte? (n + 1 - c.utf8Size) rest).map fun (before, after) => (c :: before, after)
    else none

/-- The text from one byte up to another, if both are where characters begin or end, and the one is
not past the other. -/
def slice? (first past : Nat) (cs : List Char) : Option (List Char) :=
  (cutAtByte? past cs).bind fun (upTo, _) => (cutAtByte? first upTo).map (·.2)

/-- How many bytes there are before the first such character. -/
def offsetOf? (mark : Char) : List Char → Option Nat
  | [] => none
  | c :: rest => if c = mark then some 0 else (offsetOf? mark rest).map (c.utf8Size + ·)

/-- How many bytes there are before the last such character. -/
def lastOffsetOf? (mark : Char) : List Char → Option Nat
  | [] => none
  | c :: rest =>
    match lastOffsetOf? mark rest with
    | some n => some (c.utf8Size + n)
    | none => if c = mark then some 0 else none

section Cuts

variable {mark : Char} {before after cs : List Char}

theorem byteLength_append (before after : List Char) :
    byteLength (before ++ after) = byteLength before + byteLength after := by
  induction before with
  | nil => simp [byteLength]
  | cons c rest ih =>
    simp only [List.cons_append, byteLength, ih]
    omega

theorem cutAtByte?_append (before after : List Char) :
    cutAtByte? (byteLength before) (before ++ after) = some (before, after) := by
  induction before with
  | nil => simp [cutAtByte?, byteLength]
  | cons c rest ih =>
    have hpos := c.utf8Size_pos
    obtain ⟨n, hn⟩ : ∃ n, byteLength (c :: rest) = n + 1 :=
      Nat.exists_eq_succ_of_ne_zero (by simp only [byteLength]; omega)
    have hrest : n + 1 - c.utf8Size = byteLength rest := by
      simp only [byteLength] at hn
      omega
    rw [hn, List.cons_append, cutAtByte?, hrest, ih, if_pos]
    · rfl
    · simp only [byteLength] at hn
      omega

theorem slice?_append (before part after : List Char) :
    slice? (byteLength before) (byteLength (before ++ part)) (before ++ part ++ after) =
      some part := by
  unfold slice?
  rw [cutAtByte?_append, Option.bind_some]
  dsimp only
  rw [cutAtByte?_append, Option.map_some]

theorem offsetOf?_eq_none (h : mark ∉ cs) : offsetOf? mark cs = none := by
  induction cs with
  | nil => rfl
  | cons c rest ih =>
    simp only [List.mem_cons, not_or] at h
    simp [offsetOf?, Ne.symm h.1, ih h.2]

theorem offsetOf?_append (h : mark ∉ before) :
    offsetOf? mark (before ++ mark :: after) = some (byteLength before) := by
  induction before with
  | nil => simp [offsetOf?, byteLength]
  | cons c rest ih =>
    simp only [List.mem_cons, not_or] at h
    simp [offsetOf?, byteLength, Ne.symm h.1, ih h.2]

theorem lastOffsetOf?_eq_none (h : mark ∉ cs) : lastOffsetOf? mark cs = none := by
  induction cs with
  | nil => rfl
  | cons c rest ih =>
    simp only [List.mem_cons, not_or] at h
    simp [lastOffsetOf?, Ne.symm h.1, ih h.2]

theorem lastOffsetOf?_append (h : mark ∉ after) :
    lastOffsetOf? mark (before ++ mark :: after) = some (byteLength before) := by
  induction before with
  | nil => simp [lastOffsetOf?, lastOffsetOf?_eq_none h, byteLength]
  | cons c rest ih => simp [lastOffsetOf?, ih, byteLength]

end Cuts

namespace Procfs

open Decimal (Denotes Counts)

variable {before name after : List Char} {line : String} {p : Process}

/-! ## What is read -/

theorem ofStatParts_eq_ok_iff : ofStatParts before name after = .ok p ↔
    Denotes (trim before) p.pid.toInt ∧ 20 ≤ (words after).length ∧
      Denotes ((words after).getD 1 []) p.parentPid.toInt ∧
      Counts ((words after).getD 19 []) p.started.toNat ∧
      p = { pid := p.pid, parentPid := p.parentPid, name := String.ofList name,
            started := p.started } := by
  unfold ofStatParts ofStatParts.readPid
  by_cases hlength : (words after).length < 20
  · refine iff_of_false ?_ fun h => by omega
    simp [hlength, bind_eq_ok_iff]
  · simp only [hlength, bind_eq_ok_iff, mapError_eq_ok_iff, Pid.read_eq_ok_iff,
      Decimal.readUInt64_eq_ok_iff, if_false]
    constructor
    · rintro ⟨pid, hpid, parentPid, hparent, started, hstarted, hp⟩
      cases hp
      exact ⟨hpid, by omega, hparent, hstarted, rfl⟩
    · rintro ⟨hpid, _, hparent, hstarted, hp⟩
      exact ⟨p.pid, hpid, p.parentPid, hparent, p.started, hstarted, by rw [hp]; rfl⟩

/-- The ways in which brackets stand in a line. -/
inductive Brackets : List Char → Prop
  | noOpening {cs : List Char} : '(' ∉ cs → Brackets cs
  | noClosing {cs : List Char} : '(' ∈ cs → ')' ∉ cs → Brackets cs
  | crossed {start between rest : List Char} : '(' ∉ start → '(' ∉ between → ')' ∉ between →
      ')' ∉ rest → Brackets (start ++ ')' :: (between ++ '(' :: rest))
  | named {before name after : List Char} : '(' ∉ before → ')' ∉ after →
      Brackets (before ++ '(' :: (name ++ ')' :: after))

theorem exists_cutAt {mark : Char} {cs : List Char} (h : mark ∈ cs) :
    ∃ before after, cs = before ++ mark :: after ∧ mark ∉ before := by
  obtain ⟨parts, hparts⟩ := Option.ne_none_iff_exists'.1 (mt cutAt_eq_none_iff.1 (not_not.2 h))
  exact ⟨parts.1, parts.2, cutAt_eq_some_iff.1 hparts⟩

theorem exists_cutAtLast {mark : Char} {cs : List Char} (h : mark ∈ cs) :
    ∃ before after, cs = before ++ mark :: after ∧ mark ∉ after := by
  obtain ⟨parts, hparts⟩ :=
    Option.ne_none_iff_exists'.1 (mt cutAtLast_eq_none_iff.1 (not_not.2 h))
  exact ⟨parts.1, parts.2, cutAtLast_eq_some_iff.1 hparts⟩

theorem brackets (cs : List Char) : Brackets cs := by
  by_cases hopening : '(' ∈ cs
  · by_cases hclosing : ')' ∈ cs
    · obtain ⟨before, rest, rfl, hbefore⟩ := exists_cutAt hopening
      by_cases hrest : ')' ∈ rest
      · obtain ⟨name, after, rfl, hafter⟩ := exists_cutAtLast hrest
        exact .named hbefore hafter
      · have hstart : ')' ∈ before := by simpa [hrest] using hclosing
        obtain ⟨start, between, rfl, hbetween⟩ := exists_cutAtLast hstart
        simp only [List.mem_append, List.mem_cons, not_or] at hbefore
        rw [List.append_assoc, List.cons_append]
        exact .crossed hbefore.1 hbefore.2.2 hbetween hrest
    · exact .noClosing hopening hclosing
  · exact .noOpening hopening

theorem ofStatChars_noOpening {cs : List Char} (h : '(' ∉ cs) :
    ofStatChars cs = .error .noOpening := by
  unfold ofStatChars
  rw [cutAt_eq_none_iff.2 h]
  rfl

theorem ofStatChars_noClosing {cs : List Char} (hopening : '(' ∈ cs) (hclosing : ')' ∉ cs) :
    ofStatChars cs = .error .noClosing := by
  obtain ⟨before, rest, hcs, hbefore⟩ := exists_cutAt hopening
  unfold ofStatChars
  rw [cutAt_eq_some_iff.2 ⟨hcs, hbefore⟩]
  simp only [hclosing, not_false_eq_true, if_true]
  rfl

theorem ofStatChars_crossed {start between rest : List Char} (hstart : '(' ∉ start)
    (hbetween : '(' ∉ between) (hrest : ')' ∉ rest) :
    ofStatChars (start ++ ')' :: (between ++ '(' :: rest)) = .error .unbalanced := by
  have hcut : cutAt (· == '(') (start ++ ')' :: (between ++ '(' :: rest)) =
      some (start ++ ')' :: between, rest) :=
    cutAt_eq_some_iff.2 ⟨by simp, by simp [hstart, hbetween]⟩
  unfold ofStatChars
  rw [hcut]
  simp only [List.mem_append, List.mem_cons, true_or, or_true, not_true, if_false,
    cutAtLast_eq_none_iff.2 hrest]
  rfl

/-- The name stands between the first opening bracket and the last closing one. -/
theorem ofStatChars_named (hbefore : '(' ∉ before) (hafter : ')' ∉ after) :
    ofStatChars (before ++ '(' :: (name ++ ')' :: after)) = ofStatParts before name after := by
  unfold ofStatChars
  rw [cutAt_eq_some_iff.2 ⟨rfl, hbefore⟩]
  simp [cutAtLast_eq_some_iff.2 ⟨rfl, hafter⟩]

/-- A line is read as a process exactly if it has this form. -/
theorem ofStatChars_eq_ok_iff {cs : List Char} : ofStatChars cs = .ok p ↔
    ∃ before name after, cs = before ++ '(' :: (name ++ ')' :: after) ∧ '(' ∉ before ∧
      ')' ∉ after ∧ ofStatParts before name after = .ok p := by
  constructor
  · intro h
    cases brackets cs with
    | noOpening hopening =>
      rw [ofStatChars_noOpening hopening] at h
      cases h
    | noClosing hopening hclosing =>
      rw [ofStatChars_noClosing hopening hclosing] at h
      cases h
    | crossed hstart hbetween _ hrest =>
      rw [ofStatChars_crossed hstart hbetween hrest] at h
      cases h
    | named hbefore hafter =>
      rw [ofStatChars_named hbefore hafter] at h
      exact ⟨_, _, _, rfl, hbefore, hafter, h⟩
  · rintro ⟨before, name, after, rfl, hbefore, hafter, h⟩
    rw [ofStatChars_named hbefore hafter, h]

theorem ofStat_eq_error {e : Error} (h : ofStat line = .error e) :
    ∃ text, e = .unreadable "process stat" text ∨ e = .unreadable "process ID" text := by
  unfold ofStat at h
  cases hread : ofStatChars line.toList with
  | ok p =>
    rw [hread] at h
    cases h
  | error fault =>
    rw [hread] at h
    cases h
    cases fault with
    | notPid text why => exact ⟨_, Or.inr rfl⟩
    | noOpening | noClosing | unbalanced | tooFewFields | badStart => exact ⟨_, Or.inl rfl⟩

/-! ## By offsets -/

/-- Reads a stat line by offsets in its bytes. There is no outcome if a cut is out of range. -/
def ofStatSlices? (cs : List Char) : Option (Except StatFault Process) :=
  match offsetOf? '(' cs, lastOffsetOf? ')' cs with
  | none, _ => some (.error .noOpening)
  | some _, none => some (.error .noClosing)
  | some opening, some closing =>
    if closing < opening then some (.error .unbalanced)
    else do
      let before ← slice? 0 opening cs
      let name ← slice? (opening + 1) closing cs
      let after ← slice? (closing + 1) (byteLength cs) cs
      return ofStatParts before name after

theorem ofStatSlices?_crossed {start between rest : List Char} (hstart : '(' ∉ start)
    (hbetween : '(' ∉ between) (hbetween' : ')' ∉ between) (hrest : ')' ∉ rest) :
    ofStatSlices? (start ++ ')' :: (between ++ '(' :: rest)) = some (.error .unbalanced) := by
  have hopening : offsetOf? '(' (start ++ ')' :: (between ++ '(' :: rest)) =
      some (byteLength (start ++ ')' :: between)) := by
    have hnone : '(' ∉ start ++ ')' :: between := by simp [hstart, hbetween]
    simpa using offsetOf?_append hnone
  have hlt : byteLength start < byteLength (start ++ ')' :: between) := by
    rw [byteLength_append, byteLength]
    have := Char.utf8Size_pos ')'
    omega
  unfold ofStatSlices?
  rw [hopening, lastOffsetOf?_append (by simp [hbetween', hrest])]
  dsimp only
  rw [if_pos hlt]

theorem ofStatSlices?_named (hbefore : '(' ∉ before) (hafter : ')' ∉ after) :
    ofStatSlices? (before ++ '(' :: (name ++ ')' :: after)) =
      some (ofStatParts before name after) := by
  generalize hcs : before ++ '(' :: (name ++ ')' :: after) = cs
  have hcs₁ : cs = [] ++ before ++ '(' :: (name ++ ')' :: after) := by simp [← hcs]
  have hcs₂ : cs = before ++ ['('] ++ name ++ ')' :: after := by simp [← hcs]
  have hcs₃ : cs = before ++ ['('] ++ name ++ [')'] ++ after := by simp [← hcs]
  have hone : byteLength ['('] = 1 ∧ byteLength [')'] = 1 := by decide
  have hopening : offsetOf? '(' cs = some (byteLength before) := by
    rw [← hcs]
    exact offsetOf?_append hbefore
  have hclosing : lastOffsetOf? ')' cs = some (byteLength (before ++ ['('] ++ name)) := by
    rw [hcs₂]
    exact lastOffsetOf?_append hafter
  have hle : ¬ byteLength (before ++ ['('] ++ name) < byteLength before := by
    rw [byteLength_append, byteLength_append]
    omega
  have hfirst : slice? 0 (byteLength before) cs = some before := by
    rw [hcs₁]
    exact slice?_append [] before _
  have hname : slice? (byteLength before + 1) (byteLength (before ++ ['('] ++ name)) cs =
      some name := by
    rw [hcs₂, ← hone.1, ← byteLength_append]
    exact slice?_append _ name _
  have hlast : slice? (byteLength (before ++ ['('] ++ name) + 1) (byteLength cs) cs =
      some after := by
    have := slice?_append (before ++ ['('] ++ name ++ [')']) after []
    rwa [List.append_nil, ← hcs₃, byteLength_append _ [')'], hone.2] at this
  unfold ofStatSlices?
  rw [hopening, hclosing]
  dsimp only
  rw [if_neg hle, hfirst, hname, hlast]
  rfl

/-- No cut is ever out of range, and the parts are the same. -/
theorem ofStatSlices?_eq (cs : List Char) : ofStatSlices? cs = some (ofStatChars cs) := by
  cases brackets cs with
  | noOpening h =>
    unfold ofStatSlices?
    rw [offsetOf?_eq_none h, ofStatChars_noOpening h]
  | noClosing hopening hclosing =>
    obtain ⟨before, rest, rfl, hbefore⟩ := exists_cutAt hopening
    unfold ofStatSlices?
    rw [offsetOf?_append hbefore, lastOffsetOf?_eq_none hclosing,
      ofStatChars_noClosing hopening hclosing]
  | crossed hstart hbetween hbetween' hrest =>
    rw [ofStatSlices?_crossed hstart hbetween hbetween' hrest,
      ofStatChars_crossed hstart hbetween hrest]
  | named hbefore hafter =>
    rw [ofStatSlices?_named hbefore hafter, ofStatChars_named hbefore hafter]

/-! ## Lines that are written -/

/-- What stands in a field of a stat line: something, but neither a blank nor a closing bracket. -/
def IsField (cs : List Char) : Prop := cs ≠ [] ∧ ∀ c ∈ cs, isBlank c = false ∧ c ≠ ')'

/-- The fields after the name: the state, the parent, some numbers, the start, and more numbers. -/
def statFields (parentPid : Pid) (started : UInt64) (state : Char) (between more : List Int) :
    List (List Char) :=
  [state] :: parentPid.text.toList :: (between.map fun n => (Decimal.signedText n).toList) ++
    (Decimal.text started.toNat).toList :: more.map fun n => (Decimal.signedText n).toList

/-- The line for a process: its number, its name in brackets, and the fields. -/
def statLine (pid : Pid) (name : String) (fields : List (List Char)) : String :=
  pid.text ++ " (" ++ name ++ ") " ++ String.ofList (joined [' '] fields)

theorem isField_signedText (n : Int) : IsField (Decimal.signedText n).toList := by
  have hdigit : ∀ d < 10, isBlank (Decimal.digitChar d) = false ∧ Decimal.digitChar d ≠ ')' := by
    decide
  refine ⟨fun hnil => ?_, fun c hc => ?_⟩
  · cases n with
    | ofNat n =>
      unfold Decimal.signedText Decimal.text at hnil
      rw [String.toList_ofList] at hnil
      exact Decimal.digits_ne_nil n hnil
    | negSucc n => simp [Decimal.signedText] at hnil
  · rcases Decimal.signedText_of_mem hc with rfl | ⟨d, hd, rfl⟩
    · decide
    · exact hdigit d hd

theorem isField_of_mem_statFields {parentPid : Pid} {started : UInt64} {state : Char}
    {between more : List Int} (hstate : isBlank state = false ∧ state ≠ ')') :
    ∀ field ∈ statFields parentPid started state between more, IsField field := by
  have hstarted : Decimal.text started.toNat = Decimal.signedText started.toNat := rfl
  unfold statFields Pid.text
  rw [hstarted]
  simp only [List.cons_append, List.mem_cons, List.mem_append, List.mem_map]
  rintro field (rfl | rfl | ⟨n, _, rfl⟩ | rfl | ⟨n, _, rfl⟩)
  · exact ⟨List.cons_ne_nil _ _, by simpa using hstate⟩
  all_goals exact isField_signedText _

/-- The fields are the words after the name, whatever blanks end the line. -/
theorem words_fields {fields : List (List Char)} (h : ∀ field ∈ fields, IsField field)
    {ending : List Char} (hending : ∀ c ∈ ending, isBlank c = true) :
    words (' ' :: (joined [' '] fields ++ ending)) = fields := by
  have hfields : words (joined [' '] fields) = fields := by
    rw [joined_eq_intercalate]
    exact words_intercalate (fun field hfield => (h field hfield).1)
      fun field hfield c hc => ((h field hfield).2 c hc).1
  have hfront := words_append_blank (c := ' ') (by decide) [] (joined [' '] fields ++ ending)
  rw [List.nil_append] at hfront
  rw [hfront, words_of_blank (by simp), List.nil_append]
  cases ending with
  | nil => rw [List.append_nil, hfields]
  | cons c rest =>
    rw [words_append_blank (hending c List.mem_cons_self), hfields,
      words_of_blank fun c hc => hending c (List.mem_cons_of_mem _ hc), List.append_nil]

theorem opening_not_mem_text (pid : Pid) : '(' ∉ pid.text.toList := by
  have hdigit : ∀ d < 10, '(' ≠ Decimal.digitChar d := by decide
  intro h
  rcases Decimal.signedText_of_mem h with h | ⟨d, hd, h⟩
  · cases h
  · exact hdigit d hd h

theorem closing_not_mem_fields {fields : List (List Char)} (h : ∀ field ∈ fields, IsField field)
    {ending : List Char} (hending : ∀ c ∈ ending, isBlank c = true) :
    ')' ∉ ' ' :: (joined [' '] fields ++ ending) := by
  have hblank : isBlank ')' = false := by decide
  simp only [List.mem_cons, List.mem_append, not_or]
  refine ⟨by decide, fun hin => ?_, fun hin => ?_⟩
  · rcases mem_of_mem_joined hin with hsep | ⟨field, hfield, hin⟩
    · simp at hsep
    · exact ((h field hfield).2 _ hin).2 rfl
  · rw [hending _ hin] at hblank
    cases hblank

theorem ofStatParts_statLine {pid parentPid : Pid} {started : UInt64} {state : Char}
    {between more : List Int} {ending : List Char} (hstate : isBlank state = false ∧ state ≠ ')')
    (hbetween : between.length = 17) (hending : ∀ c ∈ ending, isBlank c = true) :
    ofStatParts (pid.text.toList ++ [' ']) name
        (' ' :: (joined [' '] (statFields parentPid started state between more) ++ ending)) =
      .ok { pid, parentPid, name := String.ofList name, started } := by
  have hpid : ∀ pid : Pid, Denotes pid.text.toList pid.toInt :=
    fun pid => Pid.read_eq_ok_iff.1 (Pid.read_text pid)
  have hfields : ∀ field ∈ statFields parentPid started state between more, IsField field :=
    isField_of_mem_statFields hstate
  have htrim : trim (pid.text.toList ++ [' ']) = pid.text.toList :=
    trim_append (fun c hc => ((isField_signedText _).2 c hc).1) (by simp; decide)
  rw [ofStatParts_eq_ok_iff, words_fields hfields hending, htrim]
  refine ⟨hpid pid, ?_, ?_, ?_, rfl⟩
  · simp only [statFields, List.cons_append, List.length_cons, List.length_append,
      List.length_map, hbetween]
    omega
  · exact hpid parentPid
  · have hstart : (statFields parentPid started state between more).getD 19 [] =
        (Decimal.text started.toNat).toList := by
      simp [statFields, hbetween]
    rw [hstart]
    exact Decimal.counts_text _

/-! ## The law -/

/-- A line is read exactly if it has an opening bracket, the first, and a closing one after it, the
last; if what is before them, trimmed, stands for a process number; and if of the words behind them
there are at least twenty, of which the second stands for a process number and the twentieth for a
start. The process has these and the name between the brackets, and nothing else is known of it. Any
other line cannot be parsed. No cut is out of range. What was written is read back, whatever the
name. -/
theorem a_stat_line_is_read_by_its_form (line : String) :
    (∀ p, ofStat line = .ok p ↔ ∃ before name after : List Char,
      line.toList = before ++ '(' :: (name ++ ')' :: after) ∧ '(' ∉ before ∧ ')' ∉ after ∧
      Denotes (trim before) p.pid.toInt ∧ 20 ≤ (words after).length ∧
      Denotes ((words after).getD 1 []) p.parentPid.toInt ∧
      Counts ((words after).getD 19 []) p.started.toNat ∧
      p = { pid := p.pid, parentPid := p.parentPid, name := String.ofList name,
            started := p.started }) ∧
    (∀ e, ofStat line = .error e →
      ∃ text, e = .unreadable "process stat" text ∨ e = .unreadable "process ID" text) ∧
    ofStatSlices? line.toList = some (ofStatChars line.toList) ∧
    ∀ (pid parentPid : Pid) (name : String) (started : UInt64) (state : Char)
      (between more : List Int) (ending : String),
      isBlank state = false ∧ state ≠ ')' → between.length = 17 →
      (∀ c ∈ ending.toList, isBlank c = true) →
      ofStat (statLine pid name (statFields parentPid started state between more) ++ ending) =
        .ok { pid, parentPid, name, started } := by
  refine ⟨fun p => ?_, fun e => ofStat_eq_error, ofStatSlices?_eq line.toList, ?_⟩
  · unfold ofStat
    rw [mapError_eq_ok_iff, ofStatChars_eq_ok_iff]
    simp only [ofStatParts_eq_ok_iff]
  · intro pid parentPid name started state between more ending hstate hbetween hending
    have hread : ofStatParts (pid.text.toList ++ [' ']) name.toList
        (' ' :: (joined [' '] (statFields parentPid started state between more) ++
          ending.toList)) =
        .ok { pid, parentPid, name := String.ofList name.toList, started } :=
      ofStatParts_statLine hstate hbetween hending
    rw [String.ofList_toList] at hread
    unfold ofStat
    rw [mapError_eq_ok_iff, ofStatChars_eq_ok_iff]
    refine ⟨_, _, _, ?_, ?_, ?_, hread⟩
    · simp [statLine]
    · simp [opening_not_mem_text]
    · exact closing_not_mem_fields (isField_of_mem_statFields hstate) hending

end Procfs

end NamespaceAtlas
