-- Decimal texts. A number is read back as it was written, and no text is read as
-- a number but those that stand for one within the limits.
import NamespaceAtlas.Identity

namespace NamespaceAtlas

/-! ## Outcomes -/

section Outcomes

variable {ε ε' α β : Type} {x : Except ε α} {a : α} {b : β}

theorem map_eq_ok_iff {f : α → β} : x.map f = .ok b ↔ ∃ a, x = .ok a ∧ f a = b := by
  cases x <;> simp [Except.map]

theorem bind_eq_ok_iff {f : α → Except ε β} :
    (x >>= f) = .ok b ↔ ∃ a, x = .ok a ∧ f a = .ok b := by
  cases x <;> simp [bind, Except.bind]

theorem mapError_eq_ok_iff {f : ε → ε'} : x.mapError f = .ok a ↔ x = .ok a := by
  constructor
  · intro h
    cases x with
    | ok _ => exact congrArg Except.ok (Except.ok.inj h)
    | error _ => cases h
  · rintro rfl
    rfl

theorem toOption_eq_some_iff : x.toOption = some a ↔ x = .ok a := by
  cases x <;> simp [Except.toOption]

end Outcomes

namespace Decimal

/-! ## Writing -/

theorem digits_ne_nil (n : Nat) : digits n ≠ [] := by
  unfold digits
  split
  · exact List.cons_ne_nil _ _
  · simp

theorem digits_of_mem {n : Nat} {c : Char} (h : c ∈ digits n) : ∃ d < 10, c = digitChar d := by
  induction n using digits.induct with
  | case1 n hn =>
    unfold digits at h
    rw [if_pos hn, List.mem_singleton] at h
    exact ⟨n, hn, h⟩
  | case2 n hn ih =>
    unfold digits at h
    rw [if_neg hn, List.mem_append, List.mem_singleton] at h
    rcases h with h | h
    · exact ih h
    · exact ⟨n % 10, Nat.mod_lt _ (by omega), h⟩

/-- A number is written without a sign. -/
theorem exists_digits_eq_cons (n : Nat) :
    ∃ c rest, digits n = c :: rest ∧ c ≠ '+' ∧ c ≠ '-' := by
  have hsigns : ∀ d < 10, digitChar d ≠ '+' ∧ digitChar d ≠ '-' := by decide
  cases hl : digits n with
  | nil => exact absurd hl (digits_ne_nil n)
  | cons c rest =>
    obtain ⟨d, hd, rfl⟩ := digits_of_mem (hl ▸ List.mem_cons_self : c ∈ digits n)
    exact ⟨_, rest, rfl, hsigns d hd⟩

/-- A decimal text is made of a sign and digits. -/
theorem signedText_of_mem {n : Int} {c : Char} (h : c ∈ (signedText n).toList) :
    c = '-' ∨ ∃ d < 10, c = digitChar d := by
  cases n with
  | ofNat n =>
    unfold signedText text at h
    rw [String.toList_ofList] at h
    exact Or.inr (digits_of_mem h)
  | negSucc n =>
    unfold signedText text at h
    rw [String.toList_append, List.mem_append] at h
    rcases h with h | h
    · exact Or.inl (List.mem_singleton.1 h)
    · rw [String.toList_ofList] at h
      exact Or.inr (digits_of_mem h)

/-! ## Reading back -/

variable {limit : Nat} {past : NumberFault}

theorem digit?_digitChar {d : Nat} (h : d < 10) : digit? (digitChar d) = some d := by
  revert d
  decide

theorem readDigits_append (value : Nat) (l m : List Char) :
    readDigits limit past value (l ++ m) =
      (readDigits limit past value l).bind fun value => readDigits limit past value m := by
  induction l generalizing value with
  | nil => rfl
  | cons c rest ih =>
    rw [List.cons_append, readDigits, readDigits]
    split
    · rfl
    · split
      · exact ih _
      · rfl

theorem readDigits_digits {n : Nat} (h : n ≤ limit) :
    readDigits limit past 0 (digits n) = .ok n := by
  induction n using digits.induct with
  | case1 n hn =>
    unfold digits
    rw [if_pos hn, readDigits, digit?_digitChar hn]
    simp [h, readDigits]
  | case2 n hn ih =>
    have hlast : n / 10 * 10 + n % 10 = n := Nat.div_add_mod' n 10
    unfold digits
    rw [if_neg hn, readDigits_append, ih (by omega), Except.bind, readDigits,
      digit?_digitChar (Nat.mod_lt n (by omega))]
    simp [hlast, h, readDigits]

theorem readSome_digits {n : Nat} (h : n ≤ limit) :
    readSome limit past (digits n) = .ok n := by
  unfold readSome
  split
  · exact absurd ‹_› (digits_ne_nil n)
  · exact readDigits_digits h

/-- A number up to the limit is read back. -/
theorem readNat_digits {n : Nat} (h : n ≤ limit) : readNat limit (digits n) = .ok n := by
  obtain ⟨c, rest, hl, hplus, _⟩ := exists_digits_eq_cons n
  have hread : readSome limit .tooLarge (c :: rest) = .ok n := hl ▸ readSome_digits h
  rw [hl]
  unfold readNat
  split
  · cases ‹_›
  · exact absurd (List.cons.inj ‹_›).1 hplus
  · exact hread

/-- A word of 32 bits is read back. -/
theorem readUInt32_text (n : UInt32) : readUInt32 (text n.toNat).toList = .ok n := by
  unfold readUInt32 text
  rw [String.toList_ofList, readNat_digits (Nat.le_sub_one_of_lt n.toNat_lt)]
  exact congrArg Except.ok UInt32.ofNat_toNat

/-- A signed number within the limits is read back. -/
theorem readInt_signedText {least limit : Nat} {n : Int} (hleast : -least ≤ n)
    (hlimit : n ≤ limit) :
    readInt least limit (signedText n).toList = .ok n := by
  cases n with
  | ofNat n =>
    obtain ⟨c, rest, hl, hplus, hminus⟩ := exists_digits_eq_cons n
    have hread : readSome limit .tooLarge (c :: rest) = .ok n :=
      hl ▸ readSome_digits (Int.ofNat_le.1 hlimit)
    unfold signedText text
    rw [String.toList_ofList, hl]
    unfold readInt
    split
    · cases ‹_›
    · exact absurd (List.cons.inj ‹_›).1 hplus
    · exact absurd (List.cons.inj ‹_›).1 hminus
    · rw [hread]
      rfl
  | negSucc n =>
    have hn : n + 1 ≤ least := by omega
    have htext : (signedText (.negSucc n)).toList = '-' :: digits (n + 1) := by
      unfold signedText text
      rw [String.toList_append, String.toList_ofList, String.toList_ofList]
      rfl
    rw [htext]
    unfold readInt
    change (readSome least .tooSmall (digits (n + 1))).map (fun n => -Int.ofNat n) = _
    rw [readSome_digits hn]
    rfl

/-! ## What is read -/

/-- The value of digits. -/
def valueOf (cs : List Char) : Nat := cs.foldl (fun value c => value * 10 + (c.toNat - 48)) 0

/-- A text of digits, of which there is at least one. -/
structure IsDigits (cs : List Char) : Prop where
  ne_nil : cs ≠ []
  isDigit : ∀ c ∈ cs, c.isDigit = true

/-- A text stands for a natural number if it is made of its digits. A plus may stand in front, and
zeros. -/
inductive Counts : List Char → Nat → Prop
  | plain {cs : List Char} : IsDigits cs → Counts cs (valueOf cs)
  | plus {cs : List Char} : IsDigits cs → Counts ('+' :: cs) (valueOf cs)

/-- A text stands for an integer if it stands for a natural number, or after a minus has the digits
of the number without its sign. -/
inductive Denotes : List Char → Int → Prop
  | counts {cs : List Char} {n : Nat} : Counts cs n → Denotes cs n
  | minus {cs : List Char} : IsDigits cs → Denotes ('-' :: cs) (-(valueOf cs : Nat))

variable {cs : List Char} {n : Nat}

theorem isDigit_iff {c : Char} : c.isDigit = true ↔ '0' ≤ c ∧ c ≤ '9' := by
  unfold Char.isDigit
  rw [Bool.and_eq_true, decide_eq_true_eq, decide_eq_true_eq]
  rfl

theorem digit?_eq (c : Char) : digit? c = if c.isDigit then some (c.toNat - 48) else none := by
  unfold digit?
  by_cases h : '0' ≤ c ∧ c ≤ '9' <;> simp [h, isDigit_iff]

/-- More digits make no value less. -/
theorem le_foldl (cs : List Char) (value : Nat) :
    value ≤ cs.foldl (fun value c => value * 10 + (c.toNat - 48)) value := by
  induction cs generalizing value with
  | nil => exact Nat.le_refl value
  | cons c rest ih =>
    have := ih (value * 10 + (c.toNat - 48))
    rw [List.foldl_cons]
    omega

theorem readDigits_eq_ok_iff {value : Nat} (h : value ≤ limit) :
    readDigits limit past value cs = .ok n ↔
      (∀ c ∈ cs, c.isDigit = true) ∧
        cs.foldl (fun value c => value * 10 + (c.toNat - 48)) value = n ∧ n ≤ limit := by
  induction cs generalizing value with
  | nil =>
    simp only [readDigits, Except.ok.injEq, List.foldl_nil, List.not_mem_nil, false_implies,
      implies_true, true_and]
    constructor
    · intro heq
      exact ⟨heq, heq ▸ h⟩
    · exact And.left
  | cons c rest ih =>
    rw [readDigits, digit?_eq, List.forall_mem_cons, List.foldl_cons]
    by_cases hc : c.isDigit = true
    · simp only [hc, if_true, true_and]
      by_cases hle : value * 10 + (c.toNat - 48) ≤ limit
      · rw [if_pos hle, ih hle]
      · rw [if_neg hle]
        have := le_foldl rest (value * 10 + (c.toNat - 48))
        refine iff_of_false nofun fun ⟨_, heq, hn⟩ => ?_
        omega
    · simp [hc]

theorem readSome_eq_ok_iff :
    readSome limit past cs = .ok n ↔ IsDigits cs ∧ valueOf cs = n ∧ n ≤ limit := by
  unfold readSome
  split
  · exact iff_of_false nofun fun h => h.1.ne_nil rfl
  · rename_i hne
    rw [readDigits_eq_ok_iff (Nat.zero_le limit)]
    exact and_congr_left fun _ => ⟨fun h => ⟨hne, h⟩, IsDigits.isDigit⟩

/-- No digit is a sign. -/
theorem IsDigits.not_sign {c : Char} (h : IsDigits (c :: cs)) : c ≠ '+' ∧ c ≠ '-' := by
  have hc := h.isDigit c List.mem_cons_self
  constructor
  · rintro rfl
    exact absurd hc (by decide)
  · rintro rfl
    exact absurd hc (by decide)

/-- A text is read as a natural number if it stands for it and the limit is not passed. -/
theorem readNat_eq_ok_iff : readNat limit cs = .ok n ↔ Counts cs n ∧ n ≤ limit := by
  unfold readNat
  split
  · refine iff_of_false nofun ?_
    rintro ⟨⟨h⟩, _⟩
    exact h.ne_nil rfl
  · rename_i rest
    rw [readSome_eq_ok_iff]
    constructor
    · rintro ⟨hdigits, rfl, hle⟩
      exact ⟨.plus hdigits, hle⟩
    · rintro ⟨hdigits | hdigits, hle⟩
      · exact absurd rfl hdigits.not_sign.1
      · exact ⟨hdigits, rfl, hle⟩
  · rename_i hplus
    rw [readSome_eq_ok_iff]
    constructor
    · rintro ⟨hdigits, rfl, hle⟩
      exact ⟨.plain hdigits, hle⟩
    · rintro ⟨hdigits | hdigits, hle⟩
      · exact ⟨hdigits, rfl, hle⟩
      · exact absurd rfl (hplus _)

/-- Without a minus in front integers are read like natural numbers. -/
theorem readInt_of_not_minus {least : Nat} (h : ∀ rest, cs ≠ '-' :: rest) :
    readInt least limit cs = (readNat limit cs).map Int.ofNat := by
  unfold readInt readNat
  split
  · rfl
  · rfl
  · exact absurd rfl (h _)
  · rename_i hnil hplus _
    split
    · exact absurd rfl hnil
    · exact absurd rfl (hplus _)
    · rfl

/-- A text is read as an integer if it stands for it and is within the limits. -/
theorem readInt_eq_ok_iff {least : Nat} {n : Int} :
    readInt least limit cs = .ok n ↔ Denotes cs n ∧ -least ≤ n ∧ n ≤ limit := by
  by_cases hminus : ∃ rest, cs = '-' :: rest
  · obtain ⟨rest, rfl⟩ := hminus
    change (readSome least .tooSmall rest).map (fun n => -Int.ofNat n) = .ok n ↔ _
    simp only [map_eq_ok_iff, readSome_eq_ok_iff]
    constructor
    · rintro ⟨_, ⟨hdigits, rfl, hle⟩, rfl⟩
      exact ⟨.minus hdigits, by simpa using hle, by simp⟩
    · rintro ⟨hn, hleast, _⟩
      cases hn with
      | counts hn =>
        cases hn with
        | plain hdigits => exact absurd rfl hdigits.not_sign.2
      | minus hdigits => exact ⟨_, ⟨hdigits, rfl, by omega⟩, rfl⟩
  · rw [readInt_of_not_minus fun rest heq => hminus ⟨rest, heq⟩]
    simp only [map_eq_ok_iff, readNat_eq_ok_iff]
    constructor
    · rintro ⟨m, ⟨hm, hle⟩, rfl⟩
      exact ⟨.counts hm, by simp, by simpa using hle⟩
    · rintro ⟨hn, _, hle⟩
      cases hn with
      | counts hm => exact ⟨_, ⟨hm, by omega⟩, rfl⟩
      | @minus rest _ => exact absurd ⟨rest, rfl⟩ hminus

theorem counts_text (n : Nat) : Counts (text n).toList n := by
  unfold text
  rw [String.toList_ofList]
  exact (readNat_eq_ok_iff.1 (readNat_digits (Nat.le_refl n))).1

theorem readUInt64_eq_ok_iff {n : UInt64} : readUInt64 cs = .ok n ↔ Counts cs n.toNat := by
  unfold readUInt64
  simp only [map_eq_ok_iff, readNat_eq_ok_iff]
  constructor
  · rintro ⟨m, ⟨hm, hle⟩, rfl⟩
    rwa [UInt64.toNat_ofNat_of_lt' (by simp only [UInt64.size] at *; omega)]
  · intro h
    exact ⟨n.toNat, ⟨h, Nat.le_sub_one_of_lt n.toNat_lt⟩, UInt64.ofNat_toNat⟩

theorem readUInt32_eq_ok_iff {n : UInt32} : readUInt32 cs = .ok n ↔ Counts cs n.toNat := by
  unfold readUInt32
  simp only [map_eq_ok_iff, readNat_eq_ok_iff]
  constructor
  · rintro ⟨m, ⟨hm, hle⟩, rfl⟩
    rwa [UInt32.toNat_ofNat_of_lt' (by simp only [UInt32.size] at *; omega)]
  · intro h
    exact ⟨n.toNat, ⟨h, Nat.le_sub_one_of_lt n.toNat_lt⟩, UInt32.ofNat_toNat⟩

theorem readInt32_eq_ok_iff {n : Int32} : readInt32 cs = .ok n ↔ Denotes cs n.toInt := by
  unfold readInt32
  simp only [map_eq_ok_iff, readInt_eq_ok_iff]
  constructor
  · rintro ⟨m, ⟨hm, hleast, hlimit⟩, rfl⟩
    rwa [Int32.toInt_ofInt_of_le (by omega) (by omega)]
  · intro h
    exact ⟨n.toInt, ⟨h, n.le_toInt, by have := n.toInt_lt; omega⟩, Int32.ofInt_toInt n⟩

end Decimal

theorem Pid.read_eq_ok_iff {cs : List Char} {pid : Pid} :
    Pid.read cs = .ok pid ↔ Decimal.Denotes cs pid.toInt := by
  unfold Pid.read
  simp only [map_eq_ok_iff, Decimal.readInt32_eq_ok_iff]
  constructor
  · rintro ⟨n, hn, rfl⟩
    exact hn
  · intro h
    exact ⟨pid.number, h, rfl⟩

/-- A process number is read back as it was written. -/
theorem Pid.read_text (pid : Pid) : Pid.read pid.text.toList = .ok pid := by
  have hleast : -(2147483648 : Nat) ≤ pid.toInt := pid.number.le_toInt
  have hlimit : pid.toInt ≤ (2147483647 : Nat) := pid.number.toInt_le
  unfold Pid.read Pid.text Decimal.readInt32
  rw [Decimal.readInt_signedText hleast hlimit]
  unfold Pid.toInt
  simp [Except.map]

end NamespaceAtlas
