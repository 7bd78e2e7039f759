-- UTF-8 read back. The bytes of a text spell this text and nothing else: each
-- character opens with a byte of its length, and the bytes that go on with it
-- are within the limits that its opening sets. No other bytes spell a text.
import NamespaceAtlas.Text.Bytes

namespace NamespaceAtlas.Bytes

deriving instance DecidableEq for Opening

variable {rest : Bytes} {i j k : Nat}

/-! ## Openings -/

theorem toNat_ofNat {n : Nat} (h : n < 256) : (UInt8.ofNat n).toNat = n :=
  UInt8.toNat_ofNat_of_lt' h

/-- The opening of a character of two bytes. -/
theorem opening?_two : ∀ k < 32, 2 ≤ k →
    opening? (UInt8.ofNat (k + 192)) = some ⟨0x80, 0xBF, 0, k⟩ := by
  decide

/-- The opening of a character of three bytes. Small values and surrogates are left out. -/
theorem opening?_three : ∀ k < 16, opening? (UInt8.ofNat (k + 224)) =
    some ⟨if k = 0 then 0xA0 else 0x80, if k = 13 then 0x9F else 0xBF, 1, k⟩ := by
  decide

/-- The opening of a character of four bytes. Small values and great ones are left out. -/
theorem opening?_four : ∀ k < 5, opening? (UInt8.ofNat (k + 240)) =
    some ⟨if k = 0 then 0x90 else 0x80, if k = 4 then 0x8F else 0xBF, 2, k⟩ := by
  decide

theorem isContinuation_ofNat : ∀ k < 64, isContinuation (UInt8.ofNat (k + 128)) = true := by
  decide

theorem readMore_append (n value : Nat) (hk : k < 64) :
    readMore (n + 1) value (UInt8.ofNat (k + 128) :: rest) = readMore n (value * 64 + k) rest := by
  rw [readMore, if_pos (isContinuation_ofNat k hk), toNat_ofNat (by omega), Nat.add_sub_cancel]

/-- A second byte within the limits of the opening is taken. -/
theorem readChar_of_opening? {first : UInt8} {o : Opening} (ho : opening? first = some o)
    (hk : k < 64) (hleast : o.least.toNat ≤ k + 128) (hgreatest : k + 128 ≤ o.greatest.toNat) :
    readChar first (UInt8.ofNat (k + 128) :: rest) =
      ((readMore o.more (o.bits * 64 + k) rest).1.map Char.ofNat,
        (readMore o.more (o.bits * 64 + k) rest).2) := by
  have hnat : (UInt8.ofNat (k + 128)).toNat = k + 128 := toNat_ofNat (by omega)
  have hlong : ¬ first < 0x80 := by
    intro hlt
    have hnone : ∀ n < 128, opening? (UInt8.ofNat n) = none := by decide
    have hfirst := hnone first.toNat (UInt8.lt_iff_toNat_lt.1 hlt)
    rw [UInt8.ofNat_toNat, ho] at hfirst
    cases hfirst
  unfold readChar
  rw [if_neg hlong, ho]
  dsimp only
  rw [if_pos ⟨by rwa [UInt8.le_iff_toNat_le, hnat], by rwa [UInt8.le_iff_toNat_le, hnat]⟩, hnat,
    Nat.add_sub_cancel]

/-! ## Characters -/

/-- A character is read back from its bytes, whatever comes after them. -/
theorem readChar_utf8EncodeChar (c : Char) (rest : Bytes) :
    ∃ first more, String.utf8EncodeChar c = first :: more ∧
      readChar first (more ++ rest) = (some c, rest) := by
  have hc : Char.ofNat c.toNat = c := Char.ofNat_toNat c
  have hvalid : c.toNat.isValidChar := c.valid
  generalize hv : c.toNat = v at hc hvalid
  have hv : c.val.toNat = v := hv
  unfold String.utf8EncodeChar
  simp only [hv]
  split
  · rename_i hshort
    have hnat : (UInt8.ofNat v).toNat = v := toNat_ofNat (by omega)
    have hlt : UInt8.ofNat v < 0x80 := by
      rw [UInt8.lt_iff_toNat_lt, hnat]
      exact Nat.lt_succ_of_le hshort
    refine ⟨_, _, rfl, ?_⟩
    unfold readChar
    rw [if_pos hlt, hnat, hc]
    rfl
  split
  · have hvalue : v / 64 % 32 * 64 + v % 64 = v := by omega
    refine ⟨_, _, rfl, ?_⟩
    rw [List.singleton_append, readChar_of_opening? (opening?_two _ (by omega) (by omega))
      (by omega) (by simp) (by simp; omega), hvalue, readMore, Option.map_some, hc]
  split
  · have hvalue : (v / 4096 % 16 * 64 + v / 64 % 64) * 64 + v % 64 = v := by omega
    refine ⟨_, _, rfl, ?_⟩
    rw [List.cons_append, List.singleton_append,
      readChar_of_opening? (opening?_three _ (by omega)) (by omega) ?_ ?_,
      readMore_append _ _ (by omega), hvalue, readMore, Option.map_some, hc]
    -- Below the least second byte the value would fit two bytes; above the greatest are surrogates.
    · dsimp only
      split
      · change 160 ≤ v / 64 % 64 + 128
        omega
      · exact Nat.le_add_left _ _
    · dsimp only
      split
      · change v / 64 % 64 + 128 ≤ 159
        omega
      · change v / 64 % 64 + 128 ≤ 191
        omega
  · have hvalue : ((v / 262144 % 8 * 64 + v / 4096 % 64) * 64 + v / 64 % 64) * 64 + v % 64 = v := by
      omega
    refine ⟨_, _, rfl, ?_⟩
    rw [List.cons_append, List.cons_append, List.singleton_append,
      readChar_of_opening? (opening?_four _ (by omega)) (by omega) ?_ ?_,
      readMore_append _ _ (by omega), readMore_append _ _ (by omega), hvalue, readMore,
      Option.map_some, hc]
    -- Below the least the value would fit three bytes; above the greatest there is no character.
    · dsimp only
      split
      · change 144 ≤ v / 4096 % 64 + 128
        omega
      · exact Nat.le_add_left _ _
    · dsimp only
      split
      · change v / 4096 % 64 + 128 ≤ 143
        omega
      · change v / 4096 % 64 + 128 ≤ 191
        omega

/-! ## Nothing else is read -/

/-- A byte that opens a longer character opens one of two, of three, or of four bytes. -/
theorem exists_of_opening? {first : UInt8} {o : Opening} (ho : opening? first = some o) :
    (∃ k < 32, 2 ≤ k ∧ first = UInt8.ofNat (k + 192)) ∨
      (∃ k < 16, first = UInt8.ofNat (k + 224)) ∨ ∃ k < 5, first = UInt8.ofNat (k + 240) := by
  have hrange : ∀ n < 256, (opening? (UInt8.ofNat n)).isSome = true → 194 ≤ n ∧ n < 245 := by
    decide +kernel
  obtain ⟨hlow, hhigh⟩ := hrange first.toNat first.toNat_lt (by simp [ho])
  have hfirst : ∀ m, m ≤ first.toNat → first = UInt8.ofNat (first.toNat - m + m) := by
    intro m hm
    rw [Nat.sub_add_cancel hm, UInt8.ofNat_toNat]
  by_cases htwo : first.toNat < 224
  · exact Or.inl ⟨first.toNat - 192, by omega, by omega, hfirst 192 (by omega)⟩
  · by_cases hthree : first.toNat < 240
    · exact Or.inr (Or.inl ⟨first.toNat - 224, by omega, hfirst 224 (by omega)⟩)
    · exact Or.inr (Or.inr ⟨first.toNat - 240, by omega, hfirst 240 (by omega)⟩)

theorem exists_of_isContinuation {b : UInt8} (h : isContinuation b = true) :
    ∃ k < 64, b = UInt8.ofNat (k + 128) := by
  unfold isContinuation at h
  simp only [Bool.and_eq_true, decide_eq_true_eq, UInt8.le_iff_toNat_le] at h
  obtain ⟨hlow, hhigh⟩ : 128 ≤ b.toNat ∧ b.toNat ≤ 191 := h
  exact ⟨b.toNat - 128, by omega, by rw [Nat.sub_add_cancel hlow, UInt8.ofNat_toNat]⟩

/-- What is read of one more byte. -/
theorem exists_of_readMore {n value v : Nat} {bytes after : Bytes}
    (h : readMore (n + 1) value bytes = (some v, after)) :
    ∃ k < 64, ∃ rest, bytes = UInt8.ofNat (k + 128) :: rest ∧
      readMore n (value * 64 + k) rest = (some v, after) := by
  cases bytes with
  | nil => simp [readMore] at h
  | cons b rest =>
    by_cases hb : isContinuation b = true
    · obtain ⟨k, hk, rfl⟩ := exists_of_isContinuation hb
      rw [readMore_append n value hk] at h
      exact ⟨k, hk, rest, rfl, h⟩
    · simp [readMore, hb] at h

/-- The limits of the second byte are within those of every byte that goes on with a character. -/
theorem limits_of_opening? {first : UInt8} {o : Opening} (ho : opening? first = some o) :
    128 ≤ o.least.toNat ∧ o.greatest.toNat ≤ 191 := by
  have hall : ∀ n < 256, (opening? (UInt8.ofNat n)).all
      (fun o => 128 ≤ o.least.toNat ∧ o.greatest.toNat ≤ 191) = true := by
    decide +kernel
  have hfirst := hall first.toNat first.toNat_lt
  rw [UInt8.ofNat_toNat, ho] at hfirst
  exact of_decide_eq_true hfirst

/-- A character that is read of more than one byte. -/
theorem exists_of_readChar {first : UInt8} {bytes after : Bytes} {c : Char}
    (hlong : ¬ first < 0x80) (h : readChar first bytes = (some c, after)) :
    ∃ o, opening? first = some o ∧ ∃ k < 64, ∃ rest, bytes = UInt8.ofNat (k + 128) :: rest ∧
      (o.least.toNat ≤ k + 128 ∧ k + 128 ≤ o.greatest.toNat) ∧
      ∃ v, readMore o.more (o.bits * 64 + k) rest = (some v, after) ∧ c = Char.ofNat v := by
  unfold readChar at h
  rw [if_neg hlong] at h
  split at h
  · cases h
  · cases h
  · rename_i o second rest ho
    split at h
    · rename_i hsecond
      obtain ⟨hleast, hgreatest⟩ := hsecond
      rw [UInt8.le_iff_toNat_le] at hleast hgreatest
      obtain ⟨hlow, hhigh⟩ := limits_of_opening? ho
      have hnat : second.toNat - 128 + 128 = second.toNat := by omega
      obtain ⟨hvalue, hafter⟩ := Prod.mk.inj h
      obtain ⟨v, hv, hc⟩ := Option.map_eq_some_iff.1 hvalue
      refine ⟨o, ho, second.toNat - 128, by omega, rest, ?_, by omega, v, ?_, hc.symm⟩
      · rw [hnat, UInt8.ofNat_toNat]
      · exact Prod.ext hv hafter
    · cases h

theorem toNat_ofNat_of_isValidChar {v : Nat} (h : v.isValidChar) :
    (Char.ofNat v).val.toNat = v := by
  unfold Char.ofNat
  rw [dif_pos h]
  rfl

theorem utf8EncodeChar_two (hk : k < 32) (hk2 : 2 ≤ k) (hj : j < 64) :
    String.utf8EncodeChar (Char.ofNat (k * 64 + j)) =
      [UInt8.ofNat (k + 192), UInt8.ofNat (j + 128)] := by
  have hv := toNat_ofNat_of_isValidChar (v := k * 64 + j) (Or.inl (by omega))
  have hfirst : (k * 64 + j) / 64 % 32 = k := by omega
  have hsecond : (k * 64 + j) % 64 = j := by omega
  unfold String.utf8EncodeChar
  simp only [hv]
  rw [if_neg (by omega), if_pos (by omega), hfirst, hsecond]

/-- With a greater second byte there would be a surrogate, and with a less one fewer bytes. -/
theorem utf8EncodeChar_three (hk : k < 16) (hj : j < 64) (hi : i < 64) (hleast : k = 0 → 32 ≤ j)
    (hgreatest : k = 13 → j < 32) :
    String.utf8EncodeChar (Char.ofNat ((k * 64 + j) * 64 + i)) =
      [UInt8.ofNat (k + 224), UInt8.ofNat (j + 128), UInt8.ofNat (i + 128)] := by
  have hvalid : ((k * 64 + j) * 64 + i).isValidChar := by
    unfold Nat.isValidChar
    omega
  have hv := toNat_ofNat_of_isValidChar hvalid
  have hfirst : ((k * 64 + j) * 64 + i) / 4096 % 16 = k := by omega
  have hsecond : ((k * 64 + j) * 64 + i) / 64 % 64 = j := by omega
  have hthird : ((k * 64 + j) * 64 + i) % 64 = i := by omega
  unfold String.utf8EncodeChar
  simp only [hv]
  rw [if_neg (by omega), if_neg (by omega), if_pos (by omega), hfirst, hsecond, hthird]

/-- With a greater second byte there would be no character, and with a less one fewer bytes. -/
theorem utf8EncodeChar_four {m : Nat} (hk : k < 5) (hj : j < 64) (hi : i < 64) (hm : m < 64)
    (hleast : k = 0 → 16 ≤ j) (hgreatest : k = 4 → j < 16) :
    String.utf8EncodeChar (Char.ofNat (((k * 64 + j) * 64 + i) * 64 + m)) =
      [UInt8.ofNat (k + 240), UInt8.ofNat (j + 128), UInt8.ofNat (i + 128),
        UInt8.ofNat (m + 128)] := by
  have hvalid : (((k * 64 + j) * 64 + i) * 64 + m).isValidChar := by
    unfold Nat.isValidChar
    omega
  have hv := toNat_ofNat_of_isValidChar hvalid
  have hfirst : (((k * 64 + j) * 64 + i) * 64 + m) / 262144 % 8 = k := by omega
  have hsecond : (((k * 64 + j) * 64 + i) * 64 + m) / 4096 % 64 = j := by omega
  have hthird : (((k * 64 + j) * 64 + i) * 64 + m) / 64 % 64 = i := by omega
  have hfourth : (((k * 64 + j) * 64 + i) * 64 + m) % 64 = m := by omega
  unfold String.utf8EncodeChar
  simp only [hv]
  rw [if_neg (by omega), if_neg (by omega), if_neg (by omega), hfirst, hsecond, hthird, hfourth]

/-- What is read as a character is the bytes of it. -/
theorem utf8EncodeChar_of_readChar {first : UInt8} {bytes after : Bytes} {c : Char}
    (h : readChar first bytes = (some c, after)) :
    first :: bytes = String.utf8EncodeChar c ++ after := by
  by_cases hshort : first < 0x80
  · unfold readChar at h
    rw [if_pos hshort] at h
    cases h
    have hlt : first.toNat < 128 := UInt8.lt_iff_toNat_lt.1 hshort
    have hv := toNat_ofNat_of_isValidChar (v := first.toNat) (Or.inl (by omega))
    unfold String.utf8EncodeChar
    simp only [hv]
    rw [if_pos (by omega), UInt8.ofNat_toNat, List.singleton_append]
  · obtain ⟨o, ho, j, hj, rest, rfl, ⟨hleast, hgreatest⟩, v, hread, rfl⟩ :=
      exists_of_readChar hshort h
    rcases exists_of_opening? ho with ⟨k, hk, hk2, rfl⟩ | ⟨k, hk, rfl⟩ | ⟨k, hk, rfl⟩
    · rw [opening?_two k hk hk2] at ho
      cases ho
      simp only [readMore, Prod.mk.injEq, Option.some.injEq] at hread
      obtain ⟨rfl, rfl⟩ := hread
      rw [utf8EncodeChar_two hk hk2 hj]
      rfl
    · rw [opening?_three k hk] at ho
      cases ho
      obtain ⟨i, hi, rest, rfl, hlast⟩ := exists_of_readMore hread
      simp only [readMore, Prod.mk.injEq, Option.some.injEq] at hlast
      obtain ⟨rfl, rfl⟩ := hlast
      rw [utf8EncodeChar_three hk hj hi]
      · rfl
      · rintro rfl
        change 160 ≤ j + 128 at hleast
        omega
      · rintro rfl
        change j + 128 ≤ 159 at hgreatest
        omega
    · rw [opening?_four k hk] at ho
      cases ho
      obtain ⟨i, hi, rest, rfl, hmore⟩ := exists_of_readMore hread
      obtain ⟨m, hm, rest, rfl, hlast⟩ := exists_of_readMore hmore
      simp only [readMore, Prod.mk.injEq, Option.some.injEq] at hlast
      obtain ⟨rfl, rfl⟩ := hlast
      rw [utf8EncodeChar_four hk hj hi hm]
      · rfl
      · rintro rfl
        change 144 ≤ j + 128 at hleast
        omega
      · rintro rfl
        change j + 128 ≤ 143 at hgreatest
        omega

/-! ## Texts -/

theorem chars_ofText (text : String) : chars (ofText text) = text.toList.map some := by
  unfold ofText
  induction text.toList with
  | nil =>
    unfold chars
    rfl
  | cons c cs ih =>
    obtain ⟨first, more, hbytes, hread⟩ := readChar_utf8EncodeChar c (cs.flatMap String.utf8EncodeChar)
    rw [List.flatMap_cons, hbytes, List.cons_append, chars, hread, ih, List.map_cons]

/-- A text is what its bytes spell. -/
theorem text?_ofText (text : String) : text? (ofText text) = some text := by
  have hall : ∀ l : List Char, (l.map some).mapM id = some l := by
    intro l
    induction l with
    | nil => rfl
    | cons c rest ih => simp [ih]
  unfold text?
  rw [chars_ofText, hall, Option.map_some, String.ofList_toList]

theorem ofText_injective {a b : String} (h : ofText a = ofText b) : a = b :=
  Option.some.inj ((text?_ofText a).symm.trans (h ▸ text?_ofText b))

theorem eq_of_chars {bytes : Bytes} {cs : List Char} (h : bytes.chars.mapM id = some cs) :
    bytes = cs.flatMap String.utf8EncodeChar := by
  induction bytes using chars.induct generalizing cs with
  | case1 =>
    unfold chars at h
    cases h
    rfl
  | case2 first rest _ ih =>
    unfold chars at h
    obtain ⟨c, hc, h⟩ := Option.bind_eq_some_iff.1 (List.mapM_cons.symm.trans h)
    obtain ⟨more, hmore, h⟩ := Option.bind_eq_some_iff.1 h
    cases h
    rw [utf8EncodeChar_of_readChar (Prod.ext hc rfl), List.flatMap_cons, ← ih hmore]

/-- Bytes are a text exactly if they are the bytes of it. -/
theorem text?_eq_some_iff {bytes : Bytes} {text : String} :
    text? bytes = some text ↔ bytes = ofText text := by
  constructor
  · intro h
    obtain ⟨cs, hcs, rfl⟩ := Option.map_eq_some_iff.1 h
    unfold ofText
    rw [String.toList_ofList]
    exact eq_of_chars hcs
  · rintro rfl
    exact text?_ofText text

/-- A text is shown as it is. -/
theorem lossy_ofText (text : String) : lossy (ofText text) = text := by
  unfold lossy
  rw [chars_ofText, List.map_map]
  change String.ofList (text.toList.map id) = text
  rw [List.map_id, String.ofList_toList]

/-- The bytes of a longer character are none of a shorter one. -/
theorem toNat_of_mem_utf8EncodeChar {c : Char} {b : UInt8} (hb : b.toNat < 128)
    (h : b ∈ String.utf8EncodeChar c) : c.toNat = b.toNat := by
  have hlong : ∀ k m, b = UInt8.ofNat (k + m) → 128 ≤ m → k + m < 256 → False := by
    rintro k m rfl hm hkm
    rw [toNat_ofNat hkm] at hb
    omega
  unfold String.utf8EncodeChar at h
  simp only at h
  split at h
  · rename_i hshort
    rw [List.mem_singleton.1 h, toNat_ofNat (by omega)]
    rfl
  split at h
  · simp only [List.mem_cons, List.not_mem_nil, or_false] at h
    rcases h with h | h <;> exact (hlong _ _ h (by omega) (by omega)).elim
  split at h
  · simp only [List.mem_cons, List.not_mem_nil, or_false] at h
    rcases h with h | h | h <;> exact (hlong _ _ h (by omega) (by omega)).elim
  · simp only [List.mem_cons, List.not_mem_nil, or_false] at h
    rcases h with h | h | h | h <;> exact (hlong _ _ h (by omega) (by omega)).elim

/-- A byte of a character that takes no other is in the bytes only if the character is in the
text. -/
theorem mem_of_mem_ofText {text : String} {b : UInt8} (hb : b.toNat < 128)
    (h : b ∈ ofText text) : Char.ofNat b.toNat ∈ text.toList := by
  obtain ⟨c, hc, hbc⟩ := List.mem_flatMap.1 h
  rw [← toNat_of_mem_utf8EncodeChar hb hbc, Char.ofNat_toNat]
  exact hc

end NamespaceAtlas.Bytes
