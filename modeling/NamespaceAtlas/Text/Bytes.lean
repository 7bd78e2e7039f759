-- Raw bytes and the text they spell in UTF-8. Bytes that spell no character
-- are read one of two ways: `lossy` shows a replacement character for each
-- broken run, and `text?` refuses the whole.

namespace NamespaceAtlas

/-- Raw bytes, as files and paths hold them. -/
abbrev Bytes := List UInt8

namespace Bytes

/-- The UTF-8 bytes of a text. -/
def ofText (text : String) : Bytes := text.toList.flatMap String.utf8EncodeChar

/-! ## One character -/

/-- A byte that goes on with a character begun before it. -/
def isContinuation (b : UInt8) : Bool := 0x80 ≤ b && b ≤ 0xBF

/-- What the first byte of a longer character asks of the bytes after it: the least and
the greatest second byte, how many bytes follow the second, and the bits it gives. The
limits of the second byte leave out overlong forms, surrogates and values past the last
character. -/
structure Opening where
  least : UInt8
  greatest : UInt8
  more : Nat
  bits : Nat

/-- The opening that a first byte makes, if it opens a longer character at all. -/
def opening? (first : UInt8) : Option Opening :=
  if 0xC2 ≤ first ∧ first ≤ 0xDF then some ⟨0x80, 0xBF, 0, first.toNat - 0xC0⟩
  else if first = 0xE0 then some ⟨0xA0, 0xBF, 1, 0⟩
  else if first = 0xED then some ⟨0x80, 0x9F, 1, 0x0D⟩
  else if 0xE1 ≤ first ∧ first ≤ 0xEF then some ⟨0x80, 0xBF, 1, first.toNat - 0xE0⟩
  else if first = 0xF0 then some ⟨0x90, 0xBF, 2, 0⟩
  else if 0xF1 ≤ first ∧ first ≤ 0xF3 then some ⟨0x80, 0xBF, 2, first.toNat - 0xF0⟩
  else if first = 0xF4 then some ⟨0x80, 0x8F, 2, 4⟩
  else none

/-- Reads so many continuation bytes onto a value. It stops before a byte that is none. -/
def readMore : Nat → Nat → Bytes → Option Nat × Bytes
  | 0, value, rest => (some value, rest)
  | _ + 1, _, [] => (none, [])
  | n + 1, value, b :: rest =>
    if isContinuation b then readMore n (value * 64 + (b.toNat - 0x80)) rest
    else (none, b :: rest)

/-- The character that the bytes begin with, and the bytes after it. A broken run gives
no character; it is the longest prefix that some character begins with, or one byte. -/
def readChar (first : UInt8) (rest : Bytes) : Option Char × Bytes :=
  if first < 0x80 then (some (Char.ofNat first.toNat), rest)
  else
    match opening? first, rest with
    | none, _ => (none, rest)
    | some _, [] => (none, [])
    | some o, second :: more =>
      if o.least ≤ second ∧ second ≤ o.greatest then
        let (value, after) := readMore o.more (o.bits * 64 + (second.toNat - 0x80)) more
        (value.map Char.ofNat, after)
      else (none, rest)

/-- Reading continuation bytes never gives bytes back. -/
theorem readMore_length_le (n value : Nat) (rest : Bytes) :
    (readMore n value rest).2.length ≤ rest.length := by
  fun_induction readMore n value rest with
  | case1 => simp
  | case2 => simp
  | case3 n value b rest hb ih => simp only [List.length_cons]; omega
  | case4 => simp

/-- Reading a character never gives bytes back. -/
theorem readChar_length_le (first : UInt8) (rest : Bytes) :
    (readChar first rest).2.length ≤ rest.length := by
  unfold readChar
  split
  · simp
  · split
    · simp
    · simp
    · rename_i o second more _
      split
      · have := readMore_length_le o.more (o.bits * 64 + (second.toNat - 0x80)) more
        simp only [List.length_cons]
        omega
      · simp

/-! ## The whole -/

/-- The characters that the bytes spell, `none` for each broken run. -/
def chars : Bytes → List (Option Char)
  | [] => []
  | first :: rest =>
    have := readChar_length_le first rest
    (readChar first rest).1 :: chars (readChar first rest).2
termination_by bytes => bytes.length
decreasing_by simp only [List.length_cons]; omega

/-- The text of the bytes, with a replacement character for each broken run. -/
def lossy (bytes : Bytes) : String :=
  String.ofList (bytes.chars.map (·.getD '\uFFFD'))

/-- The text of the bytes, if they are UTF-8 throughout. -/
def text? (bytes : Bytes) : Option String :=
  (bytes.chars.mapM id).map String.ofList

end Bytes

end NamespaceAtlas
