-- How documents are read. A scan parts the text into tokens, one character
-- at a time, and a machine with a stack of unfinished lists and records
-- builds the document, one token at a time.
import NamespaceAtlas.Document

namespace NamespaceAtlas.Document

/-! ## Tokens -/

/-- A token. -/
inductive Token where
  | openList
  | closeList
  | openRecord
  | closeRecord
  | comma
  | colon
  | scalar (d : Document)
  deriving Repr

/-- The token that a single character is. -/
def punctuation? : Char → Option Token
  | '[' => some .openList
  | ']' => some .closeList
  | '\x7b' => some .openRecord
  | '\x7d' => some .closeRecord
  | ',' => some .comma
  | ':' => some .colon
  | _ => none

/-- The blanks between tokens. -/
def isSpace (c : Char) : Bool := c == ' ' || c == '\n' || c == '\r' || c == '\t'

/-! ## Numbers -/

/-- Whether there are digits and nothing else. -/
def areDigits (cs : List Char) : Bool := !cs.isEmpty && cs.all Char.isDigit

/-- Whether digits may stand before a fraction: no zero stands in front of others. -/
def isWhole (cs : List Char) : Bool := areDigits cs && (cs.head? != some '0' || cs.length == 1)

/-- Whether an exponent may stand after its letter. -/
def isExponent : List Char → Bool
  | '+' :: cs => areDigits cs
  | '-' :: cs => areDigits cs
  | cs => areDigits cs

/-- Whether this may stand after the whole digits of a number. -/
def isTail (cs : List Char) : Bool :=
  let afterFraction :=
    match cs with
    | '.' :: rest =>
      if (rest.takeWhile Char.isDigit).isEmpty then none else some (rest.dropWhile Char.isDigit)
    | _ => some cs
  match afterFraction with
  | none => false
  | some [] => true
  | some (c :: rest) => (c == 'e' || c == 'E') && isExponent rest

/-- The number that a word without a sign spells. -/
def unsigned? (cs : List Char) : Option (Nat ⊕ Unit) :=
  let whole := cs.takeWhile Char.isDigit
  let tail := cs.dropWhile Char.isDigit
  if !isWhole whole || !isTail tail then none
  else if tail.isEmpty then
    (whole.foldlM (fun n c => (Decimal.digit? c).map (n * 10 + ·)) 0).map Sum.inl
  else some (.inr ())

/-- The number that a word spells. A negative zero is no whole number. -/
def number? (cs : List Char) : Option Document :=
  match cs with
  | '-' :: rest =>
    match unsigned? rest with
    | some (.inl 0) | some (.inr ()) => some (real (String.ofList cs))
    | some (.inl n) => some (int (-n))
    | none => none
  | _ =>
    match unsigned? cs with
    | some (.inl n) => some (int n)
    | some (.inr ()) => some (real (String.ofList cs))
    | none => none

/-- The document that a bare word is. -/
def word? (cs : List Char) : Option Document :=
  if cs = "null".toList then some null
  else if cs = "true".toList then some (bool true)
  else if cs = "false".toList then some (bool false)
  else number? cs

/-! ## Texts -/

/-- A mark in a quoted text: a character, or a unit of 16 bits given by its number. -/
inductive Mark where
  | char (c : Char)
  | unit (n : Nat)

/-- The character of two units that belong together. -/
def paired? (high low : Nat) : Option Char :=
  if 0xD800 ≤ high ∧ high ≤ 0xDBFF ∧ 0xDC00 ≤ low ∧ low ≤ 0xDFFF then
    some (Char.ofNat (0x10000 + (high - 0xD800) * 0x400 + (low - 0xDC00)))
  else none

/-- The character of a unit that stands alone. -/
def single? (n : Nat) : Option Char :=
  if 0xD800 ≤ n ∧ n ≤ 0xDFFF then none else some (Char.ofNat n)

/-- The text of marks. Half of a pair alone gives no text. -/
def textOf? : List Mark → Option (List Char)
  | [] => some []
  | .char c :: rest => (textOf? rest).map (c :: ·)
  | [.unit n] => (single? n).map ([·])
  | .unit n :: .unit m :: rest =>
    match paired? n m with
    | some c => (textOf? rest).map (c :: ·)
    | none => do return (← single? n) :: (← textOf? (.unit m :: rest))
  | .unit n :: .char c :: rest => do return (← single? n) :: c :: (← textOf? rest)

/-- The character of an escape of one letter. -/
def escaped? : Char → Option Char
  | '"' => some '"'
  | '\\' => some '\\'
  | '/' => some '/'
  | 'b' => some '\x08'
  | 'f' => some '\x0c'
  | 'n' => some '\n'
  | 'r' => some '\r'
  | 't' => some '\t'
  | _ => none

/-- The value of a digit to the base sixteen. -/
def hexDigit? (c : Char) : Option Nat :=
  if '0' ≤ c ∧ c ≤ '9' then some (c.toNat - 48)
  else if 'a' ≤ c ∧ c ≤ 'f' then some (c.toNat - 87)
  else if 'A' ≤ c ∧ c ≤ 'F' then some (c.toNat - 55)
  else none

/-! ## The scan -/

/-- Where the scan is. Marks and characters are held last first. -/
inductive Place where
  | between
  | inWord (cs : List Char)
  | inText (marks : List Mark)
  | inEscape (marks : List Mark)
  | inUnit (marks : List Mark) (digits value : Nat)

/-- The scan so far, tokens last first. -/
structure Scan where
  tokens : List Token
  place : Place

namespace Scan

/-- Goes on after a token. -/
def push (s : Scan) (t : Token) : Scan := ⟨t :: s.tokens, .between⟩

/-- Takes a character between two tokens. -/
def begin (s : Scan) (c : Char) : Option Scan :=
  if isSpace c then some { s with place := .between }
  else if c = '"' then some { s with place := .inText [] }
  else
    match punctuation? c with
    | some t => some (s.push t)
    | none => some { s with place := .inWord [c] }

/-- Ends a word. -/
def endWord (s : Scan) (cs : List Char) : Option Scan :=
  (word? cs.reverse).map fun d => s.push (.scalar d)

/-- Whether a character ends a word. -/
def endsWord (c : Char) : Bool := isSpace c || c == '"' || (punctuation? c).isSome

/-- Takes one character. -/
def step (s : Scan) (c : Char) : Option Scan :=
  match s.place with
  | .between => s.begin c
  | .inWord cs =>
    if endsWord c then (s.endWord cs).bind (·.begin c)
    else some { s with place := .inWord (c :: cs) }
  | .inText marks =>
    if c = '"' then (textOf? marks.reverse).map fun cs => s.push (.scalar (text (String.ofList cs)))
    else if c = '\\' then some { s with place := .inEscape marks }
    else if c.toNat < 0x20 then none
    else some { s with place := .inText (.char c :: marks) }
  | .inEscape marks =>
    if c = 'u' then some { s with place := .inUnit marks 0 0 }
    else (escaped? c).map fun e => { s with place := .inText (.char e :: marks) }
  | .inUnit marks digits value =>
    (hexDigit? c).map fun d =>
      if digits = 3 then { s with place := .inText (.unit (value * 16 + d) :: marks) }
      else { s with place := .inUnit marks (digits + 1) (value * 16 + d) }

/-- Ends the scan. -/
def finish (s : Scan) : Option (List Token) :=
  match s.place with
  | .between => some s.tokens.reverse
  | .inWord cs => (s.endWord cs).map (·.tokens.reverse)
  | _ => none

end Scan

/-- The tokens of a text. -/
def tokens? (cs : List Char) : Option (List Token) :=
  (cs.foldlM Scan.step ⟨[], .between⟩).bind Scan.finish

/-! ## The machine -/

/-- A list or a record that is not finished, last part first. A record also holds the name
whose value comes next. -/
inductive Frame where
  | list (done : List Document)
  | record (done : List (String × Document)) (name : String)

/-- What may come next. -/
inductive Turn where
  /-- A value. -/
  | value
  /-- A value, or the end of a list that has none yet. -/
  | firstItem
  /-- A name. -/
  | name
  /-- A name, or the end of a record that has none yet. -/
  | firstName
  | colon
  /-- A comma or an end; this value is complete. -/
  | after (d : Document)

/-- The machine: the unfinished lists and records, innermost first, and its turn. -/
structure Machine where
  frames : List Frame
  turn : Turn

namespace Machine

/-- Takes the first token of a value. -/
def beginValue (frames : List Frame) : Token → Option Machine
  | .scalar d => some ⟨frames, .after d⟩
  | .openList => some ⟨.list [] :: frames, .firstItem⟩
  | .openRecord => some ⟨.record [] "" :: frames, .firstName⟩
  | _ => none

/-- Takes a name. -/
def beginField (frames : List Frame) (t : Token) : Option Machine :=
  match frames, t with
  | .record done _ :: frames, .scalar (.text name) => some ⟨.record done name :: frames, .colon⟩
  | _, _ => none

/-- Takes a token after a complete value. -/
def goOn (frames : List Frame) (d : Document) (t : Token) : Option Machine :=
  match frames, t with
  | .list done :: frames, .comma => some ⟨.list (d :: done) :: frames, .value⟩
  | .list done :: frames, .closeList => some ⟨frames, .after (.list (d :: done).reverse)⟩
  | .record done name :: frames, .comma => some ⟨.record ((name, d) :: done) "" :: frames, .name⟩
  | .record done name :: frames, .closeRecord =>
    some ⟨frames, .after (.record ((name, d) :: done).reverse)⟩
  | _, _ => none

/-- Takes one token. -/
def step (m : Machine) (t : Token) : Option Machine :=
  match m.turn, m.frames, t with
  | .firstItem, .list _ :: frames, .closeList => some ⟨frames, .after (.list [])⟩
  | .firstName, .record .. :: frames, .closeRecord => some ⟨frames, .after (.record [])⟩
  | .firstItem, frames, t | .value, frames, t => beginValue frames t
  | .firstName, frames, t | .name, frames, t => beginField frames t
  | .colon, frames, .colon => some ⟨frames, .value⟩
  | .colon, _, _ => none
  | .after d, frames, t => goOn frames d t

/-- The document, if it is complete. -/
def finish (m : Machine) : Option Document :=
  match m.turn, m.frames with
  | .after d, [] => some d
  | _, _ => none

end Machine

/-- The document that a text writes down. -/
def read? (s : String) : Option Document := do
  let tokens ← tokens? s.toList
  let m ← tokens.foldlM Machine.step ⟨[], .value⟩
  m.finish

end NamespaceAtlas.Document
