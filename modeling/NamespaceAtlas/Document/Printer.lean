-- How documents are written: in one line, or laid out over many.
import NamespaceAtlas.Document

namespace NamespaceAtlas.Document

/-! ## Texts -/

/-- Four digits to the base sixteen. -/
def fourDigits (n : Nat) : List Char :=
  [n / 4096, n / 256, n / 16, n].map fun d => Nat.digitChar (d % 16)

/-- One character inside quotes. Quotes, backslashes and control characters are escaped; all
other characters stand as they are. -/
def escape : Char → List Char
  | '"' => ['\\', '"']
  | '\\' => ['\\', '\\']
  | '\n' => ['\\', 'n']
  | '\r' => ['\\', 'r']
  | '\t' => ['\\', 't']
  | '\x08' => ['\\', 'b']
  | '\x0c' => ['\\', 'f']
  | c => if c.toNat < 0x20 then ['\\', 'u'] ++ fourDigits c.toNat else [c]

/-- A text in quotes. -/
def quote (s : String) : String := String.ofList ('"' :: s.toList.flatMap escape ++ ['"'])

/-! ## One line -/

mutual

/-- A document in one line without blanks. -/
def oneLine : Document → String
  | null => "null"
  | bool b => if b then "true" else "false"
  | int n => Decimal.signedText n
  | real spelling => spelling
  | text s => quote s
  | list l => "[" ++ ",".intercalate (lineItems l) ++ "]"
  | record fields => "\x7b" ++ ",".intercalate (lineFields fields) ++ "\x7d"

/-- The items of a list, each in one line. -/
def lineItems : List Document → List String
  | [] => []
  | d :: rest => oneLine d :: lineItems rest

/-- The fields of a record, each in one line. -/
def lineFields : List (String × Document) → List String
  | [] => []
  | (name, d) :: rest => (quote name ++ ":" ++ oneLine d) :: lineFields rest

end

/-! ## Many lines -/

/-- A line break and the blanks before what stands so deep inside. -/
def lineBreak (depth : Nat) : String := "\n" ++ String.ofList (List.replicate (2 * depth) ' ')

/-- Parts between two brackets, each on a line of its own. -/
def laidOut (opening closing : String) (depth : Nat) (parts : List String) : String :=
  if parts.isEmpty then opening ++ closing
  else
    opening ++ lineBreak (depth + 1) ++ ("," ++ lineBreak (depth + 1)).intercalate parts ++
      lineBreak depth ++ closing

mutual

/-- A document laid out over lines, two blanks for each level inside. -/
def pretty (depth : Nat) : Document → String
  | list l => laidOut "[" "]" depth (prettyItems (depth + 1) l)
  | record fields => laidOut "\x7b" "\x7d" depth (prettyFields (depth + 1) fields)
  | null => oneLine null
  | bool b => oneLine (bool b)
  | int n => oneLine (int n)
  | real spelling => oneLine (real spelling)
  | text s => oneLine (text s)

/-- The items of a list, laid out. -/
def prettyItems (depth : Nat) : List Document → List String
  | [] => []
  | d :: rest => pretty depth d :: prettyItems depth rest

/-- The fields of a record, laid out. -/
def prettyFields (depth : Nat) : List (String × Document) → List String
  | [] => []
  | (name, d) :: rest => (quote name ++ ": " ++ pretty depth d) :: prettyFields depth rest

end

end NamespaceAtlas.Document
