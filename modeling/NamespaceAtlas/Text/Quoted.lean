-- Quoted text, as messages show it: between double quotes, with an escape
-- for each character that would not show as itself.
import NamespaceAtlas.Text.Printable
import NamespaceAtlas.Number.Decimal

namespace NamespaceAtlas

namespace Quoted

/-- One character inside the quotes. -/
def escape : Char → List Char
  | '\x00' => ['\\', '0']
  | '\t' => ['\\', 't']
  | '\r' => ['\\', 'r']
  | '\n' => ['\\', 'n']
  | '\\' => ['\\', '\\']
  | '"' => ['\\', '"']
  | c =>
    if isPrintable c then [c]
    else ['\\', 'u', '\x7b'] ++ Decimal.hexDigits c.toNat ++ ['\x7d']

end Quoted

/-- A text in quotes. -/
def quoted (text : String) : String :=
  String.ofList ('"' :: text.toList.flatMap Quoted.escape ++ ['"'])

end NamespaceAtlas
