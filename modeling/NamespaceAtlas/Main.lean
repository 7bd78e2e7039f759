-- The program on a host that is described on standard input. Without a
-- description it runs on the host with one process.
import NamespaceAtlas.Program
import NamespaceAtlas.Host.Answers
import NamespaceAtlas.Host.Description
import NamespaceAtlas.Document.Reader

open NamespaceAtlas

/-- The host that a text describes. A blank text describes a host with one process. -/
def NamespaceAtlas.Host.describedBy? (text : String) : Option Host :=
  if (trim text.toList).isEmpty then some .lone
  else (Document.read? text).bind Host.ofDocument?

/-- Runs the program, prints its answer and gives its exit status. -/
def main (words : List String) : IO UInt32 := do
  let description ← (← IO.getStdin).readToEnd
  match Host.describedBy? description with
  | none =>
    IO.eprintln "error: standard input describes no host"
    return 2
  | some host =>
    let (answer, _) := (Program.run host.kernel words).run host.machine
    IO.print answer.output
    IO.eprint answer.complaint
    return answer.status
