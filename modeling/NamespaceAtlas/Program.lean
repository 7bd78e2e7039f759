-- The program: from the words of the command line to an exit status and what
-- is printed.
import NamespaceAtlas.Command.Line

namespace NamespaceAtlas.Program

open Command.Line (Level Stop Switch)

/-- What the program leaves behind. -/
structure Answer where
  status : UInt32
  /-- What goes to standard output. -/
  output : String := ""
  /-- What goes to standard error. -/
  complaint : String := ""

/-! ## Words on usage -/

/-- What a command is for. -/
def about : Level → String
  | .top => "Linux namespace discovery"
  | .discover => "Discover namespaces and their relations"
  | .users => "Show the user namespace tree with owner names"
  | .pid => "Show the PIDs of a process in every PID namespace it is visible in"
  | .namespaces => "Show namespaces joined by a process"

/-- What the program calls itself. -/
def title : String := "nsweep"

/-- The pattern of a command. -/
def usage : Level → String
  | .top => "Usage: " ++ title ++ " [OPTIONS] <COMMAND>"
  | .pid => "Usage: " ++ title ++ " pid [OPTIONS] <PID>"
  | level => "Usage: " ++ title ++ " " ++ level.name ++ " [OPTIONS]"

/-- An option as the help shows it. -/
def optionText (s : Switch) : String :=
  "  " ++ ((s.letter?.map fun c => "-" ++ String.singleton c ++ ", ").getD "    ") ++ "--" ++
    s.long ++ if s.takesValue then " <" ++ (s.long.map Char.toUpper) ++ ">" else ""

/-- The help on a command. -/
def help (level : Level) : String :=
  let commands :=
    match level with
    | .top => "\nCommands:\n" ++
        String.join (Level.commands.map fun c => "  " ++ Report.padded 12 c.name ++ about c ++ "\n")
    | _ => ""
  about level ++ "\n\n" ++ usage level ++ "\n" ++ commands ++ "\nOptions:\n" ++
    String.join (level.switches.map fun s => optionText s ++ "\n")

/-- What is wrong with a line. -/
def complaint : Stop → String
  | .help _ | .version | .nothing => ""
  | .noCommand => "error: a command is required"
  | .unknownCommand word => "error: unrecognized command " ++ quoted word
  | .unknownArgument word => "error: unexpected argument " ++ quoted word
  | .again s => "error: --" ++ s.long ++ " cannot be used more than once"
  | .valueRefused s value => "error: unexpected value " ++ quoted value ++ " for --" ++ s.long
  | .valueMissing s => "error: a value is required for --" ++ s.long
  | .badValue s value => "error: invalid value " ++ quoted value ++ " for --" ++ s.long
  | .badOperand value => "error: invalid value " ++ quoted value ++ " for <PID>"
  | .operandMissing => "error: <PID> is required"

/-! ## Running -/

/-- The answer to a line that names no command to run. Help and version are no failures. -/
def answerStop : Stop → Answer
  | .help level => { status := 0, output := help level }
  | .version => { status := 0, output := title ++ " 0.1.0\n" }
  | .nothing => { status := 2, complaint := help .top }
  | stop => { status := 2, complaint := complaint stop ++ "\n\n" ++ usage .top ++ "\n" }

/-- The answer to a command that was run. -/
def answerOutcome (o : Command.Outcome) : Answer :=
  match o.failure with
  | none => { status := 0, output := o.output }
  | some why => { status := 1, output := o.output, complaint := "❌ Error: " ++ why.message ++ "\n" }

/-- Runs the program. -/
def run {σ φ : Type} (k : Kernel σ φ) (words : List String) : StateM σ Answer := do
  match Command.Line.read words with
  | .error stop => return answerStop stop
  | .ok invocation => return answerOutcome (← invocation.command.run k)

end NamespaceAtlas.Program
