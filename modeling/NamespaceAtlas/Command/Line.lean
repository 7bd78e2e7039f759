-- The command line: which words it takes, and what they ask for. Words are
-- read from the left; the value of an option is looked at when the next
-- option is known or the line ends.
import NamespaceAtlas.Command

namespace NamespaceAtlas.Command.Line

/-! ## Options -/

/-- An option. -/
inductive Switch where
  | help
  | version
  | verbose
  | json
  | types
  | noProcesses
  | noFds
  | noBindMounts
  | noHierarchy
  | noOwnership
  | mounts
  | timeout
  | sandboxTimeout
  | pid
  deriving DecidableEq, Repr

namespace Switch

/-- The name after two dashes. -/
def long : Switch → String
  | help => "help"
  | version => "version"
  | verbose => "verbose"
  | json => "json"
  | types => "types"
  | noProcesses => "no-processes"
  | noFds => "no-fds"
  | noBindMounts => "no-bind-mounts"
  | noHierarchy => "no-hierarchy"
  | noOwnership => "no-ownership"
  | mounts => "mounts"
  | timeout => "timeout"
  | sandboxTimeout => "sandbox-timeout"
  | pid => "pid"

/-- The letter after one dash. -/
def letter? : Switch → Option Char
  | help => some 'h'
  | version => some 'V'
  | verbose => some 'v'
  | pid => some 'p'
  | _ => none

/-- Whether a value follows. -/
def takesValue : Switch → Bool
  | types | timeout | sandboxTimeout | pid => true
  | _ => false

/-- Whether it may be given more than once, each time with more values. -/
def collects : Switch → Bool
  | types => true
  | _ => false

end Switch

/-- The name of a command, or the line before one. -/
inductive Level where
  | top
  | discover
  | users
  | pid
  | namespaces
  deriving DecidableEq, Repr

namespace Level

/-- The commands. -/
def commands : List Level := [discover, users, pid, namespaces]

/-- The word for a command. No word stands for the line before one. -/
def name : Level → String
  | top => ""
  | discover => "discover"
  | users => "users"
  | pid => "pid"
  | namespaces => "namespaces"

/-- The command of a name. -/
def ofName? (name : String) : Option Level := commands.find? (·.name == name)

/-- The options that a command has. -/
def switches : Level → List Switch
  | top => [.verbose, .help, .version]
  | discover => [.json, .types, .noProcesses, .noFds, .noBindMounts, .noHierarchy, .noOwnership,
    .mounts, .timeout, .verbose, .help]
  | users => [.sandboxTimeout, .verbose, .help]
  | pid => [.verbose, .help]
  | namespaces => [.pid, .verbose, .help]

/-- Whether a word that is no option may stand in the line. -/
def takesOperand : Level → Bool
  | pid => true
  | _ => false

end Level

/-! ## What may be wrong -/

/-- Why a line names no command to run. Help and version are asked for by the line itself. -/
inductive Stop where
  | help (level : Level)
  | version
  /-- Nothing was given at all. -/
  | nothing
  | noCommand
  | unknownCommand (word : String)
  | unknownArgument (word : String)
  /-- An option was given again. -/
  | again (s : Switch)
  /-- A value was given to an option that takes none. -/
  | valueRefused (s : Switch) (value : String)
  | valueMissing (s : Switch)
  | badValue (s : Switch) (value : String)
  | badOperand (value : String)
  | operandMissing
  deriving DecidableEq, Repr

/-! ## Values -/

/-- What an option or an operand gives. -/
inductive Value where
  | on
  | number (n : UInt64)
  | species (l : List Species)
  | pid (p : Pid)
  deriving DecidableEq

/-- The value that a word gives to an option. -/
def Switch.value? (s : Switch) (word : String) : Option Value :=
  match s with
  | types => (((pieces (· == ',') word.toList).mapM fun name =>
      Species.ofName? (String.ofList name))).map .species
  | timeout | sandboxTimeout => (Decimal.readUInt64 word.toList).toOption.map .number
  | pid => (Pid.read word.toList).toOption.map .pid
  | _ => none

/-- What was read but not looked at yet. -/
inductive Pending where
  | nothing
  | option (s : Switch) (value : Option String)
  | operand (value : String)
  deriving DecidableEq

/-- What a line has given so far. -/
structure Reading where
  options : List (Switch × Value) := []
  operand : Option Pid := none
  pending : Pending := .nothing

namespace Reading

/-- Takes an option with its value. -/
def give (r : Reading) (s : Switch) (value : Value) : Reading :=
  { r with options := r.options ++ [(s, value)] }

/-- Whether an option was given. -/
def has (r : Reading) (s : Switch) : Bool := r.options.any (·.1 == s)

/-- Takes an option with a word for its value. -/
def giveWord (r : Reading) (s : Switch) (word : String) : Except Stop Reading :=
  if r.has s && !s.collects then .error (.again s)
  else
    match s.value? word with
    | some value => .ok (r.give s value)
    | none => .error (.badValue s word)

/-- Looks at what is pending. -/
def settle (r : Reading) : Except Stop Reading :=
  match r.pending with
  | .nothing => .ok r
  | .option s none => .error (.valueMissing s)
  | .option s (some word) => { r with pending := .nothing }.giveWord s word
  | .operand word =>
    match Pid.read word.toList with
    | .ok p => .ok { r with operand := some p, pending := .nothing }
    | .error _ => .error (.badOperand word)

/-- Whether an operand was read. -/
def hasOperand (r : Reading) : Bool :=
  r.operand.isSome || match r.pending with
    | .operand _ => true
    | _ => false

end Reading

/-! ## Single words -/

variable (level : Level)

/-- Takes an option without a value. -/
def takeFlag (r : Reading) (s : Switch) : Except Stop Reading := do
  let r ← r.settle
  match s with
  | .help => throw (.help level)
  | .version => throw .version
  | _ => if r.has s then throw (.again s) else return r.give s .on

/-- Takes an option with the value that is attached to it, or leaves it to the next word. -/
def takeOption (r : Reading) (s : Switch) (attached : Option String) : Except Stop Reading := do
  let r ← r.settle
  match attached with
  | some word => r.giveWord s word
  | none => return { r with pending := .option s none }

/-- Takes a word after two dashes. A value may be attached with an equals sign. -/
def takeLong (r : Reading) (word : List Char) : Except Stop Reading :=
  let (name, attached) :=
    match cutAt (· == '=') word with
    | some (name, value) => (name, some (String.ofList value))
    | none => (word, none)
  match level.switches.find? (·.long == String.ofList name) with
  | none => .error (.unknownArgument ("--" ++ String.ofList word))
  | some s =>
    if s.takesValue then takeOption r s attached
    else
      match attached with
      | some value => .error (.valueRefused s value)
      | none => takeFlag level r s

/-- The value that is attached to a letter, with or without an equals sign. -/
def attachedTo : List Char → Option String
  | [] => none
  | '=' :: rest => some (String.ofList rest)
  | rest => some (String.ofList rest)

/-- Takes the letters after one dash. A letter with a value ends them. -/
def takeLetters (r : Reading) : List Char → Except Stop Reading
  | [] => .ok r
  | c :: rest =>
    match level.switches.find? (·.letter? == some c) with
    | none => .error (.unknownArgument ("-" ++ String.singleton c))
    | some s =>
      if s.takesValue then takeOption r s (attachedTo rest)
      else do takeLetters (← takeFlag level r s) rest

/-- Takes a word that is no option, where the level has a place for it. -/
def takeOperand (r : Reading) (word : String) : Except Stop Reading :=
  if level.takesOperand && !r.hasOperand then do
    return { (← r.settle) with pending := .operand word }
  else .error (.unknownArgument word)

/-- Takes a word before any `--`. -/
def takeWord (r : Reading) (word : String) : Except Stop Reading :=
  match word.toList with
  | '-' :: '-' :: rest => takeLong level r rest
  | '-' :: c :: rest => takeLetters level r (c :: rest)
  | _ =>
    match r.pending with
    | .option s none => .ok { r with pending := .option s (some word) }
    | _ => takeOperand level r word

/-! ## Whole lines -/

/-- Takes the words after a command. After `--` no word is an option. -/
def takeWords (r : Reading) : Bool → List String → Except Stop Reading
  | _, [] => r.settle
  | true, word :: rest => do takeWords (← takeOperand level r word) true rest
  | false, word :: rest =>
    if word = "--" then takeWords r true rest
    else do takeWords (← takeWord level r word) false rest

/-- The number that an option was given. -/
def Reading.number? (r : Reading) (s : Switch) : Option UInt64 :=
  r.options.findSome? fun
    | (t, .number n) => if t = s then some n else none
    | _ => none

/-- The species that were listed. -/
def Reading.species (r : Reading) : List Species :=
  r.options.flatMap fun
    | (_, .species l) => l
    | _ => []

/-- The process number that an option was given. -/
def Reading.pid? (r : Reading) : Option Pid :=
  r.options.findSome? fun
    | (_, .pid p) => some p
    | _ => none

/-- The options of a discovery. -/
def Reading.discovery (r : Reading) : Options :=
  { Options.standard with
    processes := !r.has .noProcesses
    openFiles := !r.has .noFds
    bindMounts := !r.has .noBindMounts
    hierarchy := !r.has .noHierarchy
    ownership := !r.has .noOwnership
    mountTables := r.has .mounts
    species := if r.species.isEmpty then .all else .ofList r.species
    limit := (r.number? .timeout).map Span.ofSeconds }

/-- The command that a reading asks for. -/
def commandOf (r : Reading) : Except Stop Command :=
  match level with
  | .top => .error .noCommand
  | .discover => .ok (.discover (r.has .json) r.discovery)
  | .users => .ok (.users ((r.number? .sandboxTimeout).getD 5))
  | .pid =>
    match r.operand with
    | some p => .ok (.pid p)
    | none => .error .operandMissing
  | .namespaces => .ok (.namespaces r.pid?)

/-- A command and whether it is to say more. -/
structure Invocation where
  verbose : Bool
  command : Command
  deriving DecidableEq

/-- Takes the words after the name of a command. -/
def takeCommand (top : Reading) (words : List String) : Except Stop Invocation := do
  let r ← takeWords level {} false words
  return ⟨top.has .verbose || r.has .verbose, ← commandOf level r⟩

/-- Takes the words after `help`: the name of a command, or `help` again, and no more. -/
def takeHelp : List String → Stop
  | [] => .help .top
  | word :: rest =>
    match if word = "help" then some .top else Level.ofName? word, rest with
    | some level, [] => .help level
    | some _, more :: _ => .unknownCommand more
    | none, _ => .unknownCommand word

/-- What is wrong with a word that names no command. After `--` a name is no command either. -/
def strayWord (trailing : Bool) (word : String) : Stop :=
  if trailing && (word = "help" || (Level.ofName? word).isSome) then .unknownArgument word
  else .unknownCommand word

/-- Takes the words up to the name of a command, and those after it. -/
def takeTop (r : Reading) : List String → Except Stop Invocation
  | [] => .error (if r.options.isEmpty then .nothing else .noCommand)
  | word :: rest =>
    match Level.ofName? word with
    | some level => takeCommand level r rest
    | none =>
      if word = "help" then .error (takeHelp rest)
      else if word = "--" then
        match rest with
        | [] => .error (if r.options.isEmpty then .nothing else .noCommand)
        | word :: _ => .error (strayWord true word)
      else
        match word.toList with
        | '-' :: _ :: _ => do takeTop (← takeWord .top r word) rest
        | _ => .error (strayWord false word)

/-- The command that a line asks for. -/
def read (words : List String) : Except Stop Invocation := takeTop {} words

end NamespaceAtlas.Command.Line
