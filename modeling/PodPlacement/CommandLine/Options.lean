/-! # Command-line options

`Request.ofArguments` reads the arguments of the program from left to right. An option is written
`--name VALUE`, `--name=VALUE`, `-n VALUE`, `-nVALUE` or `-n=VALUE`; switches may share one dash. No
option may be given twice, and there are no other arguments. -/

namespace PodPlacement.CommandLine

/-- The form of the output. -/
inductive OutputFormat where
  /-- For readers. -/
  | table
  /-- A YAML document. -/
  | yaml
deriving DecidableEq

/-- The form of a name. -/
def OutputFormat.ofName? (name : String) : Option OutputFormat :=
  if name = "table" then some .table else if name = "yaml" then some .yaml else none

/-- What the program is to do. -/
structure Options where
  /-- The path of the cluster manifest. -/
  nodes : String
  /-- The path of the workload manifest. -/
  workload : String
  /-- The name of the heuristic. -/
  heuristic : String := "ljf"
  /-- All heuristics are compared instead. -/
  compare : Bool := false
  /-- The form of the output. -/
  format : OutputFormat := .table
deriving DecidableEq

/-- What the arguments ask for. -/
inductive Request where
  /-- A simulation or a comparison. -/
  | run (options : Options)
  /-- An explanation of the options. -/
  | help
deriving DecidableEq

/-- An option that takes a value. -/
inductive ValueOption where
  /-- The path of the cluster manifest. -/
  | nodes
  /-- The path of the workload manifest. -/
  | workload
  /-- The name of a heuristic. -/
  | heuristic
  /-- The form of the output. -/
  | format
deriving DecidableEq

/-- What the name of an option stands for. -/
inductive OptionName where
  /-- An option that takes a value. -/
  | value (option : ValueOption)
  /-- The switch for a comparison. -/
  | compare
  /-- The switch for an explanation. -/
  | help
deriving DecidableEq

namespace OptionName

/-- The option of a long name. -/
def ofLong? (name : String) : Option OptionName :=
  match name with
  | "nodes" => some (.value .nodes)
  | "workload" => some (.value .workload)
  | "heuristic" => some (.value .heuristic)
  | "format" => some (.value .format)
  | "compare" => some .compare
  | "help" => some .help
  | _ => none

/-- The option of a letter. -/
def ofLetter? (letter : Char) : Option OptionName :=
  match letter with
  | 'n' => some (.value .nodes)
  | 'w' => some (.value .workload)
  | 'H' => some (.value .heuristic)
  | 'f' => some (.value .format)
  | 'c' => some .compare
  | 'h' => some .help
  | _ => none

end OptionName

/-- Why reading stops before the last argument. -/
inductive Stop where
  /-- The arguments make no sense. -/
  | misuse
  /-- An explanation was asked for. -/
  | help
deriving DecidableEq

/-- What some arguments have said so far. -/
structure Reading where
  /-- The path of the cluster manifest. -/
  nodes? : Option String := none
  /-- The path of the workload manifest. -/
  workload? : Option String := none
  /-- The name of the heuristic. -/
  heuristic? : Option String := none
  /-- The form of the output. -/
  format? : Option OutputFormat := none
  /-- A comparison was asked for. -/
  compare : Bool := false
  /-- The option whose value the next argument is. -/
  pending? : Option ValueOption := none
  /-- The mark that ends the options has been read. -/
  ended : Bool := false
deriving DecidableEq

namespace Reading

/-- A value for something that may be said once. -/
def once {α : Type} (old? : Option α) (new : α) : Except Stop (Option α) :=
  if old?.isNone then .ok (some new) else .error .misuse

/-- Gives an option its value. A path must not be empty. -/
def give (r : Reading) (option : ValueOption) (value : String) : Except Stop Reading := do
  let r := { r with pending? := none }
  match option with
  | .nodes =>
    if value.isEmpty then throw .misuse
    return { r with nodes? := ← once r.nodes? value }
  | .workload =>
    if value.isEmpty then throw .misuse
    return { r with workload? := ← once r.workload? value }
  | .heuristic => return { r with heuristic? := ← once r.heuristic? value }
  | .format =>
    match OutputFormat.ofName? value with
    | some format => return { r with format? := ← once r.format? format }
    | none => throw .misuse

/-- Turns the switch for a comparison. -/
def turnCompare (r : Reading) : Except Stop Reading :=
  if r.compare then .error .misuse else .ok { r with compare := true }

/-- The value behind an equals sign, if the text has one, and what precedes it. -/
def splitEquals (text : List Char) : String × Option String :=
  let name := text.takeWhile (· ≠ '=')
  match text.dropWhile (· ≠ '=') with
  | [] => (String.ofList name, none)
  | _ :: value => (String.ofList name, some (String.ofList value))

/-- Reads an argument that begins with two dashes, without them. -/
def readLong (r : Reading) (text : List Char) : Except Stop Reading :=
  match splitEquals text with
  | (name, value?) =>
    match OptionName.ofLong? name, value? with
    | some (.value option), some value => r.give option value
    | some (.value option), none => .ok { r with pending? := some option }
    | some .compare, none => r.turnCompare
    | some .help, none => .error .help
    | _, _ => .error .misuse

/-- Reads an argument that begins with one dash, without it: switches, and an option with its value. -/
def readLetters (r : Reading) : (letters : List Char) → Except Stop Reading
  | [] => .ok r
  | letter :: rest =>
    match OptionName.ofLetter? letter with
    | some (.value option) =>
      match rest with
      | [] => .ok { r with pending? := some option }
      | '=' :: value => r.give option (String.ofList value)
      | value => r.give option (String.ofList value)
    | some .compare => r.turnCompare >>= fun r => r.readLetters rest
    | some .help => .error .help
    | none => .error .misuse

/-- Reads an argument that is no option: the value of the option before it, if that lacks one. -/
def readValue (r : Reading) (argument : String) : Except Stop Reading :=
  match r.pending? with
  | some option => r.give option argument
  | none => .error .misuse

/-- Reads an argument that is an option, which the option before it must not wait for. -/
def readOption (r : Reading) (read : Reading → Except Stop Reading) : Except Stop Reading :=
  if r.pending?.isSome then .error .misuse else read r

/-- Reads one argument. -/
def read (r : Reading) (argument : String) : Except Stop Reading :=
  if r.ended then .error .misuse
  else
    -- A single dash is no option but a value.
    match argument.toList with
    | ['-', '-'] => r.readOption fun r => .ok { r with ended := true }
    | '-' :: '-' :: text => r.readOption fun r => r.readLong text
    | '-' :: letter :: rest => r.readOption fun r => r.readLetters (letter :: rest)
    | _ => r.readValue argument

/-- The options when all arguments are read. Both paths must have been given. -/
def options? (r : Reading) : Option Options :=
  match r.pending?, r.nodes?, r.workload? with
  | none, some nodes, some workload =>
    some ⟨nodes, workload, r.heuristic?.getD "ljf", r.compare, r.format?.getD .table⟩
  | _, _, _ => none

end Reading

/-- What arguments ask for, if they make sense. -/
def Request.ofArguments (arguments : List String) : Option Request :=
  match arguments.foldlM Reading.read ({} : Reading) with
  | .ok r => r.options?.map .run
  | .error .help => some .help
  | .error .misuse => none

end PodPlacement.CommandLine
