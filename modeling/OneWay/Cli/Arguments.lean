/-!
# Command line arguments

The arguments name a command and its options. `Invocation.ofArguments` reads them, and
`UsageFault` says what is wrong with them.
-/

namespace OneWay.Cli

/-! ### Options -/

/-- What an option takes. -/
inductive OptionKind where
  | flag
  /-- A flag that may be repeated. -/
  | tally
  | text
  /-- A number below a limit, with a minus sign in front of a zero or not. -/
  | number (limit : Nat) (signed : Bool)
  /-- A request that ends the reading of the arguments. -/
  | help
  | version

/-- An option by its names. -/
structure OptionSpec where
  long : String
  short : Option Char := none
  kind : OptionKind

/-- The value of an option. -/
inductive OptionValue where
  | flag
  | text (value : String)
  | number (value : Nat)

/-- The options that have been read, by their long names. -/
abbrev OptionValues := List (String × OptionValue)

/-- What is wrong with the arguments. -/
inductive UsageFault where
  | unknownArgument (argument : String)
  | missingValue (option : String)
  | invalidValue (option value : String)
  | repeated (option : String)
  | missingOption (option : String)
  | missingCommand
  | unknownCommand (name : String)

/-- The fault in words. -/
def UsageFault.message : UsageFault → String
  | .unknownArgument a => s!"unexpected argument '{a}' found"
  | .missingValue o => s!"a value is required for '--{o}' but none was supplied"
  | .invalidValue o v => s!"invalid value '{v}' for '--{o}'"
  | .repeated o => s!"the argument '--{o}' cannot be used multiple times"
  | .missingOption o => s!"the required argument '--{o}' was not provided"
  | .missingCommand => "a subcommand is required but one was not provided"
  | .unknownCommand c => s!"unrecognized subcommand '{c}'"

/-- What reading some arguments leads to: more options, or a request that ends the reading. -/
inductive Reading where
  | options (values : OptionValues)
  | help
  | version

/-- The number that a text spells. -/
def number? (signed : Bool) (text : String) : Option Nat :=
  let digits? (cs : List Char) : Option Nat :=
    if !cs.isEmpty && cs.all Char.isDigit then
      some (cs.foldl (fun n c => 10 * n + (c.toNat - '0'.toNat)) 0)
    else none
  match text.toList with
  | '+' :: cs => digits? cs
  | '-' :: cs => if signed then (digits? cs).filter (· = 0) else none
  | cs => digits? cs

/-- Adds an option that may occur once. -/
def addOnce (values : OptionValues) (name : String) (v : OptionValue) :
    Except UsageFault OptionValues :=
  if values.any (·.1 = name) then .error (.repeated name) else .ok (values ++ [(name, v)])

/-- Adds an option with its value. -/
def addValue (values : OptionValues) (spec : OptionSpec) (value : String) :
    Except UsageFault OptionValues :=
  match spec.kind with
  | .number limit signed =>
    match (number? signed value).filter (· < limit) with
    | some n => addOnce values spec.long (.number n)
    | none => .error (.invalidValue spec.long value)
  | _ => addOnce values spec.long (.text value)

/-- Whether an argument can be the value of the option before it. -/
def isValue (argument : String) : Bool := argument = "-" || !"-".isPrefixOf argument

/-- Adds an option whose value is the next argument; answers the arguments after it. -/
def addNext (values : OptionValues) (spec : OptionSpec) :
    List String → Except UsageFault (Reading × List String)
  | value :: rest =>
    if isValue value then (addValue values spec value).map fun vs => (.options vs, rest)
    else .error (.missingValue spec.long)
  | [] => .error (.missingValue spec.long)

/-- Reads a group of short options; the last of them may take a value. -/
def readShort (specs : List OptionSpec) (argument : String) (rest : List String) :
    OptionValues → List Char → Except UsageFault (Reading × List String)
  | values, [] => .ok (.options values, rest)
  | values, c :: cs =>
    match specs.find? (·.short = some c) with
    | none => .error (.unknownArgument argument)
    | some spec =>
      match spec.kind with
      | .help => .ok (.help, rest)
      | .version => .ok (.version, rest)
      | .tally => readShort specs argument rest values cs
      | .flag =>
        match addOnce values spec.long .flag with
        | .ok values => readShort specs argument rest values cs
        | .error f => .error f
      | .text | .number .. =>
        match cs with
        | [] => addNext values spec rest
        | '=' :: cs => (addValue values spec (String.ofList cs)).map fun vs => (.options vs, rest)
        | cs => (addValue values spec (String.ofList cs)).map fun vs => (.options vs, rest)

/-- Reads a long option, whose value may follow an equals sign. -/
def readLong (specs : List OptionSpec) (argument : String) (rest : List String)
    (values : OptionValues) (cs : List Char) : Except UsageFault (Reading × List String) :=
  let name := String.ofList (cs.takeWhile (· ≠ '='))
  let attached? :=
    match cs.dropWhile (· ≠ '=') with
    | _ :: value => some (String.ofList value)
    | [] => none
  match specs.find? (·.long = name) with
  | none => .error (.unknownArgument argument)
  | some spec =>
    match spec.kind, attached? with
    | .text, some v | .number .., some v =>
      (addValue values spec v).map fun vs => (.options vs, rest)
    | .text, none | .number .., none => addNext values spec rest
    | _, some v => .error (.invalidValue spec.long v)
    | .help, none => .ok (.help, rest)
    | .version, none => .ok (.version, rest)
    | .tally, none => .ok (.options values, rest)
    | .flag, none => (addOnce values spec.long .flag).map fun vs => (.options vs, rest)

/-- Reads options up to the first argument that is none, which is answered with what follows. The
number bounds the arguments that are read. -/
def readOptions (specs : List OptionSpec) :
    Nat → OptionValues → List String → Except UsageFault (Reading × List String)
  | 0, values, arguments => .ok (.options values, arguments)
  | _ + 1, values, [] => .ok (.options values, [])
  | n + 1, values, argument :: rest =>
    let outcome :=
      match argument.toList with
      | ['-'] | ['-', '-'] => none
      | '-' :: '-' :: cs => some (readLong specs argument rest values cs)
      | '-' :: cs => some (readShort specs argument rest values cs)
      | _ => none
    match outcome with
    | none => .ok (.options values, argument :: rest)
    | some (.ok (.options values, rest)) => readOptions specs n values rest
    | some other => other

/-! ### Commands -/

/-- What to do. -/
inductive Invocation where
  /-- Compile a pattern. -/
  | compile (input : String) (output : Option String) (measureOutputs qubitReuse : Bool)
  /-- Run a pattern. -/
  | run (input : String) (shots seed : Option Nat) (raw : Bool) (noise config : Option String)
  /-- List the backends. -/
  | backends
  /-- Describe the program. -/
  | version
  /-- Print the version number alone. -/
  | versionNumber
  | help
  deriving DecidableEq, Repr

/-- The options that every command takes. -/
def sharedOptions : List OptionSpec :=
  [⟨"verbose", some 'v', .tally⟩, ⟨"help", some 'h', .help⟩]

/-- The options before the command. -/
def topOptions : List OptionSpec := sharedOptions ++ [⟨"version", some 'V', .version⟩]

/-- The options of `compile`. -/
def compileOptions : List OptionSpec :=
  sharedOptions ++ [⟨"input", some 'i', .text⟩, ⟨"output", some 'o', .text⟩,
    ⟨"measure-outputs", none, .flag⟩, ⟨"qubit-reuse", none, .flag⟩]

/-- The options of `run`. -/
def runOptions : List OptionSpec :=
  sharedOptions ++ [⟨"input", some 'i', .text⟩, ⟨"shots", some 's', .number 0x100000000 true⟩,
    ⟨"seed", none, .number 0x10000000000000000 false⟩, ⟨"raw", none, .flag⟩,
    ⟨"noise-config", none, .text⟩, ⟨"config", some 'c', .text⟩]

namespace OptionValues

/-- The value of an option. -/
def find? (values : OptionValues) (name : String) : Option OptionValue :=
  (List.find? (·.1 = name) values).map (·.2)

/-- A text option. -/
def text? (values : OptionValues) (name : String) : Option String :=
  match values.find? name with
  | some (.text v) => some v
  | _ => none

/-- A number option. -/
def number? (values : OptionValues) (name : String) : Option Nat :=
  match values.find? name with
  | some (.number n) => some n
  | _ => none

/-- Whether an option is given. -/
def has (values : OptionValues) (name : String) : Bool := (values.find? name).isSome

end OptionValues

/-- Reads all arguments after a command as its options. -/
def readAllOptions (specs : List OptionSpec) (arguments : List String)
    (build : OptionValues → Except UsageFault Invocation) : Except UsageFault Invocation :=
  match readOptions specs (arguments.length + 1) [] arguments with
  | .error f => .error f
  | .ok (.help, _) => .ok .help
  | .ok (.version, _) => .ok .versionNumber
  | .ok (.options values, []) | .ok (.options values, ["--"]) => build values
  | .ok (.options _, argument :: _) => .error (.unknownArgument argument)

/-- The text of an option that must be given. -/
def requiredText (values : OptionValues) (name : String) : Except UsageFault String :=
  match values.text? name with
  | some v => .ok v
  | none => .error (.missingOption name)

/-- Reads the command and its arguments. -/
def readCommand : List String → Except UsageFault Invocation
  | [] => .error .missingCommand
  | "compile" :: rest =>
    readAllOptions compileOptions rest fun values => do
      pure (.compile (← requiredText values "input") (values.text? "output")
        (values.has "measure-outputs") (values.has "qubit-reuse"))
  | "run" :: rest =>
    readAllOptions runOptions rest fun values => do
      pure (.run (← requiredText values "input") (values.number? "shots") (values.number? "seed")
        (values.has "raw") (values.text? "noise-config") (values.text? "config"))
  | "backends" :: rest => readAllOptions sharedOptions rest fun _ => .ok .backends
  | "version" :: rest => readAllOptions sharedOptions rest fun _ => .ok .version
  | ["help"] => .ok .help
  | "help" :: name :: rest =>
    if ["compile", "run", "backends", "version", "help"].contains name then
      match rest with
      | [] => .ok .help
      | name :: _ => .error (.unknownCommand name)
    else .error (.unknownCommand name)
  | name :: _ => .error (.unknownCommand name)

/-- Reads the arguments of the program. -/
def Invocation.ofArguments (arguments : List String) : Except UsageFault Invocation :=
  match readOptions topOptions (arguments.length + 1) [] arguments with
  | .error f => .error f
  | .ok (.help, _) => .ok .help
  | .ok (.version, _) => .ok .versionNumber
  | .ok (.options _, rest) => readCommand rest

end OneWay.Cli
