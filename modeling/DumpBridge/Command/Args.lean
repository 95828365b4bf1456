import DumpBridge.Text.Basic

/-!
# Arguments

Arguments are a command and what it works on.  An option is written out after two dashes or,
for some, as one letter after one; letters may be run together.  The value of an option may
follow an equals sign or be the next argument.  No option may be given twice.
-/

namespace DumpBridge.Command

/-- The options of the commands. -/
inductive Flag where
  | output
  | config
  | strict
  | progress
  | dryRun
  | json
  | failFast
  deriving DecidableEq, Repr

namespace Flag

/-- Whether an option has a value. -/
def hasValue : Flag → Bool
  | output => true
  | config => true
  | _ => false

/-- The option written out. -/
def ofName? (name : Text) : Option Flag :=
  [("output", output), ("config", config), ("strict", strict), ("progress", progress),
   ("dry-run", dryRun), ("json", json), ("fail-fast", failFast)].findSome? fun (word, flag) =>
    if word.toList = name then some flag else none

/-- The option of a letter. -/
def ofLetter? : Char → Option Flag
  | 'o' => some output
  | 'c' => some config
  | 'p' => some progress
  | _ => none

end Flag

/-- What the arguments after a command say: options with their values, and other arguments. -/
structure Given where
  flags : List (Flag × Text) := []
  others : List Text := []

namespace Given

/-- Takes in an option, which must be known to the command, new, and without an empty value. -/
def addFlag? (allowed : List Flag) (given : Given) (flag : Flag) (value : Text) : Option Given :=
  if !(flag ∈ allowed) || given.flags.any (·.1 = flag) || (flag.hasValue && value.isEmpty) then none
  else some { given with flags := given.flags ++ [(flag, value)] }

/-- Takes in another argument, which must not be empty. -/
def addOther? (given : Given) (arg : Text) : Option Given :=
  if arg.isEmpty then none else some { given with others := given.others ++ [arg] }

/-- Whether an argument cannot be the value of the option before it. -/
def isOption (arg : Text) : Bool :=
  Text.startsWith '-' arg && arg != ['-']

/-- Takes in letters.  The result also says which option still lacks its value. -/
def addLetters? (allowed : List Flag) (given : Given) : Text → Option (Given × Option Flag)
  | [] => some (given, none)
  | c :: rest => do
    let flag ← Flag.ofLetter? c
    if flag.hasValue then
      match rest with
      | [] => return (given, some flag)
      | '=' :: value => return (← given.addFlag? allowed flag value, none)
      | value => return (← given.addFlag? allowed flag value, none)
    else addLetters? allowed (← given.addFlag? allowed flag []) rest

/-- Takes in an option written out, without its dashes. -/
def addWord? (allowed : List Flag) (given : Given) (word : Text) :
    Option (Given × Option Flag) := do
  let name := word.takeWhile (· != '=')
  let flag ← Flag.ofName? name
  if name.length < word.length then
    if flag.hasValue then return (← given.addFlag? allowed flag (word.drop (name.length + 1)), none)
    else none
  else if flag.hasValue then return (given, some flag)
  else return (← given.addFlag? allowed flag [], none)

/-- Reads arguments; `pending` is the option whose value comes next, and `plain` says that no more
options follow. -/
def readFrom? (allowed : List Flag) (given : Given) (pending : Option Flag) (plain : Bool) :
    List Text → Option Given
  | [] => if pending.isSome then none else some given
  | arg :: rest =>
    match pending with
    | some flag =>
      if isOption arg then none
      else do readFrom? allowed (← given.addFlag? allowed flag arg) none false rest
    | none => do
      if plain || !isOption arg then readFrom? allowed (← given.addOther? arg) none plain rest
      else if arg = ['-', '-'] then readFrom? allowed given none true rest
      else if ['-', '-'].isPrefixOf arg then
        let (given, pending) ← given.addWord? allowed (arg.drop 2)
        readFrom? allowed given pending false rest
      else
        let (given, pending) ← given.addLetters? allowed (arg.drop 1)
        readFrom? allowed given pending false rest

/-- Reads the arguments of a command. -/
def read? (allowed : List Flag) (args : List Text) : Option Given :=
  readFrom? allowed {} none false args

/-- Whether an option is given. -/
def has (given : Given) (flag : Flag) : Bool :=
  given.flags.any (·.1 = flag)

/-- The value of an option. -/
def value? (given : Given) (flag : Flag) : Option Text :=
  given.flags.lookup flag

end Given

/-- What to convert, and how. -/
structure ConvertArgs where
  file : Text
  output : Option Text
  config : Option Text
  strict : Bool
  progress : Bool
  dryRun : Bool
  json : Bool
  failFast : Bool
  deriving DecidableEq, Repr

/-- Which dump's enum types to list, and how. -/
structure EnumsArgs where
  file : Text
  config : Option Text
  json : Bool
  deriving DecidableEq, Repr

/-- A command with its arguments. -/
inductive Args where
  | convert (args : ConvertArgs)
  | enums (args : EnumsArgs)
  deriving DecidableEq, Repr

/-- Reads the arguments of the conversion. -/
def ConvertArgs.parse? (args : List Text) : Option ConvertArgs := do
  let given ← Given.read?
    [.output, .config, .strict, .progress, .dryRun, .json, .failFast] args
  match given.others with
  | [file] =>
    return { file := file, output := given.value? .output, config := given.value? .config
             strict := given.has .strict, progress := given.has .progress
             dryRun := given.has .dryRun, json := given.has .json, failFast := given.has .failFast }
  | _ => none

/-- Reads the arguments of the listing. -/
def EnumsArgs.parse? (args : List Text) : Option EnumsArgs := do
  let given ← Given.read? [.config, .json] args
  match given.others with
  | [file] => return { file := file, config := given.value? .config, json := given.has .json }
  | _ => none

/-- Reads a command with its arguments. -/
def Args.parse? : List Text → Option Args
  | [] => none
  | word :: args =>
    if word = "convert".toList then (ConvertArgs.parse? args).map .convert
    else if word = "enums".toList then (EnumsArgs.parse? args).map .enums
    else none

end DumpBridge.Command
