/-!
# Arguments

The words after the name of the program say what is to be done. First come switches that
hold for every command, then the name of the command, then its own switches and settings
in any order, each of them at most once.

## Main definitions

* `Switch`, `Setting`: what can be given, without and with a value
* `readGiven`: what is given by a list of words
* `Command`: what is to be done
* `Command.ofArguments`: the command of a list of words
-/

namespace TypedClient

/-- What can be given without a value. -/
inductive Switch
  | verbose
  | help
  | version
  | sync
  | strict
  | check
  deriving DecidableEq, Repr

/-- What can be given with a value. -/
inductive Setting
  | input
  | config
  | output
  | className
  | runtimeModule
  | name
  | schemas
  deriving DecidableEq, Repr

/-- The long name of a switch. -/
def Switch.long : Switch → String
  | verbose => "verbose"
  | help => "help"
  | version => "version"
  | sync => "sync"
  | strict => "strict"
  | check => "check"

/-- The letter of a switch. -/
def Switch.letter? : Switch → Option Char
  | verbose => some 'v'
  | help => some 'h'
  | version => some 'V'
  | _ => none

/-- The long name of a setting. -/
def Setting.long : Setting → String
  | input => "input"
  | config => "config"
  | output => "output"
  | className => "class-name"
  | runtimeModule => "runtime-module"
  | name => "name"
  | schemas => "schemas"

/-- The letter of a setting. -/
def Setting.letter? : Setting → Option Char
  | input => some 'i'
  | config => some 'c'
  | output => some 'o'
  | _ => none

/-- Whether the value of a setting is a path, which may not be empty. -/
def Setting.isPath : Setting → Bool
  | className | runtimeModule | name => false
  | _ => true

/-- What was given. -/
inductive Given
  | switch (s : Switch)
  | setting (s : Setting) (value : String)
  deriving DecidableEq, Repr

/-- Whether the same thing was given twice, perhaps with different values. -/
def Given.repeats : Given → Given → Bool
  | .switch s, .switch t => s == t
  | .setting s _, .setting t _ => s == t
  | _, _ => false

/-- An answer that takes the place of a command. -/
inductive Notice
  | help
  | version
  /-- The words do not make up a command. -/
  | misuse
  deriving DecidableEq, Repr

/-- What can be given in one part of the words. -/
structure Level where
  switches : List Switch
  settings : List Setting

/-! ## Words -/

/-- What was given, and one thing more. -/
def addGiven (given : List Given) (g : Given) : Except Notice (List Given) :=
  match g with
  | .switch .help => .error .help
  | .switch .version => .error .version
  | .switch _ => if given.any g.repeats then .error .misuse else .ok (given ++ [g])
  | .setting s value =>
    if given.any g.repeats || (s.isPath && value.isEmpty) then .error .misuse
    else .ok (given ++ [g])

/-- What was given, and the setting whose value is the next word. -/
abbrev Pending := List Given × Option Setting

/-- What is given by letters after one dash. After the letter of a setting comes its
value, perhaps after an equals sign, or the value is the next word. -/
def readLetters (level : Level) (given : List Given) :
    List Char → Except Notice Pending
  | [] => .ok (given, none)
  | c :: cs =>
    match level.switches.find? (·.letter? == some c) with
    | some s => do readLetters level (← addGiven given (.switch s)) cs
    | none =>
      match level.settings.find? (·.letter? == some c), cs with
      | none, _ => .error .misuse
      | some s, [] => .ok (given, some s)
      | some s, '=' :: value =>
        (·, none) <$> addGiven given (.setting s (String.ofList value))
      | some s, value => (·, none) <$> addGiven given (.setting s (String.ofList value))

/-- What is given by a long name after two dashes, perhaps with a value after an equals
sign. -/
def readLong (level : Level) (given : List Given) (cs : List Char) :
    Except Notice Pending :=
  let long := String.ofList (cs.takeWhile (· != '='))
  let value := cs.dropWhile (· != '=')
  match level.switches.find? (·.long == long), level.settings.find? (·.long == long) with
  | some s, _ =>
    if value.isEmpty then (·, none) <$> addGiven given (.switch s) else .error .misuse
  | none, some s =>
    if value.isEmpty then .ok (given, some s)
    else (·, none) <$> addGiven given (.setting s (String.ofList value.tail))
  | none, none => .error .misuse

/-- Whether a word begins with a dash and is not a dash alone. -/
def isDashed (word : String) : Bool :=
  word.toList.head? == some '-' && word != "-"

/-- What is given by a list of words. Two dashes alone may end it. -/
def readGiven (level : Level) : List Given → Option Setting → List String →
    Except Notice (List Given)
  | given, none, [] => .ok given
  | _, some _, [] => .error .misuse
  | given, some s, word :: words =>
    if isDashed word then .error .misuse
    else do readGiven level (← addGiven given (.setting s word)) none words
  | given, none, word :: words =>
    match word.toList with
    | ['-', '-'] => if words.isEmpty then .ok given else .error .misuse
    | '-' :: '-' :: cs => do
      let (given, pending) ← readLong level given cs
      readGiven level given pending words
    | '-' :: c :: cs => do
      let (given, pending) ← readLetters level given (c :: cs)
      readGiven level given pending words
    | _ => .error .misuse

/-- The value given for a setting. -/
def valueOf? (s : Setting) (given : List Given) : Option String :=
  given.findSome? fun
    | .setting t value => if s = t then some value else none
    | .switch _ => none

/-- Whether a switch was given. -/
def isGiven (s : Switch) (given : List Given) : Bool :=
  given.contains (.switch s)

/-! ## Commands -/

/-- The generation of a client, from the files at some paths. -/
structure GenerateRequest where
  input : String
  config : Option String := none
  output : Option String := none
  sync : Bool := false
  className : Option String := none
  runtimeModule : Option String := none
  strict : Bool := false
  check : Bool := false
  deriving DecidableEq, Repr

/-- The generation of an interface with a name, from the schemas at a path. -/
structure InterfaceRequest where
  name : String
  schemas : String
  deriving DecidableEq, Repr

/-- What is to be done. -/
inductive Command
  | generate (request : GenerateRequest)
  | interface (request : InterfaceRequest)
  deriving DecidableEq, Repr

/-- What can be given before the name of a command. -/
def topLevel : Level where
  switches := [.verbose, .help, .version]
  settings := []

/-- What can be given for the generation of a client. -/
def generateLevel : Level where
  switches := [.verbose, .help, .sync, .strict, .check]
  settings := [.input, .config, .output, .className, .runtimeModule]

/-- What can be given for the generation of an interface. -/
def interfaceLevel : Level where
  switches := [.verbose, .help]
  settings := [.name, .schemas]

/-- The generation of a client. A check needs an output to check. -/
def GenerateRequest.ofGiven (given : List Given) : Except Notice GenerateRequest := do
  let some input := valueOf? .input given | throw .misuse
  let output := valueOf? .output given
  if isGiven .check given && output.isNone then throw .misuse
  return {
    input
    config := valueOf? .config given
    output
    sync := isGiven .sync given
    className := valueOf? .className given
    runtimeModule := valueOf? .runtimeModule given
    strict := isGiven .strict given
    check := isGiven .check given
  }

/-- The generation of an interface. -/
def InterfaceRequest.ofGiven (given : List Given) : Except Notice InterfaceRequest := do
  let some name := valueOf? .name given | throw .misuse
  let some schemas := valueOf? .schemas given | throw .misuse
  return { name, schemas }

/-- The names of the commands. -/
def commandNames : List String := ["generate", "interface", "help"]

/-- The command of a list of words. Without any there is help. -/
def Command.ofArguments (words : List String) : Except Notice Command := do
  -- what comes before the name of the command is read for its faults and notices only
  let isLeading := fun word => isDashed word && word != "--"
  discard (readGiven topLevel [] none (words.takeWhile isLeading))
  match words.dropWhile isLeading with
  | [] | ["--"] => throw .help
  | "generate" :: rest =>
    .generate <$> (readGiven generateLevel [] none rest >>= GenerateRequest.ofGiven)
  | "interface" :: rest =>
    .interface <$> (readGiven interfaceLevel [] none rest >>= InterfaceRequest.ofGiven)
  | ["help"] => throw .help
  | ["help", name] => throw (if name ∈ commandNames then .help else .misuse)
  | _ => throw .misuse

end TypedClient
