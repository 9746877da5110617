/-!
# Scanning a command line

A command has options, which take a value or not, and may have subcommands. A value stands in the
next word or is attached to its option. The value of an option is looked at when the next option is
met, or at the end; so of two faults the one met first is not always the one reported. A subcommand
scans the words after its name before the command's own last value is looked at.
-/

namespace SharedClipboard.CommandLine

inductive ArgumentError where
  | unknownArgument
  | invalidValue
  | valueValidation
  | invalidSubcommand
  /-- An option was given twice. -/
  | argumentConflict
  /-- A value was given to an option that takes none. -/
  | tooManyValues
  /-- Help was asked for. -/
  | displayHelp
  deriving DecidableEq, Repr, Inhabited

def ArgumentError.message : ArgumentError → String
  | unknownArgument => "unexpected argument"
  | invalidValue => "a value is missing"
  | valueValidation => "a value cannot be read"
  | invalidSubcommand => "unrecognized subcommand"
  | argumentConflict => "an option is given twice"
  | tooManyValues => "an option takes no value"
  | displayHelp => "usage: [OPTIONS] [run | info | discover]"

/-- The exit code of a program whose command line is no good. Asking for help is no error. -/
def ArgumentError.code : ArgumentError → Nat
  | displayHelp => 0
  | _ => 2

structure OptionSpec where
  long : String
  short : Option Char := none
  takesValue : Bool := true
  repeatable : Bool := false
  /-- What is wrong with a value. -/
  fault : String → Option ArgumentError := fun _ => none

/-- A command: its options and the names of its subcommands. -/
structure CommandSpec where
  options : List OptionSpec
  subcommands : List String := []

/-- What has been scanned. -/
structure Scan where
  /-- The options given, in order, with their values. -/
  given : List (String × String) := []
  /-- An option whose value has not been looked at, or has not been met. -/
  pending : Option (OptionSpec × Option String) := none

namespace Scan

/-- Takes note of an option. -/
def add (s : Scan) (o : OptionSpec) (value : String) : Except ArgumentError Scan :=
  if !o.repeatable && s.given.any (·.1 = o.long) then .error .argumentConflict
  else match o.fault value with
    | some e => .error e
    | none => .ok { s with given := s.given ++ [(o.long, value)] }

/-- Looks at the value of the option that was met last. -/
def resolve (s : Scan) : Except ArgumentError Scan :=
  match s.pending with
  | none => .ok s
  | some (_, none) => .error .invalidValue
  | some (o, some v) => { s with pending := none }.add o v

/-- Meets an option, with the value attached to it, if there is one. -/
def meet (s : Scan) (o : OptionSpec) (attached : Option String) : Except ArgumentError Scan := do
  if o.takesValue then
    let s ← s.resolve
    match attached with
    | some v => s.add o v
    | none => return { s with pending := some (o, none) }
  else
    if attached.isSome then throw .tooManyValues
    (← s.resolve).add o ""

/-- Whether the next word is the value of an option. -/
def awaitsValue (s : Scan) : Bool :=
  match s.pending with
  | some (_, none) => true
  | _ => false

/-- Takes a word as the value of the option that was met last. -/
def takeValue (s : Scan) (word : String) : Scan :=
  { s with pending := s.pending.map fun p => (p.1, some word) }

def value? (s : Scan) (long : String) : Option String :=
  (s.given.find? (·.1 = long)).map (·.2)

def values (s : Scan) (long : String) : List String :=
  (s.given.filter (·.1 = long)).map (·.2)

def has (s : Scan) (long : String) : Bool := s.given.any (·.1 = long)

end Scan

namespace CommandSpec

def help : OptionSpec := { long := "help", short := some 'h', takesValue := false,
                           fault := fun _ => some .displayHelp }

def allOptions (c : CommandSpec) : List OptionSpec := c.options ++ [help]

/-- The word that asks for help in place of a subcommand. -/
def helpWord : String := "help"

def isSubcommand (c : CommandSpec) (word : String) : Bool :=
  c.subcommands.contains word || (!c.subcommands.isEmpty && word = helpWord)

/-- What is wrong with a word that is neither an option nor a value. -/
def strayWord (c : CommandSpec) (afterOptions : Bool) (word : String) : ArgumentError :=
  if c.subcommands.isEmpty || (afterOptions && c.isSubcommand word) then .unknownArgument
  else .invalidSubcommand

/-- What comes of asking for help on subcommands: the words after the first name none. -/
def helpOn (c : CommandSpec) : List String → ArgumentError
  | [] => .displayHelp
  | [word] => if c.isSubcommand word then .displayHelp else .invalidSubcommand
  | _ => .invalidSubcommand

/-- Scans an option by its long name. -/
def scanLong (c : CommandSpec) (s : Scan) (body : List Char) : Except ArgumentError Scan :=
  let name := body.takeWhile (· != '=')
  let rest := body.drop name.length
  match c.allOptions.find? (·.long.toList = name) with
  | none => .error .unknownArgument
  | some o => s.meet o (if rest.isEmpty then none else some (String.ofList rest.tail))

/-- Scans options by their short names. What stands behind one that takes a value is its value. -/
def scanShort (c : CommandSpec) (s : Scan) : List Char → Except ArgumentError Scan
  | [] => .ok s
  | letter :: rest =>
    match c.allOptions.find? (·.short = some letter) with
    | none => .error .unknownArgument
    | some o =>
      if o.takesValue then
        s.meet o (match rest with
          | [] => none
          | '=' :: v => some (String.ofList v)
          | v => some (String.ofList v))
      else do c.scanShort (← s.meet o none) rest

/-- Scans words up to a subcommand. The answer has the subcommand and the words after it. -/
def scan (c : CommandSpec) : List String → Scan →
    Except ArgumentError (Scan × Option (String × List String))
  | [], s => .ok (s, none)
  | word :: rest, s =>
    if !s.awaitsValue && c.isSubcommand word then
      if word = helpWord then .error (c.helpOn rest) else .ok (s, some (word, rest))
    else match word.toList with
      | ['-', '-'] =>
        match rest with
        | [] => .ok (s, none)
        | stray :: _ => .error (c.strayWord true stray)
      | '-' :: '-' :: body => do c.scan rest (← c.scanLong s body)
      | '-' :: letter :: body => do c.scan rest (← c.scanShort s (letter :: body))
      | _ =>
        if s.awaitsValue then c.scan rest (s.takeValue word) else .error (c.strayWord false word)

end CommandSpec

end SharedClipboard.CommandLine
