import EcmaPrinter.Number.Decimal

/-!
The command line: what arguments mean.

Arguments are read from left to right.  First come switches of the program itself, then a command
with its own switches and operands; the global switches may stand at both places.  `--` ends the
switches.  The first argument that cannot be right ends the reading, and so does a request for
help or for the version.
-/

namespace EcmaPrinter.Command

open EcmaPrinter.Number

/-! ### Switches -/

/-- The switches of the program and of its commands. -/
inductive Switch where
  | verbose | json | cwd | help | version | output | config | pretty | webSafe | noHex
  deriving DecidableEq, Repr

namespace Switch

/-- The long name. -/
def long : Switch → String
  | verbose => "verbose" | json => "json" | cwd => "cwd" | help => "help" | version => "version"
  | output => "output" | config => "config" | pretty => "pretty" | webSafe => "web-safe"
  | noHex => "no-hex"

/-- The letter, for those that have one. -/
def short? : Switch → Option Char
  | verbose => some 'v' | help => some 'h' | version => some 'V' | output => some 'o'
  | _ => none

/-- Does a path follow the switch? -/
def takesPath : Switch → Bool
  | cwd | output | config => true
  | _ => false

/-- May the switch be repeated? -/
def isRepeatable (s : Switch) : Bool :=
  s == verbose

end Switch

/-- Why the reading of arguments ends early. -/
inductive Stop where
  | usage
  | help
  | version
  deriving DecidableEq, Repr

/-! ### Levels -/

/-- The places on the command line: before the command, and behind each command. -/
inductive Level where
  | top | version | render | number
  deriving DecidableEq, Repr

namespace Level

/-- The switches that all levels have. -/
def globalSwitches : List Switch :=
  [.verbose, .json, .cwd, .help]

/-- The switches of a level. -/
def switches : Level → List Switch
  | top => globalSwitches ++ [.version]
  | version | number => globalSwitches
  | render => globalSwitches ++ [.output, .config, .pretty, .webSafe, .noHex]

/-- The command that a word names at a level. -/
def command? : Level → String → Option Level
  | top, word =>
    if word == "version" then some version
    else if word == "render" then some render
    else if word == "number" then some number
    else none
  | _, _ => none

end Level

/-- What has been given at one level. -/
structure Given where
  switches : List Switch := []
  paths : List (Switch × String) := []
  inputs : List String := []
  numbers : List Double := []
  deriving DecidableEq, Repr

namespace Given

/-- The path that follows a switch. -/
def path? (g : Given) (s : Switch) : Option String :=
  (g.paths.find? (·.1 == s)).map (·.2)

/-- Was the switch given? -/
def has (g : Given) (s : Switch) : Bool :=
  g.switches.contains s

/-- Note a switch without a path. -/
def addSwitch (g : Given) (s : Switch) : Except Stop Given :=
  if g.has s && !s.isRepeatable then .error .usage
  else .ok { g with switches := s :: g.switches }

/-- Note a switch with its path, which may not be empty. -/
def addPath (g : Given) (s : Switch) (path : String) : Except Stop Given :=
  if path.isEmpty || (g.path? s).isSome then .error .usage
  else .ok { g with paths := (s, path) :: g.paths }

/-- Note an operand of the command. -/
def addOperand (g : Given) (level : Level) (word : String) : Except Stop Given :=
  match level with
  | .render =>
    if word.isEmpty || !g.inputs.isEmpty then .error .usage
    else .ok { g with inputs := [word] }
  | .number =>
    match readDouble? word with
    | some v => .ok { g with numbers := g.numbers ++ [v] }
    | none => .error .usage
  | _ => .error .usage

end Given

/-! ### Single arguments -/

/-- Act on a switch without a path. -/
def takeSwitch (g : Given) : Switch → Except Stop Given
  | .help => .error .help
  | .version => .error .version
  | s => g.addSwitch s

/-- Read a switch by its long name, with or without a value.  A switch is returned that still
waits for its path. -/
def takeLong (level : Level) (g : Given) (name : String) (value? : Option String) :
    Except Stop (Given × Option Switch) :=
  match level.switches.find? (·.long == name) with
  | none => .error .usage
  | some s =>
    match s.takesPath, value? with
    | true, some value => (g.addPath s value).map (·, none)
    | true, none => .ok (g, some s)
    | false, some _ => .error .usage
    | false, none => (takeSwitch g s).map (·, none)

/-- The path written directly behind a letter, with or without an equals sign. -/
def attachedPath : List Char → String
  | '=' :: rest => String.ofList rest
  | rest => String.ofList rest

/-- Read a group of letters.  A switch is returned that still waits for its path. -/
def takeLetters (level : Level) (g : Given) : List Char → Except Stop (Given × Option Switch)
  | [] => .ok (g, none)
  | c :: rest =>
    match level.switches.find? (·.short? == some c) with
    | none => .error .usage
    | some s =>
      if s.takesPath then
        if rest.isEmpty then .ok (g, some s)
        else (g.addPath s (attachedPath rest)).map (·, none)
      else do
        let g ← takeSwitch g s
        takeLetters level g rest

/-- The characters of a number behind its minus: digits, at most one point that is not first, and
at most one `e` that is neither first nor last. -/
def looksNumeric (chars : List Char) : Bool :=
  let (mantissa, exponent) := chars.span (· != 'e')
  let (whole, part) := mantissa.span (· != '.')
  let plainPart := match part with
    | [] => whole.all Char.isDigit
    | _ :: digits => !whole.isEmpty && whole.all Char.isDigit && digits.all Char.isDigit
  match exponent with
  | [] => plainPart
  | _ :: digits => plainPart && !mantissa.isEmpty && !digits.isEmpty && digits.all Char.isDigit

/-- The kinds of arguments. -/
inductive Argument where
  /-- The end of the switches. -/
  | separator
  | long (name : String) (value? : Option String)
  | letters (chars : List Char)
  | word
  deriving DecidableEq, Repr

/-- The name and the value of a long switch. -/
def splitLong (chars : List Char) : Argument :=
  match chars.span (· != '=') with
  | (name, []) => .long (String.ofList name) none
  | (name, _ :: value) => .long (String.ofList name) (some (String.ofList value))

/-- What kind of argument a text is.  Behind `number` negative numbers are words. -/
def Argument.ofText (level : Level) (text : String) : Argument :=
  match text.toList with
  | ['-', '-'] => .separator
  | '-' :: '-' :: rest => splitLong rest
  | ['-'] => .word
  | '-' :: rest => if level == .number && looksNumeric rest then .word else .letters rest
  | _ => .word

/-! ### All arguments -/

/-- Read operands only. -/
def takeOperands (level : Level) (g : Given) : List String → Except Stop Given
  | [] => .ok g
  | word :: rest => do
    let g ← g.addOperand level word
    takeOperands level g rest

/-- What is left when a level has been read: a command with its arguments, if one was named. -/
abbrev Rest := Option (Level × List String)

/-- The command `help` takes at most the name of a command. -/
def helpCommand : List String → Stop
  | [] => .help
  | [word] => if word == "help" || (Level.top.command? word).isSome then .help else .usage
  | _ => .usage

/-- Read the arguments of a level; `waiting?` is a switch whose path comes next. -/
def takeLevel (level : Level) : (waiting? : Option Switch) → Given → List String →
    Except Stop (Given × Rest)
  | none, g, [] => .ok (g, none)
  | some _, _, [] => .error .usage
  | waiting?, g, text :: rest =>
    match Argument.ofText level text, waiting? with
    | .word, some s => do
      let g ← g.addPath s text
      takeLevel level none g rest
    | _, some _ => .error .usage
    | .separator, none => (takeOperands level g rest).map (·, none)
    | .long name value?, none => do
      let (g, waiting?) ← takeLong level g name value?
      takeLevel level waiting? g rest
    | .letters chars, none => do
      let (g, waiting?) ← takeLetters level g chars
      takeLevel level waiting? g rest
    | .word, none =>
      match level.command? text with
      | some command => .ok (g, some (command, rest))
      | none =>
        if level == .top && text == "help" then .error (helpCommand rest)
        else do
          let g ← g.addOperand level text
          takeLevel level none g rest

/-! ### Invocations -/

/-- What to render, and where to put it. -/
structure RenderArguments where
  input : String
  output? : Option String := none
  config? : Option String := none
  pretty : Bool := false
  webSafe : Bool := false
  noHex : Bool := false
  deriving DecidableEq, Repr

/-- The commands with their operands. -/
inductive Task where
  | version
  | render (arguments : RenderArguments)
  | number (values : List Double)
  deriving DecidableEq, Repr

/-- What is asked for on a command line. -/
structure Invocation where
  json : Bool
  cwd? : Option String
  task : Task
  deriving DecidableEq, Repr

/-- The task of a level, if all that it needs was given. -/
def taskOf? (level : Level) (g : Given) : Option Task :=
  match level with
  | .top | .version => some .version
  | .render => g.inputs.head?.map fun input => .render
      { input := input
        output? := g.path? .output
        config? := g.path? .config
        pretty := g.has .pretty
        webSafe := g.has .webSafe
        noHex := g.has .noHex }
  | .number => if g.numbers.isEmpty then none else some (.number g.numbers)

/-- Read a command line.  What is given behind the command wins over what is given before it. -/
def readArguments (arguments : List String) : Except Stop Invocation := do
  let (outer, rest?) ← takeLevel .top none {} arguments
  match rest? with
  | none =>
    .ok { json := outer.has .json, cwd? := outer.path? .cwd, task := .version }
  | some (level, rest) =>
    let (inner, _) ← takeLevel level none {} rest
    match taskOf? level inner with
    | some task =>
      .ok
        { json := outer.has .json || inner.has .json
          cwd? := (inner.path? .cwd).or (outer.path? .cwd)
          task := task }
    | none => .error .usage

end EcmaPrinter.Command
