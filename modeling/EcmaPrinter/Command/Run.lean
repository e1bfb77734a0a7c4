import EcmaPrinter.Command.Arguments
import EcmaPrinter.Command.Files
import EcmaPrinter.Render
import EcmaPrinter.Tree.Reader
import EcmaPrinter.Version

/-!
Running a command line.

A command works on a host: something that reads files and the standard input, writes files and
prints.  The same definition runs on the real host and on a world of files in memory.  What JSON
texts stand for is up to a decoder.

A rendering is all or nothing: the configuration, the input and the tree are read and the text is
made before anything is written.
-/

namespace EcmaPrinter.Command

open EcmaPrinter.Number

/-! ### Hosts -/

/-- What a command works on. -/
structure Host (m : Type → Type) where
  /-- The text of a file, if it can be read. -/
  readFile : (path : String) → m (Option String)
  /-- The text of the standard input, if it can be read. -/
  readInput : m (Option String)
  /-- Write a file; the result tells whether that was possible. -/
  writeFile : (path : String) → (text : String) → m Bool
  /-- Write to the standard output. -/
  print : (text : String) → m Unit

/-- Why a command fails. -/
inductive Failure where
  | usage
  | configRead
  | configParse (fault : Fault)
  | inputRead
  | inputParse (fault : Fault)
  | hazard (hazard : Hazard)
  | outputWrite
  deriving DecidableEq, Repr

/-- The exit code of a failure. -/
def Failure.exitCode : Failure → Nat
  | .usage => 2
  | _ => 1

/-! ### Configuration -/

/-- The reader of a configuration file, whose only field is the options. -/
def configReader : Reader Options :=
  Json.readRecord [⟨"codegen", fun _ => Options.reader⟩] {}

/-- The options of a configuration text. -/
def readConfig (text : String) : Except Fault Options :=
  Json.readAll configReader text

/-- What the texts of configurations and programs stand for. -/
structure Decoder where
  config : (text : String) → Except Fault Options
  program : (text : String) → Except Fault Program

/-- The decoder that reads the texts as JSON. -/
def Decoder.json : Decoder where
  config := readConfig
  program := Tree.ofText .program

/-- The options with the switches of the command line on top. -/
def RenderArguments.adjust (a : RenderArguments) (o : Options) : Options :=
  { o with
    pretty := o.pretty || a.pretty
    webSafe := o.webSafe || a.webSafe
    hexLargeIntegers := o.hexLargeIntegers && !a.noHex }

/-! ### Rendering -/

/-- Does the path stand for the standard input? -/
def isStandardInput (path : String) : Bool :=
  match Files.splitPath path.toList with
  | ['-'] :: rest => rest.all fun name => name.isEmpty || name == ['.']
  | _ => false

section

variable {m : Type → Type} [Monad m] (d : Decoder) (h : Host m)

/-- The options of a rendering. -/
def renderOptions (cwd : String) (a : RenderArguments) : ExceptT Failure m Options := do
  match a.config? with
  | none => return a.adjust {}
  | some path =>
    match ← h.readFile (Files.join cwd path) with
    | none => throw .configRead
    | some text =>
      match d.config text with
      | .ok o => return a.adjust o
      | .error fault => throw (.configParse fault)

/-- The program to render. -/
def renderInput (cwd : String) (a : RenderArguments) : ExceptT Failure m Program := do
  let text? ←
    if isStandardInput a.input then h.readInput else h.readFile (Files.join cwd a.input)
  match text? with
  | none => throw .inputRead
  | some text =>
    match d.program text with
    | .ok p => return p
    | .error fault => throw (.inputParse fault)

/-- Render a program to a file or to the standard output. -/
def runRender (cwd : String) (a : RenderArguments) : ExceptT Failure m Unit := do
  let o ← renderOptions d h cwd a
  let p ← renderInput d h cwd a
  match Program.render o p with
  | .error hazard => throw (.hazard hazard)
  | .ok text =>
    match a.output? with
    | some path =>
      let done ← h.writeFile (Files.join cwd path) text
      unless done do throw .outputWrite
    | none => h.print (text ++ "\n")

end

/-! ### Numbers and the version -/

/-- The texts of a number: all digits, canonical, and as a literal. -/
def numberTexts (v : Double) : List String :=
  [v.positional, v.canonical, v.literal true]

/-- The texts of a number as JSON. -/
def numberJson (v : Double) : Json :=
  .object
    [("value", .string v.positional), ("d2a", .string v.canonical),
     ("short", .string (v.literal true))]

/-- What the command `number` prints. -/
def numberOutput (json : Bool) (values : List Double) : String :=
  if json then (Json.array (values.map numberJson)).render ++ "\n"
  else String.join (values.map fun v => " ".intercalate (numberTexts v) ++ "\n")

/-- What the command `version` prints. -/
def versionOutput (json : Bool) : String :=
  if json then
    (Json.object [("name", .string programName), ("version", .string version)]).render ++ "\n"
  else versionLine ++ "\n"

/-- What a request for help prints. -/
def helpOutput : String :=
  "Render Shift-JSON ASTs as ECMAScript source\n\n" ++
  "Usage: unparse [OPTIONS] [COMMAND]\n\n" ++
  "Commands:\n" ++
  "  version  Print version information\n" ++
  "  render   Render a Shift-JSON AST as source text\n" ++
  "  number   Show how numbers are formatted as literals\n" ++
  "  help     Print this message or the help of the given subcommand(s)\n"

/-! ### Command lines -/

section

variable {m : Type → Type} [Monad m] (d : Decoder) (h : Host m)

/-- Run what a command line asks for, in a working directory. -/
def runInvocation (directory : String) (i : Invocation) : ExceptT Failure m Unit :=
  match i.task with
  | .version => h.print (versionOutput i.json)
  | .number values => h.print (numberOutput i.json values)
  | .render a => runRender d h (i.cwd?.getD directory) a

/-- Run a command line in a working directory. -/
def run (directory : String) (arguments : List String) : ExceptT Failure m Unit :=
  match readArguments arguments with
  | .ok i => runInvocation d h directory i
  | .error .usage => throw .usage
  | .error .version => h.print (versionOutput false)
  | .error .help => h.print helpOutput

end

/-! ### Worlds in memory -/

/-- Files, a standard input and what has been printed. -/
structure World where
  files : Files := {}
  /-- The directory in which the command runs. -/
  directory : String := "/"
  /-- The text of the standard input, unless its bytes are no text. -/
  input : Option String := some ""
  output : String := ""

/-- The host of a world in memory. -/
def World.host : Host (StateM World) where
  readFile path := do
    let w ← get
    return w.files.readText? (Files.join w.directory path)
  readInput := return (← get).input
  writeFile path text := do
    let w ← get
    match w.files.writeText? (Files.join w.directory path) text with
    | some files => set { w with files := files }; return true
    | none => return false
  print text := modify fun w => { w with output := w.output ++ text }

/-- Run a command line in a world: how it ends, and the world afterwards. -/
def runIn (w : World) (arguments : List String) : Except Failure Unit × World :=
  (run .json World.host w.directory arguments).run.run w

end EcmaPrinter.Command
