import EcmaPrinter.Command.Run

/-!
The program: runs its command line on the real files.
-/

namespace EcmaPrinter

open EcmaPrinter.Command

/-- The outcome of an action that may fail. -/
def attempt {α : Type} (action : IO α) : IO (Option α) := do
  try return some (← action)
  catch _ => return none

/-- All bytes that are left in a stream, behind those that have been read. -/
partial def readBlocks (stream : IO.FS.Stream) (read : ByteArray) : IO ByteArray := do
  let block ← stream.read 65536
  if block.isEmpty then return read else readBlocks stream (read ++ block)

/-- The real files, standard input and standard output. -/
def realHost : Host IO where
  readFile path := attempt (IO.FS.readFile path)
  readInput := do
    match ← attempt (do readBlocks (← IO.getStdin) .empty) with
    | some bytes => return String.fromUTF8? bytes
    | none => return none
  writeFile path text := return (← attempt (IO.FS.writeFile path text)).isSome
  print text := do
    let out ← IO.getStdout
    out.putStr text
    out.flush

/-- What is said about a failure. -/
def failureMessage : Failure → String
  | .usage => "the arguments are not understood; try --help"
  | .configRead => "the configuration cannot be read"
  | .configParse _ => "the configuration is not valid"
  | .inputRead => "the input cannot be read"
  | .inputParse _ => "the input is not a tree"
  | .hazard h => h.message
  | .outputWrite => "the output cannot be written"

end EcmaPrinter

/-- Run the command line; the result is the exit code. -/
def main (arguments : List String) : IO UInt32 := do
  match ← (EcmaPrinter.Command.run .json EcmaPrinter.realHost "." arguments).run with
  | .ok () => return 0
  | .error failure =>
    IO.eprintln s!"Error: {EcmaPrinter.failureMessage failure}"
    return failure.exitCode.toUInt32
