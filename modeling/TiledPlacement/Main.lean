import TiledPlacement.Command

/-!
The program: it reads the file that the command line names and prints what the command does.
-/

namespace TiledPlacement

namespace Invocation

def fileContent (path : String) : IO (Option ByteArray) := do
  try return some (← IO.FS.readBinFile path)
  catch error =>
    match error with
    | .noFileOrDirectory .. => return none
    | other => throw other

/-- Run the command that the arguments name, if they name one; returns the exit code. -/
def execute (arguments : List String) : IO UInt32 := do
  match ofArguments? arguments with
  | none => return 2
  | some invocation =>
      let result := invocation.run (← fileContent invocation.path)
      IO.print result.output
      IO.eprint result.errors
      return result.code.toUInt32

end Invocation

end TiledPlacement

def main (arguments : List String) : IO UInt32 :=
  TiledPlacement.Invocation.execute arguments
