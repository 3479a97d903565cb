import MiniLisp.Console.Batch

/-!
# The program

Reading the standard input and printing, around the pure function `MiniLisp.Console.batch`: `main` is
the one-shot program.
-/

namespace MiniLisp.Console

/-- All bytes of a stream. -/
partial def readAllBytes (input : IO.FS.Stream) (bytes : ByteArray) : IO ByteArray := do
  let more ← input.read 65536
  if more.isEmpty then return bytes
  readAllBytes input (bytes ++ more)

/-- Prints an output and answers its exit code. -/
def emit (output : Output) : IO UInt32 := do
  (← IO.getStdout).putStr output.stdout
  (← IO.getStderr).putStr output.stderr
  return output.exitCode.toUInt32

end MiniLisp.Console

/-- The one-shot program: the standard input is read only where there are no arguments. -/
def main (args : List String) : IO UInt32 := do
  let bytes ←
    if args.isEmpty then
      MiniLisp.Console.readAllBytes (← IO.getStdin) ByteArray.empty
    else pure ByteArray.empty
  MiniLisp.Console.emit (MiniLisp.Console.batch args bytes)
