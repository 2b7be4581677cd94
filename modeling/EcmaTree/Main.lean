import EcmaTree.CommandLine.Run

/-!
# The program

The outer layer: it fetches the source, and writes what a run ends with.
-/

namespace EcmaTree.CommandLine

/-- All bytes of a stream behind those in `read`. -/
partial def readAll (stream : IO.FS.Stream) (read : ByteArray) : IO ByteArray := do
  let chunk ← stream.read 65536
  if chunk.isEmpty then return read else readAll stream (read ++ chunk)

/-- The bytes of a source. -/
def Input.bytes : Input → IO ByteArray
  | stdin => do readAll (← IO.getStdin) .empty
  | file path => IO.FS.readBinFile path

/-- The text of a source, if it can be read and is text. -/
def Input.fetch (input : Input) : IO (Option String) := do
  try
    return String.fromUTF8? (← input.bytes)
  catch _ =>
    return none

end EcmaTree.CommandLine

open EcmaTree.CommandLine in
/-- Run the command line. -/
def main (args : List String) : IO UInt32 := do
  let outcome ← run args (← IO.getEnv optionsVariable) Input.fetch
  for notice in outcome.notices do
    IO.eprintln notice
  IO.print outcome.output
  return outcome.status.toUInt32
