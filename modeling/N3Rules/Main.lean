/-
The program: the command line with a file system.
-/
import N3Rules.CommandLine

namespace N3Rules

/-- more sweeps than any machine has time for -/
def sweepLimit : Nat := 1000000000000000

/-- the bytes of a file, or none when it cannot be read -/
def readFile? (path : String) : IO (Option (List UInt8)) := do
  try
    return some (← IO.FS.readBinFile path).toList
  catch _ =>
    return none

end N3Rules

open N3Rules in
def main (args : List String) : IO UInt32 := do
  let outcome ← match Request.read args with
    | .error code => pure (some code.outcome)
    | .ok request =>
      let contents ← match request.path with
        | some path => readFile? path
        | none => pure none
      pure (request.answer? sweepLimit contents)
  match outcome with
  | some outcome =>
    IO.print outcome.output
    unless outcome.note.isEmpty do
      IO.eprintln outcome.note
    return outcome.code.toNat.toUInt32
  | none =>
    IO.eprintln "the run was given up"
    return 1
