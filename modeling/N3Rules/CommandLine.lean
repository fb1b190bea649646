/-
The command line: which file to load, and how to print what comes of it.

- `Request.read`: what the arguments ask for, or the exit code when they ask for nothing that can be done;
- `Request.answer?`: the exit code and the output, from the contents of the file.
-/
import N3Rules.Engine

namespace N3Rules

inductive ExitCode where
  | success
  /-- something went wrong on the way -/
  | failure
  /-- the arguments make no sense -/
  | usage
  deriving DecidableEq, Repr

def ExitCode.toNat : ExitCode → Nat
  | .success => 0
  | .failure => 1
  | .usage => 2

/-- what arguments ask for, as far as they are read -/
structure Request where
  path : Option String := none
  json : Bool := false
  trace : Bool := false
  format : String := "n3"
  deriving DecidableEq, Repr

/-- the request after more arguments are read. The first argument that is neither an option nor the value of one is
the path, and a second one makes no sense -/
def Request.readFrom (r : Request) : List String → Except ExitCode Request
  | [] => if r.path.isSome then .ok r else .error .usage
  | "--json" :: args => { r with json := true }.readFrom args
  | "--trace" :: args => { r with trace := true }.readFrom args
  | ["--format"] => .error .failure
  | "--format" :: name :: args => { r with format := name }.readFrom args
  | arg :: args => if r.path.isSome then .error .usage else { r with path := some arg }.readFrom args

def Request.read (args : List String) : Except ExitCode Request :=
  ({} : Request).readFrom args

def usageText : String := "usage: n3rules <file.n3> [--json] [--trace] [--format <name>]"

/-- what the command line leaves behind -/
structure Outcome where
  code : ExitCode
  output : String := ""
  /-- what is said beside the output -/
  note : String := ""
  deriving DecidableEq, Repr

/-- the outcome when the arguments ask for nothing that can be done -/
def ExitCode.outcome (code : ExitCode) : Outcome :=
  ⟨code, "", usageText⟩

/-- the engine that a request asks for -/
def Request.engine (r : Request) (format : Format) : Engine :=
  { config := ⟨format, if r.trace then .all else {}⟩ }

/-- the outcome that the reply to a run makes -/
def Request.outcome (r : Request) : Reply → Outcome
  | .report report =>
    if r.json then ⟨.success, report.json ++ "\n", ""⟩ else ⟨.success, report.lines, report.message⟩
  | .failure f => ⟨.failure, "", f.message⟩
  | _ => ⟨.failure, "", ""⟩

/-- the outcome of a request, from the bytes of the file, which are none when it cannot be read; none when the run
has more than `limit` sweeps -/
def Request.answer? (limit : Nat) (r : Request) (contents : Option (List UInt8)) : Option Outcome :=
  match Format.ofName? r.format, contents.map Text.decodeUtf8 with
  | none, _ => some ⟨.failure, "", (Failure.unsupportedFormat r.format).message⟩
  | _, none => some ⟨.failure, "", "the file cannot be read"⟩
  | _, some (.error fault) => some ⟨.failure, "", (Failure.notText fault).message⟩
  | some format, some (.ok text) => do
    let (engine, reply) ← (r.engine format).perform? limit (.loadAs (String.ofList text) r.format)
    match reply with
    | .done =>
      let (_, reply) ← engine.perform? limit .reason
      return r.outcome reply
    | reply => return r.outcome reply

/-- the outcome of a command line, from the bytes of the files that there are -/
def answer? (limit : Nat) (args : List String) (contents : String → Option (List UInt8)) : Option Outcome :=
  match Request.read args with
  | .error code => some code.outcome
  | .ok r => r.answer? limit (r.path.bind contents)

end N3Rules
