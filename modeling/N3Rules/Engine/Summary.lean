/-
One-line summaries of builtins, registries, buses and engines, for people who look for a fault.

A record is summed up as its name and its fields in braces. Texts stand in quotes, with quotes, backslashes and
hidden characters escaped.
-/
import N3Rules.Text.Hidden
import N3Rules.Engine

namespace N3Rules

/-- a record: its name and its fields -/
def summaryOf (name : String) (fields : List (String × String)) : String :=
  name ++ " \x7b " ++ ", ".intercalate (fields.map fun f => f.1 ++ ": " ++ f.2) ++ " \x7d"

/-- items between square brackets -/
def summaryOfList (items : List String) : String :=
  "[" ++ ", ".intercalate items ++ "]"

/-- a character inside the quotes of a text; a hidden character is written by its letter or as its code point -/
def summaryOfChar (c : Char) : String :=
  match c with
  | '"' => "\\\""
  | '\\' => "\\\\"
  | '\n' => "\\n"
  | '\r' => "\\r"
  | '\t' => "\\t"
  | '\x00' => "\\0"
  | c =>
    if Text.isHidden c then
      "\\u\x7b" ++ String.ofList (Nat.toDigits 16 c.toNat) ++ "\x7d"
    else c.toString

def summaryOfText (s : String) : String :=
  "\"" ++ String.join (s.toList.map summaryOfChar) ++ "\""

def summaryOfBool (b : Bool) : String :=
  if b then "true" else "false"

def Arity.summary : Arity → String
  | .unary => "Unary"
  | .binary => "Binary"
  | .ternary => "Ternary"

/-- a builtin, without what it answers -/
def Builtin.summary (b : Builtin) : String :=
  let description := (b.description.map fun d => "Some(" ++ summaryOfText d ++ ")").getD "None"
  "Builtin \x7b uri: " ++ summaryOfText b.uri ++ ", arity: " ++ b.arity.summary ++ ", description: " ++ description ++
    ", .. \x7d"

def Registry.summary (r : Registry) : String :=
  summaryOf "BuiltinRegistry"
    [("custom", summaryOfList (r.registered.map Builtin.summary)),
      ("merged", summaryOfList (r.all.map Builtin.summary))]

/-- a bus, by the occasions of its subscribers -/
def Bus.summary (bus : Bus) : String :=
  summaryOf "HookBus"
    [("subscribers", summaryOfList (bus.subscribers.map fun s => summaryOfText s.occasion.name))]

def Config.summary (c : Config) : String :=
  summaryOf "EngineConfig"
    [("format", c.format.name.toUpper),
      ("log", summaryOf "LogConfig"
        [("trace_matching", summaryOfBool c.tracing.matching), ("trace_rules", summaryOfBool c.tracing.rules),
          ("trace_builtins", summaryOfBool c.tracing.builtins)])]

/-- an engine, of whose document only the sizes are told -/
def Engine.summary (e : Engine) : String :=
  let sizes := fun d : Document => s!"Some({d.triples.length} triples, {d.rules.length} rules)"
  summaryOf "Engine"
    [("config", e.config.summary), ("state", e.status.name), ("document", (e.state.document?.map sizes).getD "None"),
      ("registry", e.context.registry.summary), ("hooks", e.bus.summary),
      ("plugin", summaryOfBool e.plugin.isSome)]

end N3Rules
