import Tabletop.Directory
import Tabletop.Scene.File
import Tabletop.Session.Wait

/-! The command line: what its arguments ask for, and what it answers. It reads files and one
variable of the environment, and nothing else. -/

namespace Tabletop

/-- What a call of the command line writes, and its exit code. -/
structure Outcome where
  code : Nat := 0
  stdout : String := ""
  stderr : String := ""

/-- What the command line can see. -/
structure Surroundings where
  file : String → Except FileError String
  loopGuard : Option String

/-- What the arguments ask for. -/
inductive Invocation where
  | help
  | unknown (command : String)
  /-- An argument is missing. -/
  | misused (usage : String)
  | compile (path : String)
  | flatten (path : String)
  | inflate (path : String)
  | hash (path : String)
  | run (path : String) (config seconds : Option String) (broadcasts selection : List String)

namespace CommandLine

def helpText : String :=
"piecescript CLI

Usage:
  piecescript compile <graph.json>
  piecescript flatten <graph.json>
  piecescript inflate <graph.json>
  piecescript hash <graph.json>
  piecescript run <scene.json> [--broadcast <name>]... [--select <id>]... [--for <secs>]

Flags:
  --config <file>    Session configuration (JSON)
  --broadcast <name> Broadcast a message once behaviors are installed (repeatable)
  --select <id>      Select an object once behaviors are installed (repeatable)
  --for <secs>       Simulated run time (default: 1)
  --trace            Log at trace level
  -h, --help         Show this help message

Environment:
  RUST_LOG                 Log filter (default: piecescript=info)
  PIECESCRIPT_LOOP_GUARD   Loop guard seed override

"

/-! ### Arguments -/

/-- Takes the first occurrence of a flag out, with its value; an error where the value is
missing. -/
def takeValue (flag : String) : List String → Except Unit (Option String × List String)
  | [] => .ok (none, [])
  | a :: rest =>
    if a = flag then match rest with
      | value :: rest => .ok (some value, rest)
      | [] => .error ()
    else do
      let (value, left) ← takeValue flag rest
      return (value, a :: left)

/-- Takes all occurrences of a flag out, with their values. The flag as the last argument stays. -/
def takeAll (flag : String) : List String → List String × List String
  | [] => ([], [])
  | [a] => ([], [a])
  | a :: b :: rest =>
    if a = flag then
      let (values, left) := takeAll flag rest
      (b :: values, left)
    else
      let (values, left) := takeAll flag (b :: rest)
      (values, a :: left)

/-- The usage line that stands for a flag without its value. -/
def flagUsage (flag : String) : Invocation :=
  .misused ("Usage: piecescript ... " ++ flag ++ " <value>\n")

/-- A command that takes the path of a graph. -/
def onGraph (command : String) (make : String → Invocation) : List String → Invocation
  | path :: _ => make path
  | [] => .misused ("Usage: piecescript " ++ command ++ " <graph.json>\n")

/-- What a command and its arguments ask for, the flags being taken out. -/
def ofCommand (config seconds : Option String) (broadcasts selection : List String) :
    List String → Invocation
  | [] => .help
  | command :: args =>
    match command with
    | "-h" => .help
    | "--help" => .help
    | "help" => .help
    | "compile" => onGraph command .compile args
    | "flatten" => onGraph command .flatten args
    | "inflate" => onGraph command .inflate args
    | "hash" => onGraph command .hash args
    | "run" => match args with
      | path :: _ => .run path config seconds broadcasts selection
      | [] => .misused
          "Usage: piecescript run <scene.json> [--broadcast <name>]... [--for <secs>]\n"
    | other => .unknown other

/-- What the arguments ask for. -/
def parse (args : List String) : Invocation :=
  match takeValue "--config" (args.filter (· != "--trace")) with
  | .error () => flagUsage "--config"
  | .ok (config, args) => match takeValue "--for" args with
    | .error () => flagUsage "--for"
    | .ok (seconds, args) =>
      let (broadcasts, args) := takeAll "--broadcast" args
      let (selection, args) := takeAll "--select" args
      ofCommand config seconds broadcasts selection args

/-! ### Answers -/

/-- A call that fails with a message. -/
def failure (message : String) : Outcome := { code := 1, stderr := message ++ "\n" }

def printed (d : Document) : Outcome := { stdout := d.pretty ++ "\n" }

/-- The contents of a file, or the failure to read it. -/
def contents (around : Surroundings) (path : String) : Except Outcome String :=
  (around.file path).mapError fun why => failure s!"Error reading {path}: {why.message}"

/-- The graph in a file, in either form. -/
def graphAt (around : Surroundings) (path : String) : Except Outcome Graph := do
  let refuse := fun why : String => failure s!"Error: {path}: {why}"
  let stored ← (StoredGraph.format.read (← contents around path)).mapError refuse
  stored.toGraph.mapError fun e => refuse e.message

/-- The settings in a file or else the default ones, with the loop guard of the environment. -/
def configAt (around : Surroundings) (path : Option String) : Except Outcome Config := do
  let config : Config ← match path with
    | none => pure {}
    | some path =>
      let refuse := fun why : String => failure s!"Error: invalid config {path}: {why}"
      (Config.format.read (← contents around path)).mapError refuse
  return config.withGuardFrom around.loopGuard

/-- The run time in whole milliseconds, what is over being too short for a tick of the clock; one
second where none is given. -/
def durationOf : Option String → Except Outcome Nat
  | none => .ok 1000
  | some s =>
    let refused : Outcome :=
      { stderr := "Error: --for expects a non-negative number of seconds.\n" }
    match Decimal.read? s with
    | none => .error refused
    | some x =>
      if 0.0 <= x && x < 18446744073709551616.0 then .ok (Double.nanoseconds x / 1000000)
      else .error refused

/-- Runs a scene for some milliseconds and gives its objects. The clock runs between its ticks, so
even in no time at all the scripts come to where they have to wait. -/
def simulate (scene : Scene) (config : Config) (milliseconds : Nat)
    (broadcasts selection : List String) : Except HostError (List SceneObject) :=
  let s : Session := { config, scene := scene.subscribe, lag := 1 }
  let s := s.loadResources.2.sync.2
  let s := if selection.isEmpty then s else (s.select selection).2
  let s := broadcasts.foldl (fun s name => (s.broadcast name none).2) s
  let s := (Session.follow (s.clock + milliseconds) Session.patience [] s).2
  match s.shutdown with
  | (.ok (), s) => .ok s.scene.snapshot
  | (.error e, _) => .error e

def runScene (around : Surroundings) (path : String) (config seconds : Option String)
    (broadcasts selection : List String) : Except Outcome Outcome := do
  let config ← configAt around config
  let milliseconds ← durationOf seconds
  let file ← (SceneFile.format.read (← contents around path)).mapError fun why =>
    failure s!"Error: invalid scene {path}: {why}"
  let objects ← (simulate file.scene config milliseconds broadcasts selection).mapError fun e =>
    failure s!"Error: {e.message}"
  return printed (.array (objects.map SceneObject.encode))

def compileGraph (around : Surroundings) (path : String) : Except Outcome Outcome := do
  let g ← graphAt around path
  let p ← (g.compile Digest.sha256 []).mapError fun e => failure e.message
  return printed (.array (p.descriptors.map Descriptor.encode))

/-- Does what an invocation asks for. -/
def perform (around : Surroundings) : Invocation → Except Outcome Outcome
  | .help => return { stdout := helpText }
  | .unknown command =>
    return { code := 2, stdout := helpText, stderr := s!"Error: unknown command `{command}`\n" }
  | .misused usage => return { stderr := usage }
  | .compile path => compileGraph around path
  | .flatten path => do return printed (FlatGraph.ofGraph (← graphAt around path)).encode
  | .inflate path => do return printed (← graphAt around path).encode
  | .hash path => do
    let g ← graphAt around path
    return { stdout := Digest.hex (Digest.sha256 (g.hashed [])) ++ "\n" }
  | .run path config seconds broadcasts selection =>
    runScene around path config seconds broadcasts selection

/-- Answers a call of the command line. -/
def run (around : Surroundings) (args : List String) : Outcome :=
  match perform around (parse args) with
  | .ok o => o
  | .error o => o

/-- The files that an invocation may read. -/
def paths : Invocation → List String
  | .compile path => [path]
  | .flatten path => [path]
  | .inflate path => [path]
  | .hash path => [path]
  | .run path config _ _ _ => path :: config.toList
  | _ => []

end CommandLine

end Tabletop
