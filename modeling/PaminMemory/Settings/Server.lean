import PaminMemory.Settings.Paths
import PaminMemory.Topics.Filter

/-!
# What a server runs with

Each setting comes from a flag, from the file or from its default, in that order.  A command
asks a running server for what its own settings resolve to, and the server answers only a
command it matches.
-/

namespace PaminMemory
namespace Settings

inductive DeviceChoice where
  | auto
  | cpu
deriving DecidableEq, Repr

namespace DeviceChoice

def all : List DeviceChoice := [auto, cpu]

def label : DeviceChoice -> String
  | auto => "auto"
  | cpu => "cpu"

def trim (chars : List Char) : List Char :=
  ((chars.dropWhile Topics.isWhitespace).reverse.dropWhile Topics.isWhitespace).reverse

/-- The choice a name stands for, ignoring ASCII case. -/
def parse (name : String) : Option DeviceChoice :=
  all.find? fun choice => choice.label.toList = (trim name.toList).map Char.toLower

end DeviceChoice

structure NonZero where
  val : Nat
  pos : 0 < val
  bound : val < 18446744073709551616
deriving DecidableEq, Repr

namespace NonZero

def toText (n : NonZero) : String := n.val.repr

def withoutSign : List Char -> List Char
  | '+' :: rest => rest
  | chars => chars

def parse (text : String) : Option NonZero :=
  let figures := withoutSign text.toList
  if figures ≠ [] ∧ figures.all Char.isDigit then
    let n := Nat.ofDigitChars 10 figures 0
    if h : 0 < n ∧ n < 18446744073709551616 then
      some { val := n, pos := h.1, bound := h.2 }
    else
      none
  else
    none

end NonZero

/-!
## Defaults
-/

def CONFIG : String := "config.toml"

def OPEN_INDEXES : NonZero := { val := 16, pos := by decide, bound := by decide }

def PREPARED : Bool := true

def FUSED_ATTENTION : Bool := true

def SPLIT_EMBEDDINGS : Bool := true

def JIT : Bool := false

def MODEL_IDLE : NonZero := { val := 1800, pos := by decide, bound := by decide }

/-!
## What is given

The command line, the file and the environment; each setting is taken from the first that has it.
-/

/-- The server's settings as flags: an absent one leaves the decision to the file. -/
structure ServerArgs where
  device : Option DeviceChoice
  inferenceThreads : Option NonZero
  epLibraries : List Path
  prepared : Option Bool
  fusedAttention : Option Bool
  splitEmbeddings : Option Bool
  modelIdle : Option NonZero
  openIndexes : Option NonZero
  jit : Option Bool
  postgresDir : Option Path
  modelsDir : Option Path
deriving DecidableEq, Repr

def ServerArgs.none : ServerArgs :=
  { device := Option.none, inferenceThreads := Option.none, epLibraries := []
    prepared := Option.none, fusedAttention := Option.none, splitEmbeddings := Option.none
    modelIdle := Option.none, openIndexes := Option.none, jit := Option.none
    postgresDir := Option.none, modelsDir := Option.none }

structure Serve where
  device : Option String
  inferenceThreads : Option NonZero
  epLibraries : Option (List Path)
  prepared : Option Bool
  modelIdle : Option NonZero
  openIndexes : Option NonZero
  jit : Option Bool
  postgresDir : Option Path
  modelsDir : Option Path
deriving DecidableEq, Repr

inductive Source where
  | default
  | config
  | env
  | flag
deriving DecidableEq, Repr

def Source.name : Source -> String
  | default => "default"
  | config => "config"
  | env => "env"
  | flag => "flag"

/-- One setting as resolved. -/
structure Entry where
  key : String
  /-- The value for a person or a program to read back. -/
  value : String
  compared : String
  source : Source
deriving DecidableEq, Repr

/-- What a process finds around it: its environment, its directory and the files. -/
structure Machine where
  deviceVar : Option OsString
  modelsDirVar : Option OsString
  /-- A path made absolute against the current directory. -/
  absolute : Path -> Except String Path
  /-- What a PostgreSQL installation prefix lacks, if anything. -/
  installationMissing : Path -> Option String
  /-- Where models are cached unless a caller says otherwise. -/
  modelsDir : Path
  /-- The `[serve]` table of a configuration file, empty where there is no file. -/
  read : Path -> Except String Serve
  /-- A list of texts as one value. -/
  json : List String -> String

/-- The flags of a command line with what the environment adds, and where each came from. -/
structure Matches where
  args : ServerArgs
  given : String -> Option Source

section Parsing

variable (machine : Machine)

def fallback {α : Type} (flag : Option α) (fromEnv : Option OsString)
    (parse : OsString -> Option α) : Except String (Option α) :=
  match flag, fromEnv with
  | some value, _ => Except.ok (some value)
  | none, none => Except.ok none
  | none, some text =>
      match parse text with
      | some value => Except.ok (some value)
      | none => Except.error "invalid value from the environment"

def parseDevice (value : OsString) : Option DeviceChoice :=
  (toStr value).bind DeviceChoice.parse

def parsePath (value : OsString) : Option Path := if value = [] then none else some value

def flagOr {α : Type} (flag given : Option α) : Option Source :=
  if flag.isSome then some Source.flag else if given.isSome then some Source.env else none

def matched (line : ServerArgs) : Except String Matches := do
  let device ← fallback line.device machine.deviceVar parseDevice
  let modelsDir ← fallback line.modelsDir machine.modelsDirVar parsePath
  pure
    { args := { line with device := device, modelsDir := modelsDir }
      given := fun
        | "device" => flagOr line.device device
        | "inference_threads" => flagOr line.inferenceThreads none
        | "ep_libraries" => if line.epLibraries.isEmpty then none else some Source.flag
        | "prepared" => flagOr line.prepared none
        | "fused_attention" => flagOr line.fusedAttention none
        | "split_embeddings" => flagOr line.splitEmbeddings none
        | "model_idle" => flagOr line.modelIdle none
        | "open_indexes" => flagOr line.openIndexes none
        | "jit" => flagOr line.jit none
        | "postgres_dir" => flagOr line.postgresDir none
        | "models_dir" => flagOr line.modelsDir modelsDir
        | _ => none }

end Parsing

/-- What a server runs with, and where each value came from. -/
structure Server where
  device : DeviceChoice
  threads : Option NonZero
  epLibraries : List Path
  prepared : Bool
  fusedAttention : Bool
  splitEmbeddings : Bool
  modelIdle : NonZero
  openIndexes : NonZero
  jit : Bool
  postgresDir : Option Path
  modelsDir : Path
  entries : List Entry
deriving DecidableEq, Repr

/-!
## What each setting comes to
-/

section Resolving

variable (machine : Machine)

def anchored (path : Path) (base : Option Path) : Except String Path :=
  machine.absolute (match base with
    | some base => join base path
    | none => path)

def pick (key : String) (flag : Option String) (flagSource : Option Source)
    (config : Option String) (default : String) : Entry :=
  match flag, config with
  | some flag, _ =>
      { key := key, value := flag, compared := flag
        source := flagSource.getD Source.flag }
  | none, some config =>
      { key := key, value := config, compared := config, source := Source.config }
  | none, none =>
      { key := key, value := default, compared := default, source := Source.default }

def libraries (paths : List Path) : String :=
  if paths = [] then "none" else machine.json (paths.map spelledPath)

def boolText (b : Bool) : String := if b then "true" else "false"

def chosenDevice (flag : Option DeviceChoice) (config : Option String) :
    Except String DeviceChoice :=
  match flag, config with
  | some device, _ => Except.ok device
  | none, some name =>
      match DeviceChoice.parse name with
      | some device => Except.ok device
      | none => Except.error (CONFIG ++ ": unknown device " ++ name ++
          "; expected one of auto, cpu")
  | none, none => Except.ok DeviceChoice.auto

def checkInstallation (given : Option Source) (postgresDir : Option Path) : Except String Unit :=
  match postgresDir.bind fun dir =>
      (machine.installationMissing dir).map fun missing => (dir, missing) with
  | none => Except.ok ()
  | some (dir, missing) =>
      let named :=
        match given with
        | some Source.env => "postgres_dir from the environment"
        | some _ => "--postgres-dir"
        | none => CONFIG ++ ": postgres_dir"
      Except.error (named ++ " " ++ shownPath dir ++
        " is not a PostgreSQL installation: it has no " ++ missing)

def Entry.shown (epLibraries : List Path) (postgresDir : Option Path) (modelsDir : Path)
    (entry : Entry) : Entry :=
  match entry.key with
  | "ep_libraries" =>
      if epLibraries = [] then entry
      else { entry with value := machine.json (epLibraries.map shownPath) }
  | "postgres_dir" =>
      match postgresDir with
      | some dir => { entry with value := shownPath dir }
      | none => entry
  | "models_dir" => { entry with value := shownPath modelsDir }
  | _ => entry

structure Located where
  serve : Serve
  device : DeviceChoice
  flagLibraries : List Path
  fileLibraries : Option (List Path)
  flagPostgres : Option Path
  filePostgres : Option Path
  flagModels : Option Path
  fileModels : Option Path

namespace Located

variable (located : Located)

def epLibraries : List Path :=
  if located.flagLibraries = [] then located.fileLibraries.getD [] else located.flagLibraries

def postgresDir : Option Path := located.flagPostgres <|> located.filePostgres

def modelsDir : Path :=
  (located.flagModels <|> located.fileModels).getD machine.modelsDir

end Located

/--
A relative path in a flag is the caller's, against the directory it ran in; one in the file is
the file's, against the workspace.
-/
def locate (root : Path) (given : Matches) : Except String Located := do
  let args := given.args
  let serve ← machine.read (join root (osString CONFIG))
  let device ← chosenDevice args.device serve.device
  let flagLibraries ← args.epLibraries.mapM fun path => anchored machine path none
  let fileLibraries ← serve.epLibraries.mapM fun paths =>
    paths.mapM fun path => anchored machine path (some root)
  let flagPostgres ← args.postgresDir.mapM fun path => anchored machine path none
  let filePostgres ← serve.postgresDir.mapM fun path => anchored machine path (some root)
  checkInstallation machine (given.given "postgres_dir") (flagPostgres <|> filePostgres)
  let flagModels ← args.modelsDir.mapM fun path => anchored machine path none
  let fileModels ← serve.modelsDir.mapM fun path => anchored machine path (some root)
  pure
    { serve := serve, device := device, flagLibraries := flagLibraries
      fileLibraries := fileLibraries, flagPostgres := flagPostgres
      filePostgres := filePostgres, flagModels := flagModels, fileModels := fileModels }

def entriesOf (given : Matches) (located : Located) : List Entry :=
  let args := given.args
  let serve := located.serve
  [pick "device" (args.device.map DeviceChoice.label) (given.given "device")
      (serve.device.map fun _ => located.device.label) DeviceChoice.auto.label,
    pick "inference_threads" (args.inferenceThreads.map NonZero.toText)
      (given.given "inference_threads") (serve.inferenceThreads.map NonZero.toText)
      "one per core",
    pick "ep_libraries"
      (if located.flagLibraries = [] then none
        else some (libraries machine located.flagLibraries))
      (given.given "ep_libraries") (located.fileLibraries.map (libraries machine))
      (libraries machine []),
    pick "prepared" (args.prepared.map boolText) (given.given "prepared")
      (serve.prepared.map boolText) (boolText PREPARED),
    pick "fused_attention" (args.fusedAttention.map boolText) (given.given "fused_attention")
      none (boolText FUSED_ATTENTION),
    pick "split_embeddings" (args.splitEmbeddings.map boolText)
      (given.given "split_embeddings") none (boolText SPLIT_EMBEDDINGS),
    pick "model_idle" (args.modelIdle.map NonZero.toText) (given.given "model_idle")
      (serve.modelIdle.map NonZero.toText) MODEL_IDLE.toText,
    pick "open_indexes" (args.openIndexes.map NonZero.toText) (given.given "open_indexes")
      (serve.openIndexes.map NonZero.toText) OPEN_INDEXES.toText,
    pick "jit" (args.jit.map boolText) (given.given "jit") (serve.jit.map boolText)
      (boolText JIT),
    pick "postgres_dir" (located.flagPostgres.map spelledPath) (given.given "postgres_dir")
      (located.filePostgres.map spelledPath) "none (installs its own)",
    pick "models_dir" (located.flagModels.map spelledPath) (given.given "models_dir")
      (located.fileModels.map spelledPath) (spelledPath machine.modelsDir)]

def settled (given : Matches) (located : Located) : Server :=
  let args := given.args
  let serve := located.serve
  { device := located.device, threads := args.inferenceThreads <|> serve.inferenceThreads
    epLibraries := located.epLibraries
    prepared := (args.prepared <|> serve.prepared).getD PREPARED
    fusedAttention := args.fusedAttention.getD FUSED_ATTENTION
    splitEmbeddings := args.splitEmbeddings.getD SPLIT_EMBEDDINGS
    modelIdle := (args.modelIdle <|> serve.modelIdle).getD MODEL_IDLE
    openIndexes := (args.openIndexes <|> serve.openIndexes).getD OPEN_INDEXES
    jit := (args.jit <|> serve.jit).getD JIT, postgresDir := located.postgresDir
    modelsDir := located.modelsDir machine
    entries := (entriesOf machine given located).map
      (Entry.shown machine located.epLibraries located.postgresDir
        (located.modelsDir machine)) }

def resolve (root : Path) (given : Matches) : Except String Server :=
  (locate machine root given).map (settled machine given)

end Resolving

/-!
# Asking a running server
-/

/-- One setting as a client asks for it. -/
structure Asked where
  value : String
  /-- Whether the client chose it, rather than leaving it to the default. -/
  chosen : Bool
deriving DecidableEq, Repr

namespace Server

def asked (server : Server) : List (String × Asked) :=
  server.entries.map fun entry =>
    (entry.key, { value := entry.compared, chosen := entry.source ≠ Source.default })

def differs (running : Entry) (wanted : Asked) : Bool :=
  let tolerated := !wanted.chosen &&
    (running.source = Source.flag || running.source = Source.env)
  wanted.value ≠ running.compared && !tolerated

def difference (running : Entry) (wanted : Asked) : String :=
  running.key ++ " = " ++ wanted.value ++ " (running with " ++ running.value ++ ", from " ++
    running.source.name ++ ")"

def mismatch (server : Server) (asked : List (String × Asked)) : Option String :=
  let differing := server.entries.filterMap fun running =>
    (asked.lookup running.key).bind fun wanted =>
      if differs running wanted then some (difference running wanted) else none
  if differing = [] then
    none
  else
    some ("the running server was started with other settings than this command asks for: " ++
      "; ".intercalate differing ++ ". Settings are fixed when the server starts: run " ++
      "`pamin-memory stop`, then run the command again to start a server with them.")

end Server

end Settings
end PaminMemory
