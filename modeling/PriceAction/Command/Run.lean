import PriceAction.Command.Arguments
import PriceAction.Command.FileSystem
import PriceAction.Json.Writer
import PriceAction.Settings.Codec
import PriceAction.Settings.Validation
import PriceAction.Snapshot.Codec
import PriceAction.Snapshot.Encoding
import PriceAction.Snapshot.Limits

/-!
# Running a job

The settings are read first and the inputs second; then the job runs, and its snapshots are
written or printed. The first step that fails ends the run with a message.
-/

namespace PriceAction.Command

/-- How a run ends. -/
inductive Outcome where
  /-- The text is for standard output. -/
  | printed (text : String)
  | written
  | refused (why : Refusal)
  | failed (message : String)
  /-- A time would have left the calendar. -/
  | overflowed
deriving DecidableEq, Repr

/-- The exit code of the process. -/
def Outcome.exitCode : Outcome → UInt32
  | printed _ => 0
  | written => 0
  | refused .help => 0
  | refused .usage => 2
  | failed _ => 1
  | overflowed => 101

variable {m : Type → Type} [Monad m]

/-- The value, or the end of the run with a message. -/
def orFail {β : Type} (message : String) : Option β → ExceptT Outcome m β
  | some x => pure x
  | none => throw (.failed message)

/-- The text that bytes encode. -/
def text? (bytes : Bytes) : Option String :=
  String.fromUTF8? ⟨bytes.toArray⟩

/-! ## Reading -/

/-- The settings of a file. -/
def loadSettings (fs : FileSystem m) (path : String) : ExceptT Outcome m (Settings Float) := do
  let text ← orFail ("Failed to read config " ++ path) ((← fs.read? path).bind text?)
  let settings ← orFail ("Failed to parse config " ++ path)
    ((Json.read? .scaled text).bind Settings.ofJson?)
  match settings.fault? with
  | some fault => throw (.failed fault.message)
  | none => return settings

/-- The markets of a file. -/
def loadFile (fs : FileSystem m) (path : String) : ExceptT Outcome m (List (Market Float)) := do
  let stored ← orFail ("Failed to read " ++ path) (← fs.read? path)
  let bytes ← orFail ("Failed to decompress " ++ path)
    (if Path.isCompressed path then Frame.load? stored else some stored)
  orFail ("Failed to parse " ++ path) ((text? bytes).bind Market.readFile?)

/-- The paths to the inputs in a directory, in the order of their names. -/
def inputsIn (directory : String) (names : List String) : List String :=
  ((names.filter Path.isInput).mergeSort fun a b => decide (a ≤ b)).map (Path.join directory)

/-- The markets of a file, or of all inputs in a directory. -/
def loadMarkets (fs : FileSystem m) (path : String) : ExceptT Outcome m (List (Market Float)) := do
  if ← fs.isDirectory path then
    let names ← orFail ("Failed to list " ++ path) (← fs.list? path)
    return (← (inputsIn path names).mapM (loadFile fs)).flatten
  else loadFile fs path

/-! ## The jobs -/

/-- Replays one market after the other. A market without its primary series adds nothing. -/
def replayAll? (settings : Settings Float) (warmup : Nat) :
    List (Market Float) → Store Float → Option (List (Snapshot Float) × Store Float)
  | [], store => some ([], store)
  | market :: rest, store => do
    let (snapshots, store) ← market.replay? settings warmup store
    let (more, store) ← replayAll? settings warmup rest store
    some (snapshots ++ more, store)

/-- The snapshots of a job. -/
def snapshots? (settings : Settings Float) (markets : List (Market Float)) (job : Job) :
    Option (List (Snapshot Float)) :=
  let store := Store.empty settings.stability
  match job with
  | .analyze => (batch? settings markets store).map (·.1)
  | .replay warmup => (replayAll? settings warmup markets store).map (·.1)

/-- The snapshots that are printed: a replay prints the last one only. -/
def shown (job : Job) (snapshots : List (Snapshot Float)) : List (Snapshot Float) :=
  match job with
  | .analyze => snapshots
  | .replay _ => snapshots.getLast?.toList

/-! ## Writing -/

def textOf (snapshots : List (Snapshot Float)) : String :=
  (Json.arrayOf Snapshot.toJson snapshots).pretty

/-- Writes a file, and makes the directory for it. -/
def save (fs : FileSystem m) (path : String) (content : Bytes) : ExceptT Outcome m Unit := do
  match (Path.parent? path).filter fun p => !p.isEmpty with
  | some parent =>
    if !(← fs.makeDirectory parent) then throw (.failed ("Failed to create " ++ parent))
  | none => pure ()
  let stored := if Path.isCompressed path then Frame.store content else content
  if !(← fs.write path stored) then throw (.failed ("Failed to write " ++ path))

/-! ## The run -/

/-- Does what a command line asks for. -/
def perform (fs : FileSystem m) (request : Request) : ExceptT Outcome m Outcome := do
  let settings ← match request.config? with
    | some path => loadSettings fs path
    | none => pure .standard
  let markets ← loadMarkets fs request.input
  match snapshots? settings markets request.job with
  | none => return .overflowed
  | some snapshots =>
    match request.output? with
    | some path =>
      save fs path (textOf snapshots).toUTF8.toList
      return .written
    | none => return .printed (textOf (shown request.job snapshots))

/-- Runs the program on its arguments and the configuration that the environment may name. -/
def run (fs : FileSystem m) (environment? : Option String) (args : List String) : m Outcome :=
  match parse environment? args with
  | .error why => pure (.refused why)
  | .ok request => do
    match ← (perform fs request).run with
    | .ok outcome => return outcome
    | .error outcome => return outcome

end PriceAction.Command
