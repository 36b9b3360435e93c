import PriceAction.Power
import PriceAction.Text.Blank

/-!
# The command line

A verb names the job, options may stand before and after it, and what is left is the input. The
arguments are read one by one, and the first that is out of place, or asks for help, decides.
-/

namespace PriceAction.Command

inductive Job where
  /-- Every market once. -/
  | analyze
  /-- Every market bar by bar, from the given number of primary bars on. -/
  | replay (warmup : Nat)
deriving DecidableEq, Repr

/-- What a command line asks for. -/
structure Request where
  job : Job
  input : String
  output? : Option String
  config? : Option String
deriving DecidableEq, Repr

/-- Why a command line names no job. -/
inductive Refusal where
  | help
  | usage
deriving DecidableEq, Repr

/-! ## Single arguments -/

/-- An argument as it looks on its own. -/
inductive Token where
  /-- No option; a single dash is none either. -/
  | word (s : String)
  /-- Two dashes, after which no option follows. -/
  | separator
  | long (name : String) (value? : Option String)
  | short (letter : Char) (value? : Option String)
deriving DecidableEq, Repr

def Token.of (arg : String) : Token :=
  match arg.toList with
  | ['-', '-'] => .separator
  | '-' :: '-' :: rest =>
    match rest.dropWhile (· ≠ '=') with
    | [] => .long (String.ofList rest) none
    | _ :: value =>
      .long (String.ofList (rest.takeWhile (· ≠ '='))) (some (String.ofList value))
  | ['-', letter] => .short letter none
  | '-' :: letter :: '=' :: value => .short letter (some (String.ofList value))
  | '-' :: letter :: value => .short letter (some (String.ofList value))
  | _ => .word arg

inductive Verb where
  | analyze
  | replay
  | help
deriving DecidableEq, Repr

def Verb.ofText? : String → Option Verb
  | "analyze" => some analyze
  | "replay" => some replay
  | "help" => some help
  | _ => none

/-- An option with a value. -/
inductive Flag where
  | config
  | output
  | warmup
deriving DecidableEq, Repr

namespace Flag

/-- Whether the option is known after a verb, or before it. -/
def isKnown : Flag → Option Verb → Bool
  | config, _ => true
  | output, verb? => verb?.isSome
  | warmup, verb? => verb? = some .replay

def ofLong? : String → Option Flag
  | "config" => some config
  | "output" => some output
  | "warmup" => some warmup
  | _ => none

def ofShort? : Char → Option Flag
  | 'c' => some config
  | 'o' => some output
  | _ => none

end Flag

/-- A path has to have a character at least. -/
def path? (s : String) : Option String :=
  if s.isEmpty then none else some s

/-- A whole number below `2 ^ 64`, with a plus sign or without. -/
def count? (s : String) : Option Nat :=
  let digits := match s.toList with
    | '+' :: rest => rest
    | cs => cs
  if !digits.isEmpty && digits.all Text.isDigit && Text.number digits < pow2 64 then
    some (Text.number digits)
  else none

/-! ## The arguments one by one -/

/-- What has been read of a command line. -/
structure Reading where
  verb? : Option Verb := none
  /-- An option whose value is the next argument. -/
  waiting? : Option Flag := none
  /-- Whether the two dashes have been seen. -/
  literal : Bool := false
  /-- The configuration named before the verb. -/
  outerConfig? : Option String := none
  config? : Option String := none
  output? : Option String := none
  warmup? : Option Nat := none
  input? : Option String := none
  /-- What help is asked about. -/
  topics : List String := []
deriving DecidableEq, Repr

namespace Reading

/-- A value given once. -/
def once {β : Type} (earlier value? : Option β) : Except Refusal (Option β) :=
  match earlier, value? with
  | none, some value => .ok (some value)
  | _, _ => .error .usage

/-- Takes the value of an option. -/
def put (r : Reading) (flag : Flag) (value : String) : Except Refusal Reading :=
  let r := { r with waiting? := none }
  match flag with
  | .config =>
    if r.verb?.isNone then
      (once r.outerConfig? (path? value)).map fun x => { r with outerConfig? := x }
    else (once r.config? (path? value)).map fun x => { r with config? := x }
  | .output => (once r.output? (path? value)).map fun x => { r with output? := x }
  | .warmup => (once r.warmup? (count? value)).map fun x => { r with warmup? := x }

/-- Takes an option, with its value if it comes attached. -/
def flag (r : Reading) (flag? : Option Flag) (value? : Option String) : Except Refusal Reading :=
  match flag?.filter fun f => f.isKnown r.verb?, value? with
  | some f, some value => r.put f value
  | some f, none => .ok { r with waiting? := some f }
  | none, _ => .error .usage

/-- Takes the verb, or the input after it. -/
def word (r : Reading) (s : String) : Except Refusal Reading :=
  match r.verb? with
  | none =>
    match Verb.ofText? s with
    | some verb => if r.literal then .error .usage else .ok { r with verb? := some verb }
    | none => .error .usage
  | some _ => (once r.input? (path? s)).map fun x => { r with input? := x }

/-- Takes one argument. -/
def step (r : Reading) (arg : String) : Except Refusal Reading :=
  if r.verb? = some .help then .ok { r with topics := r.topics ++ [arg] }
  else if r.literal then r.word arg
  else
    match r.waiting?, Token.of arg with
    | some f, .word value => r.put f value
    | some _, .separator => .error .usage
    | some _, .long _ _ => .error .usage
    | some _, .short _ _ => .error .usage
    | none, .word s => r.word s
    | none, .separator => .ok { r with literal := true }
    | none, .long "help" none => .error .help
    | none, .long name value? => r.flag (Flag.ofLong? name) value?
    | none, .short 'h' _ => .error .help
    | none, .short letter value? => r.flag (Flag.ofShort? letter) value?

/-- The configuration: named after the verb, else before it, else by the environment. An empty
path in the environment is an error where it is looked at, which is at both places. -/
def configOf (r : Reading) (environment? : Option String) : Except Refusal (Option String) :=
  if environment? = some "" ∧ (r.config?.isNone ∨ r.outerConfig?.isNone) then .error .usage
  else .ok (r.config?.or (r.outerConfig?.or environment?))

/-- What the whole command line asks for. -/
def finish (r : Reading) (environment? : Option String) : Except Refusal Request :=
  match r.verb?, r.input? with
  | some .help, _ =>
    match r.topics with
    | [] => .error .help
    | [topic] => .error (if (Verb.ofText? topic).isSome then .help else .usage)
    | _ => .error .usage
  | some verb, some input =>
    if r.waiting?.isSome then .error .usage
    else
      (r.configOf environment?).map fun config? =>
        { job := if verb = .replay then .replay (r.warmup?.getD 30) else .analyze
          input := input
          output? := r.output?
          config? := config? }
  | _, _ => .error .usage

end Reading

/-- Reads a command line, given the path to a configuration that the environment may name. -/
def parse (environment? : Option String) (args : List String) : Except Refusal Request := do
  (← args.foldlM Reading.step {}).finish environment?

end PriceAction.Command
