import PriceAction.Command.Run

/-!
# The program

Runs the command on the files of the machine. A directory is not looked into here: it reads like a
file that is not there.
-/

namespace PriceAction.Command

/-- Whether an action succeeds. -/
def succeeds (action : IO Unit) : IO Bool := do
  try
    action
    return true
  catch _ => return false

/-- The files of the machine. -/
def disk : FileSystem IO where
  read? path := do
    try
      return some (← IO.FS.readBinFile path).toList
    catch _ => return none
  isDirectory _ := return false
  list? _ := return none
  makeDirectory path := succeeds (IO.FS.createDirAll path)
  write path content := succeeds (IO.FS.writeBinFile path ⟨content.toArray⟩)

/-- How to call the program. -/
def usage : String :=
  "usage: price-action [--config FILE] analyze INPUT [--output FILE]\n" ++
    "       price-action [--config FILE] replay INPUT [--warmup COUNT] [--output FILE]"

/-- Says how a run ended. -/
def announce : Outcome → IO Unit
  | .printed text => IO.println text
  | .written => pure ()
  | .refused .help => IO.println usage
  | .refused .usage => IO.eprintln usage
  | .failed message => IO.eprintln ("Error: " ++ message)
  | .overflowed => IO.eprintln "Error: a time lies outside the calendar"

end PriceAction.Command

def main (args : List String) : IO UInt32 := do
  let environment? ← IO.getEnv "MARKET_STRUCTURE_CONFIG"
  let outcome ← PriceAction.Command.run PriceAction.Command.disk environment? args
  PriceAction.Command.announce outcome
  return outcome.exitCode
