import CausalTrace.Tool.Plan
import Std.Time.DateTime.Timestamp

/-!
# The program

Runs the command of a command line.  Everything but reading files, waiting and printing is decided
elsewhere.

The exit code is 0 when the text that was asked for is printed, 1 when there is none, and 2 when the
words of the command line are no command.
-/

namespace CausalTrace.Program

open Tool

/-- The text of a file, or why it cannot be read. -/
def readFile (path : String) : IO (Except String String) := do
  match ← (IO.FS.readFile path).toBaseIO with
  | .ok text => return .ok text
  | .error e => return .error (toString e)

/-- What the arguments need of the surroundings. -/
def surroundings (a : TreeArguments) : IO Surroundings := do
  let file ← match a.fixture with
    | some path => readFile path
    | none => pure (.error "")
  return ⟨fun _ => file, ← IO.getEnv baseDelayVariable⟩

/-- Waits for a number of nanoseconds, in steps that the system can express. -/
partial def wait (nanos : Nat) : IO Unit := do
  let step := min nanos 1000000000000000
  IO.sleep (UInt32.ofNat ((step + 999999) / 1000000))
  if step < nanos then wait (nanos - step)

/-- Polls in real time. -/
partial def poll (round : Polling.Tally → Timed Store → Polling.Round (Timed Store) Failure Tree)
    (tally : Polling.Tally) (s : Timed Store) : IO (Outcome Failure Tree) := do
  match round tally { s with time := ← IO.monoNanosNow } with
  | .over report => return report.outcome
  | .next _ tally delay s =>
    wait delay
    poll round tally s

/-- The answer to a plan, had in real time. -/
def answer (p : Plan) : IO (Except Problem String) := do
  match p.request.timeout with
  | none => return p.answer
  | some seconds =>
    match Tree.readTarget p.request.header seconds with
    | .error e => return .error (.failed e)
    | .ok (header, timeout) =>
      let deadline := timeout.deadline? (← IO.monoNanosNow)
      let job := Tree.job (Timed.lookup storeLookup) header p.request.options p.request.check
      let round := Polling.round Timed.clock ⟨timeout, p.baseDelay, none⟩ deadline job
      let outcome ← poll round .none ⟨p.store, 0⟩
      return (p.request.conclude seconds outcome).map p.request.present

/-- A header for a new trace. -/
def newHeader : IO Header := do
  let second := (← Std.Time.Timestamp.now).toSecondsSinceUnixEpoch.toInt
  let random ← IO.getRandomBytes 12
  return .ofRoot (.fresh second.toNat random.toList)

/-- Runs a command. -/
def run : Command → IO UInt32
  | .header => do
    IO.println (← newHeader).render
    return 0
  | .tree a => do
    let result ← match a.plan (← surroundings a) with
      | .ok plan => answer plan
      | .error problem => pure (.error problem)
    match result with
    | .ok text =>
      IO.print text
      return 0
    | .error problem =>
      IO.eprint problem.report
      return 1

end CausalTrace.Program

/-- Runs the command of the words of a command line. -/
def main (words : List String) : IO UInt32 :=
  match CausalTrace.Tool.Command.parse words with
  | .ok command => CausalTrace.Program.run command
  | .error e => do
    IO.eprintln ("error: " ++ e.message)
    return 2
