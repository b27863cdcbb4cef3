import SingleShot.CommandLine.Diagnostic
import SingleShot.CommandLine.Help
import SingleShot.CommandLine.Reader
import SingleShot.Log.Filter
import SingleShot.Log.Session
import SingleShot.Node.Stream

/-!
# The program

The program reads its command line, runs one session over channels to nodes, writes a log, and
ends with an exit code. `Program.run` is all of this as a function of the world that the
program meets with.

A program that comes upon an instant which its clock does not count crashes, with an exit code of
its own. That is the only thing that makes it crash here, for memory is taken to be without bound.
-/

namespace SingleShot.Program

open CommandLine (Arguments Stop)

/-- What a program meets with: the peers' answers and the clock, the nodes, and how long it is
observed. -/
structure World where
  environment : Readiness.Environment
  sites : Node.Sites
  horizon : Nat

/-- What a program does. -/
structure Result where
  /-- The exit code, if the program ends. -/
  exit : Option Nat
  /-- What is printed as the answer to a request. -/
  output : String
  log : List Log.Line
  /-- Whether the log is coloured. -/
  coloured : Bool
  /-- What is said about a failure. -/
  diagnostics : List String
  /-- What happened in the session. -/
  events : List Session.Event

/-- The course of the session that a command line asks for. -/
def session (world : World) (a : Arguments) : Course Session.Event Unit :=
  Session.run world.environment (Node.transport world.sites) world.horizon (Moment.dawn 0)
    a.config

/-- The last line of a run that succeeds. -/
def successLine : Log.Line :=
  ⟨.info, .program, "Successfully sent 1 transaction."⟩

/-- The exit code of a program that crashes. -/
def crashCode : Nat :=
  101

/-- The exit code, the last lines of the log, and the diagnostics after a session. What is said
about a crash is not the program's own. -/
def conclusion (target : String) : Outcome Unit → Option Nat × List Log.Line × List String
  | .finished () _ => (some 0, [successLine], [])
  | .failed f _ => (some 1, [], CommandLine.failureLines target f)
  | .crashed _ => (some crashCode, [], [])
  | .pending => (none, [], [])

/-- What the program does for arguments that were read. -/
def runArguments (world : World) (filter : Log.Filter) (a : Arguments) : Result :=
  let course := session world a
  let (exit, lastLines, diagnostics) := conclusion a.addr course.outcome
  let lines := course.events.flatMap (·.lines Node.callLines) ++ lastLines
  { exit
    output := ""
    log := lines.filter filter.allows
    coloured := !a.noAnsi
    diagnostics
    events := course.events }

/-- What the program does for a command line that names no run. -/
def stopped : Stop → Result
  | .requested r => ⟨some 0, r.answer, [], false, [], []⟩
  | .failed e => ⟨some 2, "", [], false, e.lines, []⟩

/-- What the program does for the words of a command line and the setting of the log. -/
def run (world : World) (words : List String) (logSetting : Option String) : Result :=
  match Arguments.read words with
  | .ok a => runArguments world (Log.Filter.ofSetting logSetting) a
  | .error stop => stopped stop

/-- The calls that nodes receive in a run. -/
def Result.deliveries (world : World) (r : Result) : List Node.Delivery :=
  r.events.filterMap fun
    | .submission (.call call _) => Node.received world.sites call
    | _ => none

end SingleShot.Program
