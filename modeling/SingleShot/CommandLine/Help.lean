import SingleShot.CommandLine.Arguments

/-!
# Help

What is printed when help or the version is asked for. `Switch.helpLines` has the text of each
switch; the help lists them all in their order.
-/

namespace SingleShot.CommandLine

/-- The name of the program. -/
def programName : String :=
  "tx-bench"

/-- The version of the program. -/
def programVersion : String :=
  "0.1.0"

/-- What the program is for. -/
def programPurpose : String :=
  "Single transaction benchmark client for consensus nodes"

/-- What a switch does. -/
def Switch.purpose : Switch → String
  | setting .addr =>
    "Network address of the node receiving the transaction, e.g. http://127.0.0.1:7000"
  | setting .size => s!"Size of the transaction in bytes [default: {standardSize}]"
  | setting .nodes => "Comma separated network addresses that must be reachable before starting"
  | setting .attemptTimeout =>
    "Timeout of a single connection attempt while waiting for nodes " ++
      s!"[default: {standardAttemptTimeout}]"
  | setting .retryInterval =>
    s!"Pause between connection attempts while waiting for nodes [default: {standardRetryInterval}]"
  | setting .waitDeadline =>
    "Give up waiting for nodes after this long, waits forever when not set"
  | flag .concurrentWait => "Wait for all nodes at once instead of one after another"
  | flag .noAnsi => "Disable colored log output"
  | request .help => "Print help"
  | request .version => "Print version"

/-- What stands before the label of a switch: its short form, or as much space. -/
def Switch.indentation : Switch → String
  | setting _ => "      "
  | flag _ => "      "
  | request r => "  -" ++ String.singleton r.letter ++ ", "

/-- The lines of the help about a switch. -/
def Switch.helpLines (s : Switch) : List String :=
  [s.indentation ++ s.label, "          " ++ s.purpose]

/-- All lines of the help. -/
def helpLines : List String :=
  [programPurpose, "", s!"Usage: {programName} [OPTIONS] " ++ (Switch.setting .addr).label, "",
    "Options:"] ++ Switch.all.flatMap Switch.helpLines

/-- What a request prints. -/
def Request.answer : Request → String
  | help => String.join (helpLines.map (· ++ "\n"))
  | version => s!"{programName} {programVersion}\n"

end SingleShot.CommandLine
