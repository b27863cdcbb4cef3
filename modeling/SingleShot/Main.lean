import SingleShot.Program

/-!
# Command line

The program on a machine that reaches no other: all of its decisions are those of
`Program.run`, and every connection finds no way.
-/

namespace SingleShot.Main

/-- A clock that counts seconds in words with a sign, and the nanoseconds between them. -/
def clock : Clock :=
  ⟨some (wordBound / 2 * nanosPerSecond - 1)⟩

/-- A world without a network, observed for a minute. -/
def world : Program.World where
  environment := ⟨fun _ => .fails .networkUnreachable, clock⟩
  sites _ := .refusing (.refused .networkUnreachable)
  horizon := 60000000000

/-- A line of the log as it is printed. -/
def lineText (coloured : Bool) (line : Log.Line) : String :=
  let level := String.ofList (line.level.name.toList.leftpad 5 ' ')
  let colour (code text : String) : String :=
    if coloured then "\x1b[" ++ code ++ "m" ++ text ++ "\x1b[0m" else text
  colour "1" level ++ " " ++ colour "2" (line.source.name ++ ":") ++ " " ++ line.text

end SingleShot.Main

/-- Runs the program. A run that has not ended within the time of observation fails. -/
def main (words : List String) : IO UInt32 := do
  let result := SingleShot.Program.run SingleShot.Main.world words (← IO.getEnv "RUST_LOG")
  IO.print result.output
  for line in result.log do
    IO.eprintln (SingleShot.Main.lineText result.coloured line)
  for line in result.diagnostics do
    IO.eprintln line
  return UInt32.ofNat (result.exit.getD 1)
