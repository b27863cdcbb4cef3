import SingleShot.CommandLine.Arguments

/-!
# Diagnostics

What the program prints about a command line that it refuses, and about a run that fails. The
latter is shown with all its causes: they are numbered if there are several, and a cause of
several lines keeps its indentation.
-/

namespace SingleShot.CommandLine

/-- The lines about a refused command line. -/
def ArgumentError.lines : ArgumentError → List String
  | missingTarget =>
    ["error: the following required arguments were not provided:",
      "  " ++ (Switch.setting .addr).label]
  | unknown word => [s!"error: unexpected argument '{word}' found"]
  | missingValue s =>
    let label := (Switch.setting s).label
    [s!"error: a value is required for '{label}' but none was supplied"]
  | invalidValue s value message =>
    let label := (Switch.setting s).label
    [s!"error: invalid value '{value}' for '{label}': {message}"]
  | repeated s => [s!"error: the argument '{s.label}' cannot be used multiple times"]
  | unneededValue s value =>
    [s!"error: unexpected value '{value}' for '{s.label}' found; no more were expected"]

/-- A text behind a label; its further lines are indented to the label's width. -/
def labelled (label text : String) : List String :=
  match (text.toList.splitOn '\n').map String.ofList with
  | [] => [label]
  | first :: others =>
    (label ++ first) ::
      others.map (String.ofList (List.replicate label.length ' ') ++ ·)

/-- The lines of causes. -/
def causeLines : List String → List String
  | [only] => labelled "    " only
  | causes => causes.zipIdx.flatMap fun (cause, i) => labelled s!"    {i}: " cause

/-- The lines about a failed run. -/
def failureLines (target : String) (f : Failure) : List String :=
  [s!"Error: Cannot send transaction to {target}", "", "Caused by:"]
    ++ causeLines (f.message :: f.causes)

end SingleShot.CommandLine
