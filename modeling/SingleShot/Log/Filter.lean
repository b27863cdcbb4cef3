import SingleShot.Log.Line

/-!
# Which lines are written

A filter is written as directives between commas: a level for all lines, or the name of a part
of the program, with `=` and a level if not all of its lines are wanted. For a line the longest
name decides that its source begins with, then the level for all lines, then that of errors.
-/

namespace SingleShot.Log

/-- A directive: the beginning of the names that it concerns, and how much is written. -/
structure Directive where
  target : List Char
  verbosity : Nat
  deriving DecidableEq, Repr

/-- Directives in the order in which they are written. -/
abbrev Filter :=
  List Directive

namespace Directive

/-- The names of the levels in directives, with what is written at each. -/
def levels : List (String × Nat) :=
  [("off", 0), ("error", 1), ("warn", 2), ("info", 3), ("debug", 4), ("trace", 5)]

/-- How much is written at a level, given by its name in any case or by its number. -/
def verbosity? (s : List Char) : Option Nat :=
  match s with
  | [c] => if c.isDigit && c ≤ '5' then some (c.toNat - '0'.toNat) else none
  | _ => levels.lookup (String.ofList (s.map Char.toLower))

/-- A character of a target's name. -/
def isNameChar (c : Char) : Bool :=
  c.isAlphanum || c = '_' || c = ':' || c = '-'

/-- Reads one directive. A target without a level is written in full. -/
def ofText? (s : List Char) : Option Directive :=
  match verbosity? s with
  | some verbosity => some ⟨[], verbosity⟩
  | none =>
    let target := s.takeWhile isNameChar
    if target = [] then none
    else
      match s.dropWhile isNameChar with
      | [] => some ⟨target, Level.trace.verbosity⟩
      | ['='] => some ⟨target, Level.trace.verbosity⟩
      | '=' :: level => (verbosity? level).map (⟨target, ·⟩)
      | _ => none

end Directive

namespace Filter

/-- What is written if nothing is asked for, or nothing that makes sense. -/
def standard : Filter :=
  [⟨[], Level.info.verbosity⟩]

/-- Reads a filter, all of whose directives must be well-formed. -/
def ofText? (s : String) : Option Filter :=
  ((s.toList.splitOn ',').filter (· ≠ [])).mapM Directive.ofText?

/-- The filter of a setting that may be absent or malformed. -/
def ofSetting (setting : Option String) : Filter :=
  (setting.bind ofText?).getD standard

/-- The directive that decides about a name: of those whose target it begins with the one with
the longest, and of several such the last. -/
def deciding (f : Filter) (name : List Char) : Option Directive :=
  f.foldl
    (fun best d =>
      if d.target.isPrefixOf name &&
          best.all fun (b : Directive) => b.target.length ≤ d.target.length
      then some d else best)
    none

/-- How much is written of a source. -/
def verbosityOf (f : Filter) (source : Source) : Nat :=
  ((f.deciding source.name.toList).map (·.verbosity)).getD Level.error.verbosity

/-- Whether a line is written. -/
def allows (f : Filter) (line : Line) : Bool :=
  line.level.verbosity ≤ f.verbosityOf line.source

end Filter

end SingleShot.Log
