import SingleShot.CommandLine.Arguments

/-!
# Reading a command line

The words of a command line are read from left to right, and the first fault ends the
reading. A value is attached to its switch, `--size=9`, or is the word after it, `--size 9`.
A setting in the second form stays pending until the next switch, so a word that is unknown
altogether is reported before a fault in the pending value.
-/

namespace SingleShot.CommandLine

/-- What a word looks like. -/
inductive Word
  /-- Two dashes alone: no switches follow. -/
  | separator
  /-- Two dashes, a name, and perhaps a value after the first `=`. -/
  | long (name : String) (value : Option String)
  /-- A dash and at least one letter. -/
  | short (letter : Char)
  | plain (text : String)
  deriving DecidableEq, Repr

namespace Word

/-- The name and the value in the text after two dashes. -/
def ofLong (s : List Char) : Word :=
  let name := String.ofList (s.takeWhile (· ≠ '='))
  match s.dropWhile (· ≠ '=') with
  | [] => long name none
  | _ :: value => long name (some (String.ofList value))

/-- A lone dash is no switch. -/
def ofString (s : String) : Word :=
  match s.toList with
  | ['-', '-'] => separator
  | '-' :: '-' :: rest => ofLong rest
  | '-' :: letter :: _ => short letter
  | _ => plain s

end Word

/-- What has been read: the values given, and a setting that still waits to be taken up,
with its value if it has come. -/
structure Reading where
  given : Given
  pending : Option (Setting × Option String)
  deriving DecidableEq

namespace Reading

/-- Nothing has been read. -/
def start : Reading :=
  ⟨Given.none, none⟩

/-- Takes up the pending setting. -/
def settled (r : Reading) : Except ArgumentError Given :=
  match r.pending with
  | none => .ok r.given
  | some (s, value) => r.given.settle s value

/-- Reads a word with the name of a switch. -/
def takeSwitch (r : Reading) (switch : Switch) (value : Option String) :
    Except Stop Reading :=
  match switch, value with
  | .setting s, none => do
    let given ← r.settled.mapError .failed
    return ⟨given, some (s, none)⟩
  | .setting s, some value => do
    let given ← r.settled.mapError .failed
    let given ← (given.settle s (some value)).mapError .failed
    return ⟨given, none⟩
  | .flag f, none => do
    let given ← r.settled.mapError .failed
    let given ← (given.raise f).mapError .failed
    return ⟨given, none⟩
  | .request request, none => do
    let _ ← r.settled.mapError .failed
    throw (.requested request)
  | switch, some value => throw (.failed (.unneededValue switch value))

/-- Reads one word that is not the separator. -/
def take (r : Reading) (word : Word) : Except Stop Reading :=
  match word with
  | .separator => .ok r
  | .long name value =>
    match Switch.ofName? name with
    | some switch => r.takeSwitch switch value
    | none => .error (.failed (.unknown ("--" ++ name)))
  | .short letter =>
    match Request.ofLetter? letter with
    | some request => r.takeSwitch (.request request) none
    | none => .error (.failed (.unknown (String.ofList ['-', letter])))
  | .plain text =>
    match r.pending with
    | some (s, none) => .ok ⟨r.given, some (s, some text)⟩
    | _ => .error (.failed (.unknown text))

/-- Reads all words. No word may follow the separator. -/
def takeAll (r : Reading) : List String → Except Stop Reading
  | [] => .ok r
  | word :: words =>
    match Word.ofString word with
    | .separator =>
      match words with
      | [] => .ok r
      | surplus :: _ => .error (.failed (.unknown surplus))
    | word => do (← r.take word).takeAll words

/-- The arguments that have been read. -/
def finish (r : Reading) : Except Stop Arguments := do
  let given ← r.settled.mapError .failed
  given.arguments.mapError .failed

end Reading

/-- The arguments of a command line, which are its words without the program's name. -/
def Arguments.read (words : List String) : Except Stop Arguments := do
  (← Reading.start.takeAll words).finish

end SingleShot.CommandLine
