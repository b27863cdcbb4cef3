import SingleShot.Endpoint.Notation
import SingleShot.Failure

/-!
# Settings of a run

Where the transaction goes, how large it is, whom to wait for before it is sent, and how
patiently. `Config.validate` checks what can be checked before anything is sent.
-/

namespace SingleShot

/-- The order in which the peers are polled. -/
inductive Mode
  /-- A peer is polled only once the one before it has accepted. -/
  | sequential
  /-- All peers are polled at once. -/
  | concurrent
  deriving DecidableEq, Repr

/-- How the peers are polled. -/
structure Policy where
  /-- A connection attempt is given up after this long. -/
  attemptTimeout : Duration
  /-- The pause after a failed attempt, before the next one on the same peer. -/
  retryInterval : Duration
  /-- How long the whole wait may take; without it, forever. -/
  deadline : Option Duration
  mode : Mode
  deriving DecidableEq

namespace Policy

/-- One second for an attempt, ten milliseconds between attempts, peer after peer, forever. -/
def standard : Policy where
  attemptTimeout := ⟨1000000000, by decide⟩
  retryInterval := ⟨10000000, by decide⟩
  deadline := none
  mode := .sequential

end Policy

/-- The settings of a run. -/
structure Config where
  /-- The address of the node that receives the transaction. -/
  target : String
  /-- The size of the transaction in bytes. -/
  size : Nat
  /-- The addresses that must accept connections before the transaction is sent. -/
  peers : List String
  policy : Policy
  deriving DecidableEq

namespace Config

/-- The size of a transaction if none is asked for. -/
def defaultSize : Nat :=
  100

/-- The settings for a target when nothing else is asked for. -/
def standard (target : String) : Config :=
  ⟨target, defaultSize, [], Policy.standard⟩

/-- The endpoint of an address; a refusal is a failure of the run. -/
def resolveTarget (target : String) : Except Failure Endpoint :=
  (Endpoint.resolve target).mapError .invalidAddress

/-- Checks the settings and resolves the target. -/
def validate (c : Config) : Except Failure Endpoint := do
  if c.target = "" then throw (.invalidConfiguration .missingTarget)
  checkSize c.size
  resolveTarget c.target

end Config

end SingleShot
