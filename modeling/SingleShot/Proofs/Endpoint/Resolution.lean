import Mathlib.Data.List.Basic
import SingleShot.Endpoint.Notation

/-!
# What becomes of a list of addresses

Every address of a list is either resolved or rejected. What is resolved depends on the
addresses that are not rejected alone (`resolved_eq_of_resolvable`), and what is rejected is
kept as it was written (`rejected_inputs`).
-/

namespace SingleShot.Endpoint

/-- Whether no notation reads an address. -/
def isRejected (input : String) : Bool :=
  (resolve? input).isNone

/-- The addresses of a list that are rejected. -/
def rejected (inputs : List String) : List String :=
  inputs.filter isRejected

/-- The addresses of a list that are not rejected. -/
def resolvable (inputs : List String) : List String :=
  inputs.filter fun input => !isRejected input

variable {inputs inputs' : List String}

theorem rejected_inputs (inputs : List String) :
    (resolveAll inputs).rejected.map (·.1) = rejected inputs := by
  simp only [resolveAll, rejected]
  induction inputs with
  | nil => rfl
  | cons input inputs ih =>
    rw [List.filterMap_cons, List.filter_cons]
    cases h : resolve input with
    | ok e => simpa [rejection?, isRejected, resolve?, h, Except.toOption] using ih
    | error e => simpa [rejection?, isRejected, resolve?, h, Except.toOption] using ih

theorem resolved_eq_filterMap (inputs : List String) :
    (resolveAll inputs).resolved = inputs.filterMap resolve? :=
  rfl

theorem filterMap_resolvable (inputs : List String) :
    (resolvable inputs).filterMap resolve? = inputs.filterMap resolve? := by
  rw [resolvable, List.filterMap_filter]
  congr 1
  funext input
  cases h : resolve? input with
  | none => simp
  | some e => simp [isRejected, h]

/-- Addresses that are rejected leave no trace among those that are resolved. -/
theorem resolved_eq_of_resolvable (h : resolvable inputs' = resolvable inputs) :
    (resolveAll inputs').resolved = (resolveAll inputs).resolved := by
  rw [resolved_eq_filterMap, resolved_eq_filterMap, ← filterMap_resolvable inputs',
    ← filterMap_resolvable inputs, h]

end SingleShot.Endpoint
