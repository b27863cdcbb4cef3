import SingleShot.Endpoint

/-!
# Address notations

People write an endpoint in one of three notations: `host:port`, the same behind `http://`
or `https://`, or a multiaddress such as `/ip4/10.0.0.5/tcp/4000/http`. `resolve` reads all
three; `resolveAll` divides a list of addresses into endpoints and refusals.
-/

namespace SingleShot.Endpoint

/-- What may stand before an address, exactly in this case. -/
def schemes : List (List Char) :=
  ["http://".toList, "https://".toList]

/-- An address without its scheme. At most one scheme is taken away. -/
def withoutScheme (s : List Char) : List Char :=
  (schemes.findSome? (·.isPrefixOf? s)).getD s

/-- How a multiaddress begins. -/
def multiaddressStart : List Char :=
  "/ip4/".toList

/-- Reads an endpoint and names the text that was read if it is refused. -/
def parseNaming (s : String) : Except AddressError Endpoint :=
  (parse s).mapError (AddressError.mk s)

/-- The endpoint of a multiaddress `/ip4/<host>/<protocol>/<port>/…`. Its parts are counted
from the empty one before the first `/`; the protocol and what follows the port do not matter. -/
def resolveMultiaddress (input : String) (address : List Char) : Except AddressError Endpoint :=
  match address.splitOn '/' with
  | _ :: _ :: host :: _ :: port :: _ =>
    if host = [] ∨ port = [] then .error ⟨input, .emptySegment⟩
    else parseNaming (String.ofList (host ++ ':' :: port))
  | _ => .error ⟨input, .fewSegments⟩

/-- Reads an address in any of the notations. An address that begins like a multiaddress is
never read in another notation. -/
def resolve (input : String) : Except AddressError Endpoint :=
  let address := withoutScheme input.toList
  if multiaddressStart.isPrefixOf address then resolveMultiaddress input address
  else if ':' ∈ address then parseNaming (String.ofList address)
  else .error ⟨input, .unknownNotation⟩

/-- A list of addresses, divided: the endpoints that were read, and the inputs that were
refused with their errors, both in input order. -/
structure Resolution where
  resolved : List Endpoint
  rejected : List (String × AddressError)

/-- The endpoint of an address, if it has one. -/
def resolve? (input : String) : Option Endpoint :=
  (resolve input).toOption

/-- An address that is refused, with the reason. -/
def rejection? (input : String) : Option (String × AddressError) :=
  match resolve input with
  | .ok _ => none
  | .error e => some (input, e)

/-- Resolves every address of a list. -/
def resolveAll (inputs : List String) : Resolution :=
  ⟨inputs.filterMap resolve?, inputs.filterMap rejection?⟩

/-- Every address is either resolved or rejected. -/
theorem length_resolveAll (inputs : List String) :
    (resolveAll inputs).resolved.length + (resolveAll inputs).rejected.length
      = inputs.length := by
  unfold resolveAll
  induction inputs with
  | nil => rfl
  | cons input inputs ih =>
    cases h : resolve input with
    | ok e =>
      simp only [List.filterMap_cons, resolve?, rejection?, h, Except.toOption,
        List.length_cons] at ih ⊢
      omega
    | error e =>
      simp only [List.filterMap_cons, resolve?, rejection?, h, Except.toOption,
        List.length_cons] at ih ⊢
      omega

end SingleShot.Endpoint
