import SingleShot.Text.Pieces

/-!
# Endpoints

An endpoint is where a node listens: a host and a port, written `host:port`. Both are
opaque texts; that a port is a number is no concern of the notation.

* `Endpoint.parse` reads `host:port` and says which rule a text breaks.
* `Endpoint.parse_text`: an endpoint is read back from the text it prints.
-/

namespace SingleShot

/-- What is wrong with the written form of an address. -/
inductive AddressFault
  /-- There is no `:`. -/
  | noSeparator
  /-- There are two or more `:`. -/
  | severalSeparators
  | emptyHost
  | emptyPort
  /-- A multiaddress ends before its fourth part. -/
  | fewSegments
  /-- A multiaddress has an empty host or an empty port. -/
  | emptySegment
  /-- The text is in none of the known notations. -/
  | unknownNotation
  /-- A fault that somebody else found, in their words. -/
  | other (reason : String)
  deriving DecidableEq, Repr

namespace AddressFault

/-- The wording of a fault. -/
def text : AddressFault → String
  | noSeparator => "missing port separator"
  | severalSeparators => "more than one port separator"
  | emptyHost => "empty host"
  | emptyPort => "empty port"
  | fewSegments => "not enough /ip4/ segments"
  | emptySegment => "empty /ip4/ host or port"
  | unknownNotation => "unsupported address notation"
  | other reason => reason

end AddressFault

/-- An address that was refused, and why. -/
structure AddressError where
  address : String
  fault : AddressFault
  deriving DecidableEq, Repr

/-- A host and a port, neither empty and neither with a `:` of its own. -/
structure Endpoint where
  host : String
  port : String
  host_ne : host.toList ≠ []
  port_ne : port.toList ≠ []
  separator_notMem_host : ':' ∉ host.toList
  separator_notMem_port : ':' ∉ port.toList
  deriving DecidableEq

namespace Endpoint

/-- The written form `host:port`. -/
def text (e : Endpoint) : String :=
  e.host ++ ":" ++ e.port

/-- Reads `host:port`. Of several faults the first in the order of `AddressFault` is named. -/
def parse (s : String) : Except AddressFault Endpoint :=
  match h : s.toList.splitOn ':' with
  | [host, port] =>
    if host_ne : host = [] then .error .emptyHost
    else if port_ne : port = [] then .error .emptyPort
    else .ok
      { host := String.ofList host
        port := String.ofList port
        host_ne := by simpa using host_ne
        port_ne := by simpa using port_ne
        separator_notMem_host := by
          rw [String.toList_ofList]
          exact Text.separator_notMem_piece (h ▸ by simp : host ∈ s.toList.splitOn ':')
        separator_notMem_port := by
          rw [String.toList_ofList]
          exact Text.separator_notMem_piece (h ▸ by simp : port ∈ s.toList.splitOn ':') }
  | _ :: _ :: _ :: _ => .error .severalSeparators
  | [_] | [] => .error .noSeparator

theorem toList_text (e : Endpoint) : e.text.toList = e.host.toList ++ ':' :: e.port.toList := by
  simp [text]

theorem splitOn_text (e : Endpoint) :
    e.text.toList.splitOn ':' = [e.host.toList, e.port.toList] := by
  have joined : e.text.toList = [':'].intercalate [e.host.toList, e.port.toList] := by
    simp [toList_text, List.intercalate, List.intersperse]
  rw [joined]
  apply List.splitOn_intercalate
  · intro piece h
    rcases List.mem_cons.1 h with rfl | h
    · exact e.separator_notMem_host
    · rw [List.mem_singleton.1 h]
      exact e.separator_notMem_port
  · simp

/-- An endpoint is read back from the text it prints. -/
theorem parse_text (e : Endpoint) : parse e.text = .ok e := by
  unfold parse
  split
  · rename_i host port h
    rw [splitOn_text] at h
    obtain ⟨rfl, rfl⟩ : e.host.toList = host ∧ e.port.toList = port := by simpa using h
    simp [e.host_ne, e.port_ne]
  all_goals
    rename_i h
    simp [splitOn_text] at h

end Endpoint

end SingleShot
