import Logbook.Net.Address

/-!
# Listening

A host lets a service listen at an endpoint if nobody listens there already; it does not ask whether
the address is one of its own. A listener at the unspecified address of a version listens at all
addresses of that version; at that of version 6 it listens at those of version 4 too.
-/

namespace Logbook.Net

/-- An address that stands for one of version 4 is that address. -/
def Address.plain : Address → Address
  | .v6 [0, 0, 0, 0, 0, 0xFFFF, a, b] => .v4 [a / 256, a % 256, b / 256, b % 256]
  | a => a

def Address.everywhere4 : Address := .v4 [0, 0, 0, 0]

def Address.everywhere6 : Address := .v6 [0, 0, 0, 0, 0, 0, 0, 0]

/-- Whether a listener at an address also hears what is sent to another one. -/
def Address.covers (a b : Address) : Bool :=
  match a.plain, b.plain with
  | a, .v4 octets => a = .v4 octets ∨ a = everywhere4 ∨ a = everywhere6
  | a, .v6 groups => a = .v6 groups ∨ a = everywhere6

/-- Whether two listeners are in each other's way. Port zero stands for any that is free. -/
def Endpoint.clashes (a b : Endpoint) : Bool :=
  a.port ≠ 0 && a.port = b.port && (a.address.covers b.address || b.address.covers a.address)

inductive ListenError where
  | inUse
  deriving DecidableEq, Repr

def ListenError.message : ListenError → String
  | .inUse => "Address already in use (os error 98)"

def listen (e : Endpoint) (listeners : List Endpoint) : Except ListenError (List Endpoint) :=
  if listeners.any e.clashes then .error .inUse else .ok (e :: listeners)

end Logbook.Net
