import Logbook.Http.Response
import Logbook.Net.Address
import Logbook.Shutdown.Sequencer
import Logbook.Text.Ascii

/-!
# Requests and their admission

Every request but the health check is recorded. A request that comes after the delay of a drain is
refused at once; any other is admitted and its record goes into a slot.
-/

namespace Logbook.Http

structure Request where
  method : String
  uri : String
  headers : List (String × String)
  peer : Option Net.Address

/-- What becomes of a request when it comes. -/
inductive Admission where
  /-- It is the health check: it goes straight through. -/
  | passes
  | refused
  | admitted
  deriving DecidableEq, Repr

def webType : String := "web"

def healthPath : String := "/health-check"

/-- The header with the identifier that a caller gave to a request. -/
def requestIdHeader : String := "x-request-id"

def clientHeader : String := "x-client"

namespace Request

/-- The rest of a text behind the first `://`. -/
def behindScheme? : List Char → Option (List Char)
  | ':' :: '/' :: '/' :: rest => some rest
  | _ :: rest => behindScheme? rest
  | [] => none

def beforeQuery (target : List Char) : List Char :=
  target.takeWhile fun c => c ≠ '?' ∧ c ≠ '#'

/-- The path of a target. Behind a scheme and a host an empty path is the root; a target of a host
alone has no path. -/
def path (r : Request) : String :=
  let target := r.uri.toList
  let path := match target, behindScheme? target with
    | '/' :: _, _ => beforeQuery target
    | ['*'], _ => target
    | _, some rest =>
      let path := beforeQuery (rest.dropWhile fun c => c ≠ '/' ∧ c ≠ '?' ∧ c ≠ '#')
      if path.isEmpty then ['/'] else path
    | _, none => []
  String.ofList path

/-- Characters that may stand in a header that is read as text. -/
def isVisible (c : Char) : Bool := c = '\t' ∨ (0x20 ≤ c.toNat ∧ c.toNat < 0x7F)

/-- The first value of a header, if it is a text and not empty. -/
def header (name : String) (r : Request) : Option String :=
  match r.headers.find? fun h => Ascii.foldString h.1 = name with
  | some (_, value) => if value.isEmpty ∨ !value.toList.all isVisible then none else some value
  | none => none

/-- Who sent the request: the name it gives, else its address. -/
def client (r : Request) : Option String :=
  (r.header clientHeader).or (r.peer.map fun a => String.ofList a.text)

def isHealthCheck (r : Request) : Bool := r.path = healthPath

/-- A request is refused if it comes after the delay of a drain. -/
def admission (flags : Shutdown.Flags) (r : Request) : Admission :=
  if r.isHealthCheck then .passes else if flags.afterDelay then .refused else .admitted

def begin (masked : Trace.Mask.Registry) (id : String) (now : Moment) (r : Request) : Record :=
  let record := Record.start masked id now ("http:" ++ r.method ++ ":" ++ r.path) webType
  let record := { record with client := r.client }
  match r.header requestIdHeader with
  | some requestId => record.put masked "request_id" [requestId]
  | none => record

def refuse (masked : Trace.Mask.Registry) (now : Moment) (record : Record) : Record :=
  (record.put masked "rejected" ["shutdown"]).finishWith .warn now

/-- What is emitted of a request that is refused. -/
def turnAway (masked : Trace.Mask.Registry) (id : String) (begun now : Moment) (r : Request) :
    Option Record.Emission :=
  ((refuse masked now (r.begin masked id begun)).emit masked now).1

def refused : Response := .plain 503 ""

def health (method : String) (shutdown : Bool) : Response :=
  if method = "GET" ∨ method = "HEAD" then
    .plain 200 (Json.object
      [("status", .string (if shutdown then "stopping" else "ok"))]).text
  else .plain 405 ""

/-- A response as it goes out: without its body if the method does not allow one. -/
def outgoing (method : String) (response : Response) : Response :=
  if method = "HEAD" ∨ (method = "CONNECT" ∧ 200 ≤ response.status ∧ response.status < 300) then
    { response with body := "" }
  else response

end Request

end Logbook.Http
