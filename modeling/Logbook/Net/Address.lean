import Logbook.Number.Digits

/-!
# Socket addresses

Reading the text of an address and a port, as `1.2.3.4:80` or `[::1%2]:80`, and writing an address
without its port. A reader takes what it can from the front of a text and returns the rest.
-/

namespace Logbook.Net

inductive Address where
  | v4 (octets : List Nat)
  | v6 (groups : List Nat)
  deriving DecidableEq, Repr

structure Endpoint where
  address : Address
  port : Nat
  deriving DecidableEq, Repr

namespace Address

/-! ## Reading -/

def char? (expected : Char) : List Char → Option (List Char)
  | [] => none
  | c :: text => if c = expected then some text else none

def digits (radix : Nat) : List Char → List Nat × List Char
  | [] => ([], [])
  | c :: text =>
    match Digits.digit? radix c with
    | none => ([], c :: text)
    | some d =>
      let (ds, rest) := digits radix text
      (d :: ds, rest)

/-- A number of at least one digit and a value below the limit. -/
def number? (radix limit : Nat) (text : List Char) : Option (Nat × List Char) :=
  let (ds, rest) := digits radix text
  let n := Digits.ofDigits radix ds
  if ds.isEmpty ∨ limit ≤ n then none else some (n, rest)

def octet? (text : List Char) : Option (Nat × List Char) :=
  let (ds, rest) := digits 10 text
  let n := Digits.ofDigits 10 ds
  if ds.isEmpty ∨ 3 < ds.length ∨ (ds.head? = some 0 ∧ 1 < ds.length) ∨ 256 ≤ n then none
  else some (n, rest)

/-- Up to four hexadecimal digits. -/
def group? (text : List Char) : Option (Nat × List Char) :=
  let (ds, rest) := digits 16 text
  if ds.isEmpty ∨ 4 < ds.length then none else some (Digits.ofDigits 16 ds, rest)

def moreOctets? : Nat → List Char → Option (List Nat × List Char)
  | 0, text => some ([], text)
  | count + 1, text => do
    let text ← char? '.' text
    let (n, text) ← octet? text
    let (ns, text) ← moreOctets? count text
    some (n :: ns, text)

def octets? (text : List Char) : Option (List Nat × List Char) := do
  let (n, text) ← octet? text
  let (ns, text) ← moreOctets? 3 text
  some (n :: ns, text)

def pairUp : List Nat → List Nat
  | a :: b :: rest => (a * 256 + b) :: pairUp rest
  | _ => []

/-- Up to `room` groups; behind the first, each stands behind a colon. Where two groups fit, the
last two may be written as four octets, which the flag tells. -/
def groups (first : Bool) : Nat → List Char → List Nat × Bool × List Char
  | 0, text => ([], false, text)
  | room + 1, text =>
    let inner := if first then some text else char? ':' text
    let embedded := if 0 < room then inner.bind octets? else none
    match embedded with
    | some (octets, rest) => (pairUp octets, true, rest)
    | none =>
      match inner.bind group? with
      | none => ([], false, text)
      | some (g, rest) =>
        let (gs, embedded, rest) := groups false room rest
        (g :: gs, embedded, rest)

/-- Eight groups, of which one run may be written as two colons. -/
def groups8? (text : List Char) : Option (List Nat × List Char) :=
  let (head, embedded, rest) := groups true 8 text
  if head.length = 8 then some (head, rest)
  else if embedded then none
  else do
    let rest ← char? ':' rest
    let rest ← char? ':' rest
    let (tail, _, rest) := groups true (7 - head.length) rest
    some (head ++ List.replicate (8 - head.length - tail.length) 0 ++ tail, rest)

def port? (text : List Char) : Option (Nat × List Char) :=
  (char? ':' text).bind (number? 10 (Nat.pow 2 16))

/-- The number of a network interface behind a percent sign, if there is one. -/
def dropScope? (text : List Char) : List Char :=
  match (char? '%' text).bind (number? 10 (Nat.pow 2 32)) with
  | some (_, rest) => rest
  | none => text

def endpoint4? (text : List Char) : Option (Endpoint × List Char) := do
  let (octets, text) ← octets? text
  let (port, text) ← port? text
  some (⟨.v4 octets, port⟩, text)

def endpoint6? (text : List Char) : Option (Endpoint × List Char) := do
  let text ← char? '[' text
  let (groups, text) ← groups8? text
  let text ← char? ']' (dropScope? text)
  let (port, text) ← port? text
  some (⟨.v6 groups, port⟩, text)

/-! ## Writing -/

def intercalate (separator : Char) (parts : List (List Char)) : List Char :=
  (parts.intersperse [separator]).flatten

def zeroRun (groups : List Nat) : Nat := (groups.takeWhile (· = 0)).length

/-- The place and the length of the first of the longest runs of zeros. -/
def longestZeros : Nat → List Nat → Nat × Nat
  | place, [] => (place, 0)
  | place, g :: groups =>
    let here := zeroRun (g :: groups)
    let (later, length) := longestZeros (place + 1) groups
    if length ≤ here then (place, here) else (later, length)

def hexGroups (groups : List Nat) : List Char :=
  intercalate ':' (groups.map (Nat.toDigits 16))

def dotted (octets : List Nat) : List Char := intercalate '.' (octets.map (Nat.toDigits 10))

/-- A run of at least two zero groups is left out; an address that stands for one of version 4 ends
in its octets. -/
def text : Address → List Char
  | .v4 octets => dotted octets
  | .v6 [0, 0, 0, 0, 0, 0xFFFF, a, b] =>
    [':', ':', 'f', 'f', 'f', 'f', ':'] ++ dotted [a / 256, a % 256, b / 256, b % 256]
  | .v6 groups =>
    let (place, length) := longestZeros 0 groups
    if 2 ≤ length then
      hexGroups (groups.take place) ++ [':', ':'] ++ hexGroups (groups.drop (place + length))
    else hexGroups groups

end Address

/-- Reads an address and a port that fill the whole text. -/
def Endpoint.read? (text : String) : Option Endpoint :=
  let whole (r : Option (Endpoint × List Char)) : Option Endpoint :=
    r.bind fun (e, rest) => if rest.isEmpty then some e else none
  (whole (Address.endpoint4? text.toList)).or (whole (Address.endpoint6? text.toList))

end Logbook.Net
