import Logbook.Number.Decimal

/-!
# JSON values and their text

A value keeps the order of its members. `render` writes it without white space and escapes quotes,
backslashes and control characters only.
-/

namespace Logbook

inductive Json where
  | null
  | bool (value : Bool)
  | integer (value : Int)
  | real (value : Float)
  | string (value : String)
  | array (items : List Json)
  | object (members : List (String × Json))

namespace Json

instance : Inhabited Json := ⟨.null⟩

def escape (c : Char) : List Char :=
  if c = '"' then ['\\', '"']
  else if c = '\\' then ['\\', '\\']
  else if c.toNat = 8 then ['\\', 'b']
  else if c.toNat = 12 then ['\\', 'f']
  else if c = '\n' then ['\\', 'n']
  else if c = '\r' then ['\\', 'r']
  else if c = '\t' then ['\\', 't']
  else if c.toNat < 32 then ['\\', 'u', '0', '0'] ++ Digits.hexByte c.toNat
  else [c]

def renderString (text : String) : List Char := '"' :: text.toList.flatMap escape ++ ['"']

/-- A whole number keeps its digits; a double that is not finite has no text of its own. -/
def renderReal (x : Float) : List Char :=
  if Decimal.isFinite x then Decimal.render Decimal.stat x else ['n', 'u', 'l', 'l']

mutual

def render : Json → List Char
  | .null => ['n', 'u', 'l', 'l']
  | .bool true => ['t', 'r', 'u', 'e']
  | .bool false => ['f', 'a', 'l', 's', 'e']
  | .integer n => (toString n).toList
  | .real x => renderReal x
  | .string s => renderString s
  | .array items => '[' :: renderItems items ++ [']']
  | .object members => '\x7b' :: renderMembers members ++ ['\x7d']

def renderItems : List Json → List Char
  | [] => []
  | [item] => render item
  | item :: items => render item ++ ',' :: renderItems items

def renderMembers : List (String × Json) → List Char
  | [] => []
  | [(key, value)] => renderString key ++ ':' :: render value
  | (key, value) :: members =>
    renderString key ++ ':' :: render value ++ ',' :: renderMembers members

end

def text (value : Json) : String := String.ofList value.render

/-- Sets a member: a known key keeps its place and takes the new value, a new key goes last. -/
def setMember (key : String) (value : Json) : List (String × Json) → List (String × Json)
  | [] => [(key, value)]
  | (k, v) :: members =>
    if k = key then (k, value) :: members else (k, v) :: setMember key value members

/-- The value of a member of an object. -/
def member? (key : String) : Json → Option Json
  | .object members => (members.find? (·.1 = key)).map (·.2)
  | _ => none

def string? : Json → Option String
  | .string s => some s
  | _ => none

end Json

end Logbook
