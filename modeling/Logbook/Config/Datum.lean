import Logbook.Json
import Logbook.Text.Escaped
import Logbook.Toml.Value

/-!
# Data to decode

The common ground of the formats that a configuration is written in, what is told of a datum that
does not fit, and the decoding of sections. A section is a table, or a list of its values in the
order of its fields. Settings that are missing keep their defaults, unknown names are passed over,
and the first datum that does not fit decides.
-/

namespace Logbook.Config

inductive Datum where
  | null
  | boolean (b : Bool)
  | integer (n : Int)
  | float (x : Float)
  | string (text : String)
  | sequence (items : List Datum)
  | mapping (entries : List (String × Datum))
  /-- A date or a time; it has no settings inside. -/
  | dateTime

namespace Datum

mutual

def ofJson : Json → Datum
  | .null => .null
  | .bool b => .boolean b
  | .integer n => .integer n
  | .real x => .float x
  | .string s => .string s
  | .array items => .sequence (ofJsonItems items)
  | .object members => .mapping (ofJsonMembers members)

def ofJsonItems : List Json → List Datum
  | [] => []
  | item :: items => ofJson item :: ofJsonItems items

def ofJsonMembers : List (String × Json) → List (String × Datum)
  | [] => []
  | (key, value) :: members => (key, ofJson value) :: ofJsonMembers members

end

def ofScalar : Toml.Scalar → Datum
  | .string s => .string s
  | .integer n => .integer n
  | .float x => .float x
  | .boolean b => .boolean b
  | .dateTime => .dateTime

mutual

def ofNode : Toml.Node → Datum
  | .scalar s => ofScalar s
  | .array items => .sequence (ofNodes items)
  | .inline entries => .mapping (ofEntries entries)
  | .table _ entries => .mapping (ofEntries entries)
  | .tables elements => .sequence (ofElements elements)

def ofNodes : List Toml.Node → List Datum
  | [] => []
  | node :: nodes => ofNode node :: ofNodes nodes

def ofEntries : List (String × Toml.Node) → List (String × Datum)
  | [] => []
  | (key, node) :: entries => (key, ofNode node) :: ofEntries entries

def ofElements : List (List (String × Toml.Node)) → List Datum
  | [] => []
  | entries :: elements => .mapping (ofEntries entries) :: ofElements elements

end

def describe : Datum → String
  | .null => "null"
  | .boolean b => "boolean \x60" ++ (if b then "true" else "false") ++ "\x60"
  | .integer n => "integer \x60" ++ toString n ++ "\x60"
  | .float x => "floating point \x60" ++ String.ofList (Decimal.render Decimal.message x) ++ "\x60"
  | .string s => "string " ++ Escaped.quote s
  | .sequence _ => "sequence"
  | .mapping _ | .dateTime => "map"

end Datum

inductive Misfit where
  | wrongType (found : Datum) (expected : String)
  | negative (n : Int) (expected : String)
  | unknownVariant (name : String) (known : List String)
  /-- The text is not of the format, or the shape of a variant is wrong; no more is told. -/
  | malformed

def Misfit.message? : Misfit → Option String
  | .wrongType found expected =>
    some ("invalid type: " ++ found.describe ++ ", expected " ++ expected)
  | .negative n expected =>
    some ("invalid value: integer \x60" ++ toString n ++ "\x60, expected " ++ expected)
  | .unknownVariant name known =>
    some ("unknown variant \x60" ++ name ++ "\x60, expected " ++
      String.intercalate " or " (known.map fun k => "\x60" ++ k ++ "\x60"))
  | .malformed => none

/-- What differs between the formats: whether a list may hold more values than the section has
fields, and what a variant in the form of a table may carry. -/
structure Dialect where
  extraItems : Bool
  payload : Datum → Bool

/-- In TOML the payload of a variant is an empty table or array. -/
def Dialect.toml : Dialect where
  extraItems := true
  payload
    | .mapping entries => entries.isEmpty
    | .sequence items => items.isEmpty
    | _ => false

/-- In JSON the payload of a variant is null. -/
def Dialect.json : Dialect where
  extraItems := false
  payload
    | .null => true
    | _ => false

/-! ## Single settings -/

def natural (expected : String) : Datum → Except Misfit Nat
  | .integer n => if n < 0 then .error (.negative n expected) else .ok n.toNat
  | d => .error (.wrongType d expected)

def optionalNatural (expected : String) : Datum → Except Misfit (Option Nat)
  | .null => .ok none
  | d => (natural expected d).map some

def text : Datum → Except Misfit String
  | .string s => .ok s
  | d => .error (.wrongType d "a string")

def boolean : Datum → Except Misfit Bool
  | .boolean b => .ok b
  | d => .error (.wrongType d "a boolean")

def texts : Datum → Except Misfit (List String)
  | .sequence items => items.mapM text
  | d => .error (.wrongType d "a sequence")

/-- One of several named variants: by its name, or as a table of one entry. -/
def variant {α : Type} (dialect : Dialect) (variants : List (String × α)) :
    Datum → Except Misfit α
  | .string name => named name
  | .mapping [(name, payload)] =>
    (named name).bind fun a => if dialect.payload payload then .ok a else .error .malformed
  | _ => .error .malformed
where
  named (name : String) : Except Misfit α :=
    match variants.find? (·.1 = name) with
    | some (_, a) => .ok a
    | none => .error (.unknownVariant name (variants.map (·.1)))

/-! ## Sections -/

/-- A setting of a section: its name, and how a datum changes the section. -/
structure Field (σ : Type) where
  name : String
  read : Datum → σ → Except Misfit σ

def readEntries {σ : Type} (fields : List (Field σ)) : List (String × Datum) → σ → Except Misfit σ
  | [], s => .ok s
  | (key, datum) :: entries, s =>
    match fields.find? (·.name = key) with
    | none => readEntries fields entries s
    | some field => (field.read datum s).bind (readEntries fields entries)

def readItems {σ : Type} (dialect : Dialect) : List (Field σ) → List Datum → σ → Except Misfit σ
  | _, [], s => .ok s
  | [], _ :: _, s => if dialect.extraItems then .ok s else .error .malformed
  | field :: fields, datum :: data, s =>
    (field.read datum s).bind (readItems dialect fields data)

def readSection {σ : Type} (dialect : Dialect) (name : String) (fields : List (Field σ))
    (datum : Datum) (defaults : σ) : Except Misfit σ :=
  match datum with
  | .mapping entries => readEntries fields entries defaults
  | .sequence items => readItems dialect fields items defaults
  | .dateTime => .ok defaults
  | d => .error (.wrongType d ("struct " ++ name))

end Logbook.Config
