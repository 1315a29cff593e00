import PolicyBundle.Json.Binary64

/-!
# JSON values

A number is an integer when it was written without point and exponent and fits into 64 bits, signed
or not, and a number of double precision otherwise. An object is the list of its fields in
increasing order of names, each name once; `setField` keeps it so.
-/

namespace PolicyBundle

namespace Json

/-- A number of a document. -/
inductive Number where
  | integer (value : Int)
  | float (value : Binary64)
  deriving DecidableEq, Repr

end Json

/-- A JSON value. -/
inductive Json where
  | null
  | bool (value : Bool)
  | number (value : Json.Number)
  | string (value : String)
  | array (items : List Json)
  | object (fields : List (String × Json))

namespace Json

/-- The fields of an object, in increasing order of names. -/
abbrev Fields := List (String × Json)

/-- The fields with `name` set to `value`, in the place of what `name` had before. -/
def setField (name : String) (value : Json) : Fields → Fields
  | [] => [(name, value)]
  | (other, old) :: rest =>
    if name = other then (name, value) :: rest
    else if name < other then (name, value) :: (other, old) :: rest
    else (other, old) :: setField name value rest

/-- The object without fields. -/
def emptyObject : Json := .object []

/-- Whether a value is an object without fields. -/
def isEmptyObject : Json → Bool
  | .object [] => true
  | _ => false

/-- Whether a value is an object. -/
def isObject : Json → Bool
  | .object _ => true
  | _ => false

/-- An object of a list of fields, of which a later one wins over an earlier one of the same
name. -/
def ofFields (fields : List (String × Json)) : Json :=
  .object (fields.foldl (fun done (name, value) => setField name value done) [])

end Json

end PolicyBundle
