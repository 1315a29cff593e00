import PolicyBundle.Capability.Basic

/-!
# Known versions

The capabilities of the versions of the language that the library knows by name. The later version
has all builtin functions of the earlier one and four more, in the order of their names.
-/

namespace PolicyBundle.Capability

/-- The type of an argument or a result. -/
inductive ValueType where
  | any
  | array
  | boolean
  | null
  | number
  | object
  | set
  | string
  deriving DecidableEq, Repr

/-- The name of a type. -/
def ValueType.name : ValueType → String
  | .any => "any"
  | .array => "array"
  | .boolean => "boolean"
  | .null => "null"
  | .number => "number"
  | .object => "object"
  | .set => "set"
  | .string => "string"

/-- The type of a builtin function. -/
structure Signature where
  name : String
  arguments : List ValueType
  result : ValueType
  /-- The operator that may be written between two arguments instead. -/
  operator : Option String
  /-- Whether the earlier version has the function. -/
  early : Bool

/-- The object that describes a type. -/
def describeType (type : ValueType) : Json :=
  .object [("type", .string type.name)]

/-- The builtin function with its declaration. -/
def Signature.builtin (s : Signature) : Builtin where
  name := s.name
  details :=
    ("decl", .object [
      ("args", .array (s.arguments.map describeType)),
      ("result", describeType s.result),
      ("type", .string "function")]) ::
    s.operator.toList.map fun operator => ("infix", .string operator)

/-- The builtin functions of the later version. -/
def signatures : List Signature := [
  ⟨"abs", [.number], .number, none, true⟩,
  ⟨"all", [.any], .boolean, none, true⟩,
  ⟨"and", [.set, .set], .set, some "&", true⟩,
  ⟨"any", [.any], .boolean, none, true⟩,
  ⟨"array.concat", [.array, .array], .array, none, true⟩,
  ⟨"array.slice", [.array, .number, .number], .array, none, true⟩,
  ⟨"assign", [.any, .any], .boolean, some ":=", true⟩,
  ⟨"base64.decode", [.string], .string, none, true⟩,
  ⟨"base64.encode", [.string], .string, none, true⟩,
  ⟨"concat", [.string, .any], .string, none, true⟩,
  ⟨"contains", [.string, .string], .boolean, none, true⟩,
  ⟨"count", [.any], .number, none, true⟩,
  ⟨"crypto.sha256", [.string], .string, none, false⟩,
  ⟨"crypto.x509.parse_keypair", [.string, .string], .object, none, false⟩,
  ⟨"div", [.number, .number], .number, some "/", true⟩,
  ⟨"endswith", [.string, .string], .boolean, none, true⟩,
  ⟨"eq", [.any, .any], .boolean, some "=", true⟩,
  ⟨"equal", [.any, .any], .boolean, some "==", true⟩,
  ⟨"format_int", [.number, .number], .string, none, true⟩,
  ⟨"glob.match", [.string, .any, .string], .boolean, none, true⟩,
  ⟨"gt", [.any, .any], .boolean, some ">", true⟩,
  ⟨"gte", [.any, .any], .boolean, some ">=", true⟩,
  ⟨"http.send", [.object], .object, none, true⟩,
  ⟨"indexof", [.string, .string], .number, none, true⟩,
  ⟨"internal.member_2", [.any, .any], .boolean, some "in", true⟩,
  ⟨"internal.member_3", [.any, .any, .any], .boolean, some "in", true⟩,
  ⟨"internal.print", [.array], .null, none, true⟩,
  ⟨"io.jwt.decode", [.string], .array, none, true⟩,
  ⟨"is_array", [.any], .boolean, none, true⟩,
  ⟨"is_boolean", [.any], .boolean, none, true⟩,
  ⟨"is_null", [.any], .boolean, none, true⟩,
  ⟨"is_number", [.any], .boolean, none, true⟩,
  ⟨"is_object", [.any], .boolean, none, true⟩,
  ⟨"is_set", [.any], .boolean, none, true⟩,
  ⟨"is_string", [.any], .boolean, none, true⟩,
  ⟨"json.marshal", [.any], .string, none, true⟩,
  ⟨"json.unmarshal", [.string], .any, none, true⟩,
  ⟨"lower", [.string], .string, none, true⟩,
  ⟨"lt", [.any, .any], .boolean, some "<", true⟩,
  ⟨"lte", [.any, .any], .boolean, some "<=", true⟩,
  ⟨"max", [.any], .any, none, true⟩,
  ⟨"min", [.any], .any, none, true⟩,
  ⟨"minus", [.any, .any], .any, some "-", true⟩,
  ⟨"mul", [.number, .number], .number, some "*", true⟩,
  ⟨"neq", [.any, .any], .boolean, some "!=", true⟩,
  ⟨"net.cidr_contains", [.string, .string], .boolean, none, true⟩,
  ⟨"object.get", [.object, .any, .any], .any, none, true⟩,
  ⟨"object.keys", [.object], .set, none, true⟩,
  ⟨"object.remove", [.object, .any], .object, none, true⟩,
  ⟨"object.union", [.object, .object], .object, none, true⟩,
  ⟨"or", [.set, .set], .set, some "|", true⟩,
  ⟨"plus", [.number, .number], .number, some "+", true⟩,
  ⟨"print", [], .null, none, true⟩,
  ⟨"regex.match", [.string, .string], .boolean, none, true⟩,
  ⟨"rem", [.number, .number], .number, some "%", true⟩,
  ⟨"replace", [.string, .string, .string], .string, none, true⟩,
  ⟨"sort", [.any], .array, none, true⟩,
  ⟨"split", [.string, .string], .array, none, true⟩,
  ⟨"sprintf", [.string, .array], .string, none, true⟩,
  ⟨"startswith", [.string, .string], .boolean, none, true⟩,
  ⟨"strings.count", [.string, .string], .number, none, false⟩,
  ⟨"strings.render_template", [.string, .object], .string, none, false⟩,
  ⟨"sum", [.any], .number, none, true⟩,
  ⟨"time.now_ns", [], .number, none, true⟩,
  ⟨"time.parse_rfc3339_ns", [.string], .number, none, true⟩,
  ⟨"to_number", [.any], .number, none, true⟩,
  ⟨"trim", [.string, .string], .string, none, true⟩,
  ⟨"trim_space", [.string], .string, none, true⟩,
  ⟨"type_name", [.any], .string, none, true⟩,
  ⟨"union", [.set], .set, none, true⟩,
  ⟨"upper", [.string], .string, none, true⟩,
  ⟨"walk", [.any], .array, none, true⟩,
  ⟨"yaml.marshal", [.any], .string, none, true⟩,
  ⟨"yaml.unmarshal", [.string], .any, none, true⟩]

/-- The keywords that both versions know. -/
def futureKeywords : List String := ["contains", "every", "if", "in"]

/-- The versions of the binary interface that both versions know. -/
def abiVersions : List AbiVersion := [⟨1, 1⟩, ⟨1, 2⟩]

/-- The features of the earlier version. -/
def earlyFeatures : List String :=
  ["rule_head_ref_string_prefixes", "rule_head_refs", "rego_v1_import"]

/-- The capabilities of the earlier version. -/
def early : Capabilities where
  builtins := (signatures.filter (·.early)).map (·.builtin)
  futureKeywords := futureKeywords
  abiVersions := abiVersions
  features := earlyFeatures
  allowNet := none

/-- The capabilities of the later version. -/
def current : Capabilities where
  builtins := signatures.map (·.builtin)
  futureKeywords := futureKeywords
  abiVersions := abiVersions
  features := earlyFeatures ++ ["rego_v1", "keywords_in_refs"]
  allowNet := none

/-- The name of the later version. -/
def currentVersion : String := "v1.0.0"

/-- The known versions by name, the earlier one first. -/
def catalog : List (String × Capabilities) := [("v0.68.0", early), (currentVersion, current)]

end PolicyBundle.Capability
