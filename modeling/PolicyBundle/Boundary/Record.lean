import PolicyBundle.Build.Parameters

/-!
# Parameter records

The form in which foreign callers give parameters: zero-terminated strings that may be absent,
arrays with a length of their own, and integers as flags, of which the positive ones mean yes.
Reading a record never fails: text that is not well-formed is repaired, and what makes no sense
counts as absent.
-/

namespace PolicyBundle.Boundary

/-- A string of a foreign caller: its bytes, which end at the first zero byte, or nothing. -/
abbrev ForeignText := Option Bytes

/-- An array of strings with the length that the caller declares. The array may be absent. -/
structure ForeignTexts where
  items : Option (List ForeignText)
  length : Int

/-- A parameter record. -/
structure Record where
  target : ForeignText
  capabilitiesDocument : ForeignText
  capabilitiesVersion : ForeignText
  bundleMode : Int
  entrypoints : ForeignTexts
  debug : Int
  optimization : Int
  prune : Int
  workDir : ForeignText
  revision : ForeignText
  ignore : ForeignTexts
  dialect : Int
  followLinks : Int
  erasePrints : Int

/-- The text of a foreign string. -/
def textOf (text : ForeignText) : Option String :=
  text.map fun bytes => Text.ofUtf8Lossy (bytes.takeWhile (· ≠ 0))

/-- The text of a foreign string that is not empty. -/
def properText (text : ForeignText) : Option String :=
  (textOf text).filter fun text => !text.isEmpty

/-- The texts of an array that are not empty. -/
def properTexts (texts : ForeignTexts) : List String :=
  ((texts.items.getD []).take texts.length.toNat).filterMap properText

/-- Whether a flag means yes. -/
def isSet (flag : Int) : Bool :=
  flag > 0

/-- The parameters that a record stands for. -/
def Record.parameters (r : Record) : Build.Parameters where
  target := (textOf r.target).getD ""
  capabilitiesDocument := properText r.capabilitiesDocument
  capabilitiesVersion := properText r.capabilitiesVersion
  bundleMode := isSet r.bundleMode
  entrypoints := properTexts r.entrypoints
  debug := isSet r.debug
  optimization := r.optimization.toNat
  prune := isSet r.prune
  workDir := properText r.workDir
  revision := properText r.revision
  ignore := properTexts r.ignore
  dialect := .ofCode r.dialect
  followLinks := isSet r.followLinks
  erasePrints := isSet r.erasePrints

/-- The bytes that a foreign caller hands over, as many as it declares. -/
def bytesOf (bytes : Option Bytes) (length : Int) : Bytes :=
  (bytes.getD []).take length.toNat

end PolicyBundle.Boundary
