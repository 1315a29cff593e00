/-!
# Bytes of text

A text is written as UTF-8. Reading is strict, where one ill-formed byte refuses the whole, or
lenient, where each maximal ill-formed piece becomes one replacement character. The lenient reader
leaves well-formed text as it is, by definition.
-/

namespace PolicyBundle

/-- A string of bytes: file contents, archives, and text before it is read as text. -/
abbrev Bytes := List UInt8

namespace Text

/-- The UTF-8 form of a text. -/
def utf8 (text : String) : Bytes :=
  text.toUTF8.data.toList

/-- The text that bytes are the UTF-8 form of, if they are well-formed. -/
def ofUtf8? (bytes : Bytes) : Option String :=
  String.fromUTF8? ⟨bytes.toArray⟩

@[simp] theorem ofUtf8?_utf8 (text : String) : ofUtf8? (utf8 text) = some text := by
  simp only [ofUtf8?, utf8, String.fromUTF8?, String.toUTF8_eq_toByteArray, Array.toArray_toList]
  simp [text.isValidUTF8, String.fromUTF8]

/-- Whether `b` may stand second after the leading byte `a`. -/
def mayFollow (a b : UInt8) : Bool :=
  if a < 0xC2 then false
  else if a < 0xE0 then 0x80 ≤ b && b ≤ 0xBF
  else if a == 0xE0 then 0xA0 ≤ b && b ≤ 0xBF
  else if a == 0xED then 0x80 ≤ b && b ≤ 0x9F
  else if a < 0xF0 then 0x80 ≤ b && b ≤ 0xBF
  else if a == 0xF0 then 0x90 ≤ b && b ≤ 0xBF
  else if a < 0xF4 then 0x80 ≤ b && b ≤ 0xBF
  else if a == 0xF4 then 0x80 ≤ b && b ≤ 0x8F
  else false

/-- Whether a byte continues a character. -/
def isTail (b : UInt8) : Bool :=
  0x80 ≤ b && b ≤ 0xBF

/-- The code point with these high bits and six low bits from a continuing byte. -/
def withTail (high : Nat) (b : UInt8) : Nat :=
  64 * high + (b.toNat - 0x80)

/-- What is left of bytes behind all the characters that they begin with. -/
def afterCharacters : Bytes → Bytes
  | [] => []
  | a :: rest =>
    if a < 0x80 then afterCharacters rest
    else
      let width := if a < 0xE0 then 1 else if a < 0xF0 then 2 else 3
      let tail := rest.take width
      if tail.length = width && tail.all isTail && rest.head?.any (mayFollow a) then
        afterCharacters (rest.drop width)
      else a :: rest
termination_by bytes => bytes.length
decreasing_by all_goals (simp only [List.length_cons, List.length_drop]; omega)

/-- The replacement character, which stands for an ill-formed piece. -/
def replacement : Char := '\uFFFD'

/-- The characters of bytes, each maximal ill-formed piece being one replacement character. A piece
is the longest beginning of a character that the bytes have at that place, or one byte when no
character begins there. -/
def repair : Bytes → List Char
  | [] => []
  | a :: afterA =>
    if a < 0x80 then Char.ofNat a.toNat :: repair afterA
    else
      match afterA with
      | [] => [replacement]
      | b :: afterB =>
        if !mayFollow a b then replacement :: repair (b :: afterB)
        else if a < 0xE0 then
          Char.ofNat (withTail (a.toNat - 0xC0) b) :: repair afterB
        else
          match afterB with
          | [] => [replacement]
          | c :: afterC =>
            if !isTail c then replacement :: repair (c :: afterC)
            else if a < 0xF0 then
              Char.ofNat (withTail (withTail (a.toNat - 0xE0) b) c) :: repair afterC
            else
              match afterC with
              | [] => [replacement]
              | d :: afterD =>
                if !isTail d then replacement :: repair (d :: afterD)
                else
                  Char.ofNat (withTail (withTail (withTail (a.toNat - 0xF0) b) c) d) ::
                    repair afterD

/-- The text of bytes, well-formed or not. -/
def ofUtf8Lossy (bytes : Bytes) : String :=
  match ofUtf8? bytes with
  | some text => text
  | none => String.ofList (repair bytes)

@[simp] theorem ofUtf8Lossy_utf8 (text : String) : ofUtf8Lossy (utf8 text) = text := by
  simp [ofUtf8Lossy]

end Text

end PolicyBundle
