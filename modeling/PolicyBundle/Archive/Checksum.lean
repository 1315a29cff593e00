import PolicyBundle.Text.Utf8

/-!
# Checksums

The cyclic redundancy check of 32 bits that compressed files carry, with the reflected polynomial
`EDB88320`, computed bit by bit.
-/

namespace PolicyBundle.Archive

/-- One bit shifted out of the register. -/
def shiftBit (register : UInt32) : UInt32 :=
  if register &&& 1 = 1 then (register >>> 1) ^^^ 0xEDB88320 else register >>> 1

/-- The register after one more byte. -/
def addByte (register : UInt32) (byte : UInt8) : UInt32 :=
  shiftBit (shiftBit (shiftBit (shiftBit (shiftBit (shiftBit (shiftBit (shiftBit
    (register ^^^ byte.toUInt32))))))))

/-- The checksum of some bytes. -/
def checksum (bytes : Bytes) : UInt32 :=
  bytes.foldl addByte 0xFFFFFFFF ^^^ 0xFFFFFFFF

end PolicyBundle.Archive
