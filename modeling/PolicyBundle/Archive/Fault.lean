import PolicyBundle.Text.Basic

/-!
# Faults of archives

Why an archive cannot be read on: faults of its compression, and faults of its headers.
-/

namespace PolicyBundle.Archive

/-- Why an archive cannot be read, or cannot be read on. -/
inductive Fault where
  /-- The compressed file ends inside its header or behind its data. -/
  | unexpectedEnd
  | invalidHeader
  | headerFieldTooLong
  | wrongChecksum
  | incompleteData
  | corruptData
  | partialBlock
  | skippedPastEnd
  | wrongHeaderSum
  /-- A field of a header that holds no number. `field` tells what the number was needed for. -/
  | notNumber (text field : String)
  | notText (text field : String)
  | sizeOverflow
  | repeatedLongName
  | repeatedExtensions
  | danglingExtension
  | sparseHeader
  | sparseUnaligned
  | sparseOutOfOrder
  | sparseTooLong
  | sparseTooMuch
  | sparseExtension
  | sparseSize
  | sparseEntrySize
  deriving DecidableEq, Repr

/-- The text of a fault. -/
def Fault.message : Fault → String
  | .unexpectedEnd => "unexpected end of file"
  | .invalidHeader => "invalid gzip header"
  | .headerFieldTooLong => "gzip header field too long"
  | .wrongChecksum => "corrupt gzip stream does not have a matching checksum"
  | .incompleteData => "incomplete deflate stream"
  | .corruptData => "corrupt deflate stream"
  | .partialBlock => "failed to read entire block"
  | .skippedPastEnd => "unexpected EOF during skip"
  | .wrongHeaderSum => "archive header checksum mismatch"
  | .notNumber text field => "numeric field was not a number: " ++ text ++ " when getting " ++ field
  | .notText text field =>
    "numeric field did not have utf-8 text: " ++ text ++ " when getting " ++ field
  | .sizeOverflow => "size overflow"
  | .repeatedLongName => "two long name entries describing the same member"
  | .repeatedExtensions => "two pax extensions entries describing the same member"
  | .danglingExtension =>
    "members found describing a future member but no future member found"
  | .sparseHeader => "sparse entry type listed but not GNU header"
  | .sparseUnaligned => "previous block in sparse file was not aligned to 512-byte boundary"
  | .sparseOutOfOrder => "out of order or overlapping sparse blocks"
  | .sparseTooLong => "more bytes listed in sparse file than u64 can hold"
  | .sparseTooMuch => "sparse file consumed more data than the header listed"
  | .sparseExtension => "failed to read extension"
  | .sparseSize => "mismatch in sparse file chunks and size in header"
  | .sparseEntrySize => "mismatch in sparse file chunks and entry size in header"

end PolicyBundle.Archive
