import EntryRef.Deflate.Block
import EntryRef.Text.Decoding
import EntryRef.Trouble

/-!
# Faults of archives

What is wrong with a file that is read as an archive, or with a member of it, and the trouble that
it makes.
-/

namespace EntryRef.Zip

open Text

/-- What is wrong with an archive or a member. -/
inductive Fault
  /-- There is no directory. -/
  | noDirectory
  /-- The archive has more than one part. -/
  | manyParts
  /-- The directory starts before the file. -/
  | badDirectoryPlace
  /-- The directory is cut off. -/
  | shortDirectory
  /-- What stands in the directory is no record of a member. -/
  | badDirectoryMark
  /-- The extra data of a member are cut off. -/
  | badExtra (tag length : Nat)
  /-- The extra data of a member lack a number that the record leaves to them. -/
  | missingExtra (what : Text)
  /-- A name is not UTF-8, though the flags say so. -/
  | badName (why : DecodeFault)
  /-- The archive asks for a newer reader. -/
  | version (tenths : Nat)
  /-- The archive has been closed. -/
  | closed
  /-- The member's header starts before the file. -/
  | beforeStart
  /-- The member's header starts at a place that cannot be named. -/
  | beyondNumbers
  /-- The member's header is cut off. -/
  | shortHeader
  /-- There is no header of a member. -/
  | badHeaderMark
  /-- The data are a patch. -/
  | patched
  /-- The data are encrypted by a strong method. -/
  | strongEncryption
  /-- The header has another name than the directory. -/
  | otherName (stored : Text) (found : Bytes)
  /-- The data reach into the next member. -/
  | overlap (stored : Text)
  /-- The data are encrypted. -/
  | encrypted (shown : Text)
  /-- A name is empty where its last character matters. -/
  | emptyName
  /-- The compression method is unknown. -/
  | method
  /-- The library for the compression method is not there. -/
  | noLibrary (name : Text)
  /-- The data end before the member does. -/
  | endOfData
  /-- The compressed data are wrong. -/
  | compression (why : Deflate.Fault)
  /-- The library for the compression method refuses the compressed data. -/
  | unpacking (why : Trouble)
  /-- The data do not have the check that they should have. -/
  | check (name : Text)
deriving DecidableEq

namespace Fault

/-- The words for a fault. -/
def message : Fault → Text
  | .noDirectory => "File is not a zip file"
  | .manyParts => "zipfiles that span multiple disks are not supported"
  | .badDirectoryPlace => "Bad offset for central directory"
  | .shortDirectory => "Truncated central directory"
  | .badDirectoryMark => "Bad magic number for central directory"
  | .badExtra tag length =>
    "Corrupt extra field " ++ hex 4 tag ++ " (size=" ++ ofNat length ++ ")"
  | .missingExtra what => "Corrupt zip64 extra field. " ++ what ++ " not found."
  | .badName why => why.message
  | .version tenths => "zip file version " ++ ofNat (tenths / 10) ++ "." ++ ofNat (tenths % 10)
  | .closed => "Attempt to use ZIP archive that was already closed"
  | .beforeStart => (Trouble.system 22 none).words
  | .beyondNumbers => "cannot fit 'int' into an offset-sized integer"
  | .shortHeader => "Truncated file header"
  | .badHeaderMark => "Bad magic number for file header"
  | .patched => "compressed patched data (flag bit 5)"
  | .strongEncryption => "strong encryption (flag bit 6)"
  | .otherName stored found =>
    "File name in directory " ++ quoted stored ++ " and header " ++ quotedBytes found ++ " differ."
  | .overlap stored => "Overlapped entries: " ++ quoted stored ++ " (possible zip bomb)"
  | .encrypted shown => "File " ++ shown ++ " is encrypted, password required for extraction"
  | .emptyName => "string index out of range"
  | .method => "That compression method is not supported"
  | .noLibrary name => "Compression requires the (missing) " ++ name ++ " module"
  | .endOfData => []
  | .compression why => why.message
  | .unpacking why => why.words
  | .check name => "Bad CRC-32 for file " ++ quoted name

/-- The kind of trouble that a fault makes. -/
def kind : Fault → Trouble.Kind
  | .noDirectory | .manyParts | .badDirectoryPlace | .shortDirectory | .badDirectoryMark
  | .badExtra .. | .missingExtra _ | .shortHeader | .badHeaderMark | .otherName .. | .overlap _
  | .check _ => .badArchive
  | .badName _ => .notText
  | .version _ | .patched | .strongEncryption | .method => .unsupported
  | .closed | .beyondNumbers => .wrongValue
  | .beforeStart => .system
  | .encrypted _ | .noLibrary _ => .unable
  | .emptyName => .noSuchIndex
  | .endOfData => .endOfData
  | .compression _ => .badCompression
  | .unpacking why => why.kind

/-- The trouble that a fault makes. -/
def trouble (f : Fault) : Trouble := ⟨f.kind, f.message⟩

end Fault

end EntryRef.Zip
