import EntryRef.Archive.Contents
import EntryRef.Archive.Memory
import EntryRef.Main
import EntryRef.Proofs.Archive.Addressing
import EntryRef.Proofs.Archive.Attribution
import EntryRef.Proofs.Archive.Description
import EntryRef.Proofs.Archive.Directories
import EntryRef.Proofs.Archive.Extraction
import EntryRef.Proofs.Archive.Interruption
import EntryRef.Proofs.Archive.Lifecycle
import EntryRef.Proofs.Archive.Reading
import EntryRef.Proofs.Archive.Translation
import EntryRef.Proofs.Authority
import EntryRef.Proofs.Command.Refinement
import EntryRef.Proofs.Flag.Tokens
import EntryRef.Proofs.Identifier.Grammar
import EntryRef.Proofs.Identifier.Scheme
import EntryRef.Proofs.Reference.Agreement
import EntryRef.Proofs.Reference.ArchivePath
import EntryRef.Proofs.Reference.Extension
import EntryRef.Proofs.Reference.FileForms
import EntryRef.Proofs.Reference.Identity
import EntryRef.Proofs.Reference.Independence
import EntryRef.Proofs.Reference.Language
import EntryRef.Proofs.Reference.Parts
import EntryRef.Proofs.Reference.Run
import EntryRef.Proofs.Reference.Setting
import EntryRef.Proofs.Scratch.Creation
import EntryRef.Proofs.Scratch.Room
import EntryRef.Proofs.Text.Glyph
import EntryRef.Proofs.Text.LastOccurrence
import EntryRef.Proofs.Zip.Unpacker
import EntryRef.Zip.Archive
