import Reframe.Lib.ByteParts
import Reframe.Lib.FiniteMap
import Reframe.Lib.Run

/-! Store package archives: the check of the central directory and the reading of the files. -/
namespace Package.Archive
open ByteParts (slice ofLittle)
open Run (Stop)

def componentFile : String := "store.wasm"
def manifestFile : String := "manifest.pb"
def schemaFile : String := "schema.binpb"
def catalogFile : String := "catalog.pb"

def requiredFiles : List String := [componentFile, manifestFile, schemaFile, catalogFile]

structure PackageLimits where
  maxArchiveBytes : ℕ
  maxComponentBytes : ℕ
  maxManifestBytes : ℕ
  maxSchemaBytes : ℕ
  maxCatalogBytes : ℕ

def PackageLimits.default : PackageLimits where
  maxArchiveBytes := 64 * 1024 * 1024
  maxComponentBytes := 32 * 1024 * 1024
  maxManifestBytes := 64 * 1024
  maxSchemaBytes := 7 * 1024 * 1024
  maxCatalogBytes := 8 * 1024 * 1024

/-- An unexpected name is kept as its bytes. -/
inductive ArchiveError where
  | archive (error : String)
  | entryCount (actual : ℕ)
  | invalidArchiveStructure (reason : String)
  | unexpectedEntry (name : List UInt8)
  | duplicateEntry (name : String)
  | nonRegularEntry (name : String)
  | unsupportedCompression (name method : String)
  | entryTooLarge (name : String) (actual limit : ℕ)
  | entryRead (name source : String)
  deriving DecidableEq, Repr

abbrev Checked := Except (Stop ArchiveError)

def refuse {α : Type} (error : ArchiveError) : Checked α := .error (.error error)

def structureError : ArchiveError :=
  .invalidArchiveStructure "central directory entry exceeds its declared bounds"

/-- Addition of `usize` panics where it overflows. -/
def usizeAdd (left right : ℕ) : Checked ℕ :=
  if left + right < 2 ^ 64 then .ok (left + right) else .error .panic

/-- `checked_add`, with an error where it overflows. -/
def checkedAdd (left right : ℕ) : Checked ℕ :=
  if left + right < 2 ^ 64 then .ok (left + right) else refuse structureError

def little (width : ℕ) (bytes : List UInt8) (offset : ℕ) : Checked ℕ := do
  let stop ← usizeAdd offset width
  match slice bytes offset stop with
  | none => refuse structureError
  | some part => .ok (ofLittle part)

def littleU16 (bytes : List UInt8) (offset : ℕ) : Checked ℕ := little 2 bytes offset

def littleU32 (bytes : List UInt8) (offset : ℕ) : Checked ℕ := little 4 bytes offset

/-- `bytes.get(offset..offset + 4) == Some(signature)`. -/
def signed (signature bytes : List UInt8) (offset : ℕ) : Checked Bool := do
  let stop ← usizeAdd offset 4
  .ok (slice bytes offset stop = some signature)

def nameBytes (name : String) : List UInt8 := name.toUTF8.data.toList

def canonicalName (rawName : List UInt8) : Option String :=
  requiredFiles.find? (nameBytes · = rawName)

/-! The end record. -/

def endSignature : List UInt8 := [80, 75, 5, 6]
def endSize : ℕ := 22
def maxComment : ℕ := 2 ^ 16 - 1

/-- `read(bytes, end + position)?`. -/
def field (read : List UInt8 → ℕ → Checked ℕ) (bytes : List UInt8) (offset position : ℕ) :
    Checked ℕ := do
  let start ← usizeAdd offset position
  read bytes start

/-- `total_entries == u16::MAX || little_u32(..)? == u32::MAX || little_u32(..)? == u32::MAX`. -/
def needsZip64 (bytes : List UInt8) (offset totalEntries : ℕ) : Checked Bool := do
  if totalEntries = 2 ^ 16 - 1 then .ok true
  else
    let directorySize ← field littleU32 bytes offset 12
    if directorySize = 2 ^ 32 - 1 then .ok true
    else
      let directoryStart ← field littleU32 bytes offset 16
      .ok (directoryStart = 2 ^ 32 - 1)

def checkEndRecord (bytes : List UInt8) (offset : ℕ) : Checked ℕ := do
  let disk ← field littleU16 bytes offset 4
  let directoryDisk ← field littleU16 bytes offset 6
  let entriesOnDisk ← field littleU16 bytes offset 8
  let totalEntries ← field littleU16 bytes offset 10
  if disk ≠ 0 ∨ directoryDisk ≠ 0 ∨ entriesOnDisk ≠ totalEntries then
    refuse (.invalidArchiveStructure "multi-disk ZIP archives are not supported")
  else
    let zip64 ← needsZip64 bytes offset totalEntries
    if zip64 then
      refuse (.invalidArchiveStructure "ZIP64 is unnecessary for bounded Store packages")
    else .ok offset

/-- Whether an end record starts at the offset: with its comment it ends where the bytes end. -/
def endsAt (bytes : List UInt8) (offset : ℕ) : Checked Bool := do
  if ← signed endSignature bytes offset then
    let commentLength ← field littleU16 bytes offset 20
    let stop ← usizeAdd offset endSize
    let stop ← usizeAdd stop commentLength
    .ok (stop = bytes.length)
  else .ok false

/-- The loop over the offsets. -/
def scanEndRecord (bytes : List UInt8) : List ℕ → Checked ℕ
  | [] => refuse (.invalidArchiveStructure
      "end-of-central-directory record is missing or has trailing data")
  | offset :: offsets => do
    if ← endsAt bytes offset then checkEndRecord bytes offset
    else scanEndRecord bytes offsets

def findEndRecord (bytes : List UInt8) : Checked ℕ :=
  let start := bytes.length - (endSize + maxComment)
  let stop := bytes.length - (endSize - 1)
  scanEndRecord bytes (List.range' start (stop - start)).reverse

/-! The central directory. -/

def entrySignature : List UInt8 := [80, 75, 1, 2]

/-- One round of the loop over the entries, with the offset of the entry and the names seen. -/
def directoryEntry (bytes : List UInt8) (stop : ℕ) (state : ℕ × Finset String) :
    Checked (ℕ × Finset String) := do
  let (offset, names) := state
  if ← signed entrySignature bytes offset then
    let nameLength ← field littleU16 bytes offset 28
    let extraLength ← field littleU16 bytes offset 30
    let commentLength ← field littleU16 bytes offset 32
    let nameStart ← checkedAdd offset 46
    let nameEnd ← checkedAdd nameStart nameLength
    match slice bytes nameStart nameEnd with
    | none => refuse structureError
    | some rawName =>
      match canonicalName rawName with
      | none => refuse (.unexpectedEntry rawName)
      | some name =>
        if name ∈ names then refuse (.duplicateEntry name)
        else
          let next ← checkedAdd nameEnd extraLength
          let next ← checkedAdd next commentLength
          if stop < next then refuse structureError else .ok (next, insert name names)
  else refuse (.invalidArchiveStructure "invalid central directory entry signature")

def directoryEntries (bytes : List UInt8) (stop : ℕ) :
    ℕ → ℕ × Finset String → Checked (ℕ × Finset String)
  | 0, state => .ok state
  | count + 1, state => do
    let state ← directoryEntry bytes stop state
    directoryEntries bytes stop count state

def validateCentralDirectory (bytes : List UInt8) : Checked Unit := do
  let stop ← findEndRecord bytes
  let entryCount ← field littleU16 bytes stop 10
  if entryCount ≠ requiredFiles.length then refuse (.entryCount entryCount)
  else
    let directorySize ← field littleU32 bytes stop 12
    let directoryStart ← field littleU32 bytes stop 16
    if directoryStart + directorySize ≠ stop then
      refuse (.invalidArchiveStructure "central directory bounds are inconsistent")
    else
      let (offset, _) ← directoryEntries bytes stop entryCount (directoryStart, ∅)
      if offset ≠ stop then refuse structureError else .ok ()

/-! The files. -/

inductive CompressionMethod where
  | stored
  | deflated
  | other (name : String)
  deriving DecidableEq, Repr

/-- An entry as the archive reader shows it: what it holds once decompressed, and the error with
which that breaks off, if it does. -/
structure ZipEntry where
  nameRaw : List UInt8
  isDir : Bool
  isSymlink : Bool
  unixMode : Option ℕ
  compression : CompressionMethod
  size : ℕ
  contents : List UInt8
  failure : Option String

/-- `take(limit).read_to_end(..)`. -/
def ZipEntry.read (entry : ZipEntry) (limit : ℕ) : Except String (List UInt8) :=
  if limit ≤ entry.contents.length then .ok (entry.contents.take limit)
  else
    match entry.failure with
    | none => .ok entry.contents
    | some error => .error error

/-- The file type bits of a mode are those of a regular file, or none. -/
def regularMode (mode : ℕ) : Bool := mode &&& 0o170000 = 0 || mode &&& 0o170000 = 0o100000

def validateEntryType (entry : ZipEntry) (name : String) : Checked Unit :=
  if entry.isDir ∨ entry.isSymlink ∨ ∃ mode ∈ entry.unixMode, regularMode mode = false then
    refuse (.nonRegularEntry name)
  else
    match entry.compression with
    | .stored | .deflated => .ok ()
    | .other method => refuse (.unsupportedCompression name method)

def entryLimit (name : String) (limits : PackageLimits) : ℕ :=
  if name = componentFile then limits.maxComponentBytes
  else if name = manifestFile then limits.maxManifestBytes
  else if name = schemaFile then limits.maxSchemaBytes
  else if name = catalogFile then limits.maxCatalogBytes
  else 0

def archiveEntry (limits : PackageLimits) (files : FiniteMap String (List UInt8))
    (item : Except String ZipEntry) : Checked (FiniteMap String (List UInt8)) :=
  match item with
  | .error error => refuse (.archive error)
  | .ok entry =>
    match canonicalName entry.nameRaw with
    | none => refuse (.unexpectedEntry entry.nameRaw)
    | some name => do
      validateEntryType entry name
      let limit := entryLimit name limits
      if limit < entry.size then refuse (.entryTooLarge name entry.size limit)
      else
        match entry.read (min (limit + 1) (2 ^ 64 - 1)) with
        | .error source => refuse (.entryRead name source)
        | .ok contents =>
          if limit < contents.length then refuse (.entryTooLarge name contents.length limit)
          else if files.contains name then refuse (.duplicateEntry name)
          else .ok (files.insert name contents)

/-- `zip` opens an archive, as the list of its entries. -/
def readArchive (zip : List UInt8 → Except String (List (Except String ZipEntry)))
    (bytes : List UInt8) (limits : PackageLimits) : Checked (FiniteMap String (List UInt8)) := do
  validateCentralDirectory bytes
  match zip bytes with
  | .error error => refuse (.archive error)
  | .ok archive =>
    if archive.length ≠ requiredFiles.length then refuse (.entryCount archive.length)
    else archive.foldlM (archiveEntry limits) ∅

end Package.Archive
