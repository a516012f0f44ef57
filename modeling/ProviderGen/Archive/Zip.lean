import ProviderGen.Archive
import ProviderGen.Archive.Checksum

/-!
Archives as bytes. Every entry has a record with its bytes behind it, then come the records of
the directory, which repeat the names and say where the bytes are, and a record that says where
the directory is. Bytes are stored as they are. Reading goes from the last record back.
-/

namespace ProviderGen.Archive.Zip

/-! ### Writing -/

def le16 (n : Nat) : ByteArray := ⟨#[UInt8.ofNat n, UInt8.ofNat (n / 256)]⟩

def le32 (n : Nat) : ByteArray := le16 n ++ le16 (n / 65536)

@[simp] theorem size_le16 (n : Nat) : (le16 n).size = 2 := rfl

@[simp] theorem size_le32 (n : Nat) : (le32 n).size = 4 := by
  simp [le32, ByteArray.size_append]

def entryMark : Nat := 0x04034b50

def directoryMark : Nat := 0x02014b50

def endMark : Nat := 0x06054b50

/-- Version 2.0 is enough to read what is written here. -/
def version : Nat := 20

/-- Bit 11 says that a name is in UTF-8; plain names do without it. -/
def flags (name : String) : Nat := if name.toList.all (·.toNat < 128) then 0 else 0x800

/-- The first of January 1980, the earliest day there is. -/
def firstDay : Nat := 0x21

/-- What both records of an entry have in common. -/
def facts (e : Entry) : ByteArray :=
  le16 version ++ le16 (flags e.name) ++ le16 0 ++ le16 0 ++ le16 firstDay ++
    le32 (checksum e.bytes).toNat ++ le32 e.bytes.size ++ le32 e.bytes.size ++
    le16 e.name.toUTF8.size ++ le16 0

def entryRecord (e : Entry) : ByteArray :=
  le32 entryMark ++ facts e ++ e.name.toUTF8 ++ e.bytes

/-- A regular file that its owner may write and all may read. -/
def fileMode : Nat := 0o100644

def directoryRecord (e : Entry) (offset : Nat) : ByteArray :=
  le32 directoryMark ++ le16 (3 * 256 + version) ++ facts e ++ le16 0 ++ le16 0 ++ le16 0 ++
    le32 (fileMode * 65536) ++ le32 offset ++ e.name.toUTF8

def directory (offset : Nat) : List Entry → ByteArray
  | [] => .empty
  | e :: es => directoryRecord e offset ++ directory (offset + (entryRecord e).size) es

def endRecord (count size offset : Nat) : ByteArray :=
  le32 endMark ++ le16 0 ++ le16 0 ++ le16 count ++ le16 count ++ le32 size ++ le32 offset ++ le16 0

def encode (es : List Entry) : ByteArray :=
  let records := es.foldl (fun b e => b ++ entryRecord e) .empty
  let dir := directory 0 es
  records ++ dir ++ endRecord es.length dir.size records.size

/-! ### Reading -/

/-- `n` bytes from `at` on. -/
def slice? (b : ByteArray) (start n : Nat) : Option ByteArray :=
  if start + n ≤ b.size then some (b.extract start (start + n)) else none

def number? (b : ByteArray) (start n : Nat) : Option Nat :=
  (slice? b start n).map fun s => s.data.toList.foldr (fun x v => x.toNat + 256 * v) 0

/-- The last place of a record that could be the end record, from `start` downwards. -/
def lastEnd? (b : ByteArray) : Nat → Option Nat
  | 0 => if number? b 0 4 = some endMark then some 0 else none
  | n + 1 => if number? b (n + 1) 4 = some endMark then some (n + 1) else lastEnd? b n

/-- An entry from its record in the directory, and where the next record is. -/
def entryAt? (b : ByteArray) (place : Nat) : Option (Entry × Nat) := do
  if number? b place 4 ≠ some directoryMark then none
  let method ← number? b (place + 10) 2
  let size ← number? b (place + 24) 4
  let nameSize ← number? b (place + 28) 2
  let extraSize ← number? b (place + 30) 2
  let remarkSize ← number? b (place + 32) 2
  let offset ← number? b (place + 42) 4
  let name ← String.fromUTF8? (← slice? b (place + 46) nameSize)
  let ownNameSize ← number? b (offset + 26) 2
  let ownExtraSize ← number? b (offset + 28) 2
  let bytes ← slice? b (offset + 30 + ownNameSize + ownExtraSize) size
  if method ≠ 0 then none
  some (⟨name, bytes⟩, place + 46 + nameSize + extraSize + remarkSize)

def entriesFrom? (b : ByteArray) (place : Nat) : Nat → Option (List Entry)
  | 0 => some []
  | n + 1 => do
    let (e, next) ← entryAt? b place
    let es ← entriesFrom? b next n
    some (e :: es)

def decode? (b : ByteArray) : Option (List Entry) := do
  if b.size < 22 then none
  let place ← lastEnd? b (b.size - 22)
  let count ← number? b (place + 10) 2
  let offset ← number? b (place + 16) 4
  entriesFrom? b offset count

end ProviderGen.Archive.Zip
