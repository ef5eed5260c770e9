import ExprCompiler.Word

/-!
Archives of named entries, kept in ZIP files. Entries are stored without compression; of several
entries with one name the last one counts.
-/

namespace ExprCompiler

abbrev Archive := List (Bytes × Bytes)

namespace Archive

/-- The contents of the last entry with a name. -/
def find? (name : Bytes) (archive : Archive) : Option Bytes :=
  (archive.reverse.find? fun entry => entry.1 == name).map Prod.snd

def checkBit (sum : UInt32) : UInt32 :=
  if sum &&& 1 = 1 then (sum >>> 1) ^^^ 0xedb88320 else sum >>> 1

def checkByte (sum : UInt32) (byte : UInt8) : UInt32 :=
  (List.range 8).foldl (fun value _ => checkBit value) (sum ^^^ byte.toUInt32)

def checkSum (contents : Bytes) : UInt32 :=
  contents.foldl checkByte 0xffffffff ^^^ 0xffffffff

def localMark : Bytes := [0x50, 0x4b, 3, 4]

def directoryMark : Bytes := [0x50, 0x4b, 1, 2]

def endMark : Bytes := [0x50, 0x4b, 5, 6]

/-- Flags, method, time and date: nothing special, stored, the first day of 1980. -/
def storedFields : Bytes :=
  littleEndian 2 0 ++ littleEndian 2 0 ++ littleEndian 2 0 ++ littleEndian 2 0x21

def sizeFields (name contents : Bytes) : Bytes :=
  littleEndian 4 (checkSum contents).toNat ++ littleEndian 4 contents.length ++
    littleEndian 4 contents.length ++ littleEndian 2 name.length ++ littleEndian 2 0

def localRecord (name contents : Bytes) : Bytes :=
  localMark ++ littleEndian 2 20 ++ storedFields ++ sizeFields name contents ++ name ++ contents

def directoryRecord (offset : Nat) (name contents : Bytes) : Bytes :=
  directoryMark ++ littleEndian 2 20 ++ littleEndian 2 20 ++ storedFields ++
    sizeFields name contents ++ littleEndian 2 0 ++ littleEndian 2 0 ++ littleEndian 2 0 ++
    littleEndian 4 0 ++ littleEndian 4 offset ++ name

def writeEntries (offset : Nat) : Archive → Bytes × Bytes
  | [] => ([], [])
  | (name, contents) :: rest =>
      let entry := localRecord name contents
      let (later, directory) := writeEntries (offset + entry.length) rest
      (entry ++ later, directoryRecord offset name contents ++ directory)

def toFile (archive : Archive) : Bytes :=
  let (entries, directory) := writeEntries 0 archive
  entries ++ directory ++ endMark ++ littleEndian 2 0 ++ littleEndian 2 0 ++
    littleEndian 2 archive.length ++ littleEndian 2 archive.length ++
    littleEndian 4 directory.length ++ littleEndian 4 entries.length ++ littleEndian 2 0

def field (bytes : Bytes) (offset width : Nat) : Nat :=
  ofLittleEndian ((bytes.drop offset).take width)

/-- The last part of a file that starts with the mark of the end record. -/
def endRecord? : Bytes → Option Bytes
  | [] => none
  | byte :: rest =>
      match endRecord? rest with
      | some found => some found
      | none =>
          if (byte :: rest).take 4 = endMark && 22 ≤ (byte :: rest).length then
            some (byte :: rest)
          else none

def contentsAt? (file : Bytes) (offset size : Nat) : Option Bytes :=
  let record := file.drop offset
  if record.take 4 = localMark then
    let contents := (record.drop (30 + field record 26 2 + field record 28 2)).take size
    if contents.length = size then some contents else none
  else none

def readDirectory (file : Bytes) : Nat → Bytes → Option Archive
  | 0, _ => some []
  | count + 1, record =>
      if record.take 4 = directoryMark && field record 10 2 == 0 then do
        let nameLength := field record 28 2
        let name := (record.drop 46).take nameLength
        let contents ← contentsAt? file (field record 42 4) (field record 24 4)
        let rest := record.drop (46 + nameLength + field record 30 2 + field record 32 2)
        let later ← readDirectory file count rest
        some ((name, contents) :: later)
      else none

/-- The last bytes of a file, as many as the record at the end with its comment can take. -/
def lastBytes (file : Bytes) : Bytes := (file.reverse.take 65557).reverse

def ofFile? (file : Bytes) : Option Archive :=
  match endRecord? (lastBytes file) with
  | none => none
  | some record => readDirectory file (field record 10 2) (file.drop (field record 16 4))

end Archive
end ExprCompiler
