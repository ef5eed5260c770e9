import ExprCompiler.Archive
import ExprCompiler.Json.Basic
import ExprCompiler.Json.Object
import ExprCompiler.Machine.State

/-!
Snapshots. A snapshot holds everything of a machine but its input and output. It can be restored on
a machine that loaded a program with the same data layout; a snapshot that does not fit changes
nothing. In an archive, memory is an entry of its own; how everything else is written as a text is
left to a codec.
-/

namespace ExprCompiler

structure Snapshot where
  registers : Table Word := []
  ip : Int := 0
  halted : Bool := false
  steps : Int := 0
  /-- Indices to return to, the outermost first. -/
  callStack : Option (List Int) := none
  memorySize : Int := 0
  /-- Addresses of the data labels. -/
  symbols : Table Word := []
  /-- The contents of memory, if the archive has them. -/
  memory : Option Bytes := none
  deriving DecidableEq, Repr

inductive RestoreError where
  | notAnArchive
  | missingEntry (name : Bytes)
  | malformedState
  | differentMemorySize (saved actual : Int)
  | differentSymbol (label : Bytes)
  | badInstructionPointer (ip : Int)
  | badMemoryLength (length : Nat)
  deriving DecidableEq, Repr

namespace RestoreError

def mismatch (detail : Bytes) : Bytes := utf8 "snapshot does not match this program: " ++ detail

def message : RestoreError → Bytes
  | notAnArchive => utf8 "open zip: zip: not a valid zip file"
  | missingEntry name => utf8 "zip entry " ++ Text.quote name ++ utf8 " not found"
  | malformedState => utf8 "unmarshal cpu_state: not a machine state"
  | differentMemorySize saved actual =>
      mismatch (utf8 "memory size " ++ Text.decimal saved ++ utf8 ", machine has " ++
        Text.decimal actual)
  | differentSymbol label => mismatch (utf8 "symbol " ++ label)
  | badInstructionPointer ip => mismatch (utf8 "instruction pointer " ++ Text.decimal ip)
  | badMemoryLength length =>
      mismatch (utf8 "memory.bin holds " ++ Text.decimal length ++ utf8 " bytes")

end RestoreError

namespace Machine

def snapshot (image : Image) (machine : Machine) : Snapshot where
  registers := Register.all.map fun register => (register.text, machine.registers.get register)
  ip := machine.ip
  halted := machine.halted
  steps := machine.steps
  callStack := machine.frames.map List.reverse
  memorySize := machine.memory.size
  symbols := image.symbols
  memory := some machine.memory.toList

/-- The first data label that a snapshot places elsewhere. -/
def differingSymbol? (image : Image) (saved : Snapshot) : Option Bytes :=
  (List.find? (fun entry => (saved.symbols.find? entry.1).getD 0 != entry.2) image.symbols).map
    Prod.fst

/-- An empty call stack is restored as that of a machine that never made a call. -/
def restoredFrames : Option (List Int) → Option (List Int)
  | some (first :: rest) => some (first :: rest).reverse
  | _ => none

def restore (image : Image) (saved : Snapshot) (machine : Machine) :
    Except RestoreError Machine :=
  if saved.memorySize ≠ machine.memory.size then
    .error (.differentMemorySize saved.memorySize machine.memory.size)
  else
    match differingSymbol? image saved with
    | some label => .error (.differentSymbol label)
    | none =>
        if saved.ip < 0 || (image.program.instructions.size : Int) < saved.ip then
          .error (.badInstructionPointer saved.ip)
        else
          match saved.memory with
          | none => .error (.missingEntry (utf8 "memory.bin"))
          | some memory =>
              if memory.length ≠ machine.memory.size then
                .error (.badMemoryLength memory.length)
              else
                .ok
                  { machine with
                    registers := .ofFunction fun register =>
                      (saved.registers.find? register.text).getD 0
                    memory := memory.toArray
                    ip := saved.ip
                    halted := saved.halted
                    steps := saved.steps
                    frames := restoredFrames saved.callStack }

end Machine

/-- How everything of a snapshot but memory is written as a text and read from one. -/
structure SnapshotCodec where
  write : Snapshot → Bytes
  read? : Bytes → Option Snapshot

namespace Snapshot

def stateEntry : Bytes := utf8 "cpu_state.json"

def memoryEntry : Bytes := utf8 "memory.bin"

def toArchive (codec : SnapshotCodec) (saved : Snapshot) : Archive :=
  (stateEntry, codec.write saved) ::
    match saved.memory with
    | some memory => [(memoryEntry, memory)]
    | none => []

def ofArchive (codec : SnapshotCodec) (archive : Archive) : Except RestoreError Snapshot :=
  match archive.find? stateEntry with
  | none => .error (.missingEntry stateEntry)
  | some text =>
      match codec.read? text with
      | none => .error .malformedState
      | some saved => .ok { saved with memory := archive.find? memoryEntry }

/-! The codec that is in use: a JSON text. -/

def wordsJson (table : Table Word) : Json :=
  .object (table.sorted.map fun (name, word) => (name, .int word.toNat))

def callStackJson : Option (List Int) → Json
  | none => .null
  | some indices => .list (indices.map .int)

def toJson (saved : Snapshot) : Json :=
  .object
    [Json.member "registers" (wordsJson saved.registers), Json.member "ip" (.int saved.ip),
      Json.member "halted" (.bool saved.halted), Json.member "steps" (.int saved.steps),
      Json.member "call_stack" (callStackJson saved.callStack),
      Json.member "memory_size" (.int saved.memorySize),
      Json.member "symbols" (wordsJson saved.symbols)]

def stateText (saved : Snapshot) : Bytes := saved.toJson.pretty 0

/-- A table of words; members are added to what is there. -/
def wordsReader : Json.Reader (Table Word) :=
  Json.Reader.table Json.Reader.word 0 (fun table name word => table.set name word) []

def fields : List (Json.Field Snapshot) :=
  [⟨"call_stack", .lift (·.callStack) (fun saved indices => { saved with callStack := indices })
      (Json.Reader.list Json.Reader.int 0)⟩,
    ⟨"halted", .lift (·.halted) (fun saved flag => { saved with halted := flag })
      Json.Reader.bool⟩,
    ⟨"ip", .lift (·.ip) (fun saved index => { saved with ip := index }) Json.Reader.int⟩,
    ⟨"memory_size", .lift (·.memorySize) (fun saved size => { saved with memorySize := size })
      Json.Reader.int⟩,
    ⟨"registers", .lift (·.registers) (fun saved table => { saved with registers := table })
      wordsReader⟩,
    ⟨"steps", .lift (·.steps) (fun saved count => { saved with steps := count })
      Json.Reader.int⟩,
    ⟨"symbols", .lift (·.symbols) (fun saved table => { saved with symbols := table })
      wordsReader⟩]

def ofStateText? (text : Bytes) : Option Snapshot :=
  Json.readDocument (Json.Reader.record fields) {} text

end Snapshot

def SnapshotCodec.json : SnapshotCodec where
  write := Snapshot.stateText
  read? := Snapshot.ofStateText?

def Machine.restoreArchive (codec : SnapshotCodec) (image : Image) (archive : Archive)
    (machine : Machine) : Except RestoreError Machine :=
  match Snapshot.ofArchive codec archive with
  | .error problem => .error problem
  | .ok saved => machine.restore image saved

def Machine.restoreFile (codec : SnapshotCodec) (image : Image) (file : Bytes)
    (machine : Machine) : Except RestoreError Machine :=
  match Archive.ofFile? file with
  | none => .error .notAnArchive
  | some archive => machine.restoreArchive codec image archive

end ExprCompiler
