import ExprCompiler.Text.Bytes

/-!
Registers, operands and mnemonics of the assembly language, and the one way each is written.
-/

namespace ExprCompiler

/-- The general purpose registers, in the order that the hardware encodes them. -/
inductive Register where
  | eax | ecx | edx | ebx | esp | ebp | esi | edi
  deriving DecidableEq, Repr

namespace Register

def all : List Register := [.eax, .ecx, .edx, .ebx, .esp, .ebp, .esi, .edi]

def text : Register → Bytes
  | eax => utf8 "eax"
  | ecx => utf8 "ecx"
  | edx => utf8 "edx"
  | ebx => utf8 "ebx"
  | esp => utf8 "esp"
  | ebp => utf8 "ebp"
  | esi => utf8 "esi"
  | edi => utf8 "edi"

def ofText? (name : Bytes) : Option Register := all.find? fun register => register.text == name

end Register

inductive OperandSize where
  | byte | word | dword | qword
  deriving DecidableEq, Repr

namespace OperandSize

def all : List OperandSize := [.byte, .word, .dword, .qword]

def text : OperandSize → Bytes
  | byte => utf8 "byte"
  | word => utf8 "word"
  | dword => utf8 "dword"
  | qword => utf8 "qword"

def ofText? (name : Bytes) : Option OperandSize := all.find? fun size => size.text == name

end OperandSize

inductive AddressBase where
  | register (register : Register)
  | label (name : Bytes)
  deriving DecidableEq, Repr

def AddressBase.text : AddressBase → Bytes
  | register source => source.text
  | label name => name

inductive Operand where
  | register (register : Register)
  | immediate (value : Int)
  /-- A symbol used as an address. -/
  | label (name : Bytes)
  | memory (size : Option OperandSize) (base : AddressBase) (displacement : Int)
  deriving DecidableEq, Repr

namespace Operand

/-- A displacement with its sign; zero is not written. -/
def displacementText (displacement : Int) : Bytes :=
  if 0 < displacement then utf8 "+" ++ Text.decimal displacement
  else if displacement < 0 then Text.decimal displacement
  else []

def text : Operand → Bytes
  | register source => source.text
  | immediate value => Text.decimal value
  | label name => name
  | memory size base displacement =>
      let address := utf8 "[" ++ base.text ++ displacementText displacement ++ utf8 "]"
      match size with
      | some width => width.text ++ utf8 " " ++ address
      | none => address

def symbol? : Operand → Option Bytes
  | label name => some name
  | memory _ (.label name) _ => some name
  | _ => none

/-- The operand written as a bare name: a register if it is the name of one. -/
def ofName (name : Bytes) : Operand :=
  match Register.ofText? name with
  | some found => .register found
  | none => .label name

end Operand

inductive Mnemonic where
  | nop | mov | push | pop | add | sub | imul | neg | cdq | idiv | call | ret
  /-- A mnemonic that the machine does not know. -/
  | other (name : Bytes)
  deriving DecidableEq, Repr

namespace Mnemonic

def known : List Mnemonic :=
  [.nop, .mov, .push, .pop, .add, .sub, .imul, .neg, .cdq, .idiv, .call, .ret]

def text : Mnemonic → Bytes
  | nop => utf8 "nop"
  | mov => utf8 "mov"
  | push => utf8 "push"
  | pop => utf8 "pop"
  | add => utf8 "add"
  | sub => utf8 "sub"
  | imul => utf8 "imul"
  | neg => utf8 "neg"
  | cdq => utf8 "cdq"
  | idiv => utf8 "idiv"
  | call => utf8 "call"
  | ret => utf8 "ret"
  | other name => name

def ofText (name : Bytes) : Mnemonic :=
  (known.find? fun mnemonic => mnemonic.text == name).getD (.other name)

end Mnemonic

def instructionText (mnemonic : Mnemonic) (operands : List Operand) : Bytes :=
  if operands.isEmpty then mnemonic.text
  else mnemonic.text ++ utf8 " " ++ Text.join (utf8 ", ") (operands.map Operand.text)

end ExprCompiler
