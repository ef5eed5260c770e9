import ExprCompiler.Assembly.Operand
import ExprCompiler.Word

/-!
The register file.
-/

namespace ExprCompiler

structure Registers where
  eax : Word := 0
  ecx : Word := 0
  edx : Word := 0
  ebx : Word := 0
  esp : Word := 0
  ebp : Word := 0
  esi : Word := 0
  edi : Word := 0
  deriving DecidableEq, Repr

namespace Registers

def get (registers : Registers) : Register → Word
  | .eax => registers.eax
  | .ecx => registers.ecx
  | .edx => registers.edx
  | .ebx => registers.ebx
  | .esp => registers.esp
  | .ebp => registers.ebp
  | .esi => registers.esi
  | .edi => registers.edi

def set (registers : Registers) (target : Register) (value : Word) : Registers :=
  match target with
  | .eax => { registers with eax := value }
  | .ecx => { registers with ecx := value }
  | .edx => { registers with edx := value }
  | .ebx => { registers with ebx := value }
  | .esp => { registers with esp := value }
  | .ebp => { registers with ebp := value }
  | .esi => { registers with esi := value }
  | .edi => { registers with edi := value }

@[simp] theorem get_set_same (registers : Registers) (target : Register) (value : Word) :
    (registers.set target value).get target = value := by
  cases target <;> rfl

theorem get_set_other (registers : Registers) (value : Word) {target other : Register}
    (different : other ≠ target) :
    (registers.set target value).get other = registers.get other := by
  cases target <;> cases other <;> first | rfl | exact absurd rfl different

def values (registers : Registers) : List Word := Register.all.map registers.get

def ofFunction (value : Register → Word) : Registers where
  eax := value .eax
  ecx := value .ecx
  edx := value .edx
  ebx := value .ebx
  esp := value .esp
  ebp := value .ebp
  esi := value .esi
  edi := value .edi

@[simp] theorem get_ofFunction (value : Register → Word) (register : Register) :
    (ofFunction value).get register = value register := by
  cases register <;> rfl

end Registers
end ExprCompiler
