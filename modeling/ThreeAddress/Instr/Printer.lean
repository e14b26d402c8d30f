import ThreeAddress.Instr.Basic
import ThreeAddress.Ty.Spelling

/-!
# Printed instructions

Each instruction is one line of text. The line says nothing about its indentation.

## Main definitions

* `Operand.text`, `Value.text`, `Instr.text`.
-/

namespace ThreeAddress

/-- A register in the emitted code. -/
def registerText (name : String) : String := "%" ++ name

/-- A symbol of the module in the emitted code. -/
def globalText (name : String) : String := "@" ++ name

/-- A branch target in the emitted code. -/
def targetText (label : String) : String := "label " ++ registerText label

namespace Operand

def text : Operand → String
  | register name => registerText name
  | global name => globalText name
  | immediate value => toString value
  | boolean true => "true"
  | boolean false => "false"

end Operand

namespace Value

def text (value : Value) : String :=
  value.ty.spelling ++ " " ++ value.operand.text

end Value

namespace Opcode

def text : Opcode → String
  | add => "add"
  | sub => "sub"
  | mul => "mul"
  | sdiv => "sdiv"
  | srem => "srem"
  | and => "and"
  | or => "or"
  | xor => "xor"
  | shl => "shl"
  | ashr => "ashr"

end Opcode

namespace Predicate

def text : Predicate → String
  | eq => "eq"
  | ne => "ne"
  | slt => "slt"
  | sle => "sle"
  | sgt => "sgt"
  | sge => "sge"

end Predicate

namespace Extension

def text : Extension → String
  | sext => "sext"
  | zext => "zext"

end Extension

/-- A line that writes a register. -/
def assignText (target computation : String) : String :=
  registerText target ++ " = " ++ computation

namespace Instr

/-- The text of an instruction. -/
def text : Instr → String
  | label name => name ++ ":"
  | alloca target ty => assignText target ("alloca " ++ ty.spelling)
  | load target ty address =>
    assignText target ("load " ++ ty.spelling ++ ", ptr " ++ address.text)
  | store value address => "store " ++ value.text ++ ", ptr " ++ address.text
  | elementAddress target base address indices inbounds =>
    assignText target
      ("getelementptr " ++ (if inbounds then "inbounds " else "") ++ base.memorySpelling ++
        ", ptr " ++ address.text ++ ", " ++ commaSeparated (indices.map Value.text))
  | arithmetic opcode target ty lhs rhs =>
    assignText target
      (opcode.text ++ " " ++ ty.spelling ++ " " ++ commaSeparated [lhs.text, rhs.text])
  | compare predicate target ty lhs rhs =>
    assignText target
      ("icmp " ++ predicate.text ++ " " ++ ty.spelling ++ " " ++
        commaSeparated [lhs.text, rhs.text])
  | extend extension target value ty =>
    assignText target (extension.text ++ " " ++ value.text ++ " to " ++ ty.spelling)
  | call target callee signature arguments =>
    let application :=
      "call " ++ signature.returnSpelling ++ " " ++ signature.parameterList ++ " " ++
        globalText callee ++ "(" ++ commaSeparated (arguments.map Value.text) ++ ")"
    match target with
    | some target => assignText target application
    | none => application
  | extractMember target aggregate position =>
    assignText target ("extractvalue " ++ aggregate.text ++ ", " ++ toString position)
  | branch destination => "br " ++ targetText destination
  | branchIf condition positive negative =>
    "br i1 " ++ condition.text ++ ", " ++ targetText positive ++ ", " ++ targetText negative
  | ret (some value) => "ret " ++ value.text
  | ret none => "ret void"

end Instr

end ThreeAddress
