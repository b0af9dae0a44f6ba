import Resumable.Assembly.Grammar
import Resumable.Code.Insn

/-!
# What is wrong with a source

A text that does not follow the grammar is reported at the place where reading stopped.  A text that
does is still refused when a line, a label or a name is wrong; such a failure points to the part it
belongs to.
-/

namespace Resumable.Assembly

/-- what is wrong with the operands of a line; operands are counted from zero -/
inductive LineFailure where
  | arity (expected found : Nat)
  | literalOperand (index : Nat)
  | missingOperand (index : Nat)
  | notLiteral (index : Nat)
  | badNumber (word : String)
  | badMember (word : String)
  | keyword (expected found : String)
  | unknownOption (option : String)
  | unknownDirective (name : String)
  | notCase (word : String)
  | badKey (key : String)
  | unknownInstruction
deriving DecidableEq, Repr

def LineFailure.message : LineFailure → String
  | .arity e f => "expected " ++ toString e ++ " operand(s), found " ++ toString f
  | .literalOperand i => "operand " ++ toString (i + 1) ++ " must not be a string"
  | .missingOperand i => "missing operand " ++ toString (i + 1)
  | .notLiteral i => "operand " ++ toString (i + 1) ++ " must be a string literal"
  | .badNumber w => "bad number " ++ w
  | .badMember w => "expected Owner.name, found " ++ w
  | .keyword e f => "expected '" ++ e ++ "', found '" ++ f ++ "'"
  | .unknownOption o => "unknown option " ++ o
  | .unknownDirective n => "unknown directive ." ++ n
  | .notCase w => "expected key:label, found " ++ w
  | .badKey k => "bad key " ++ k
  | .unknownInstruction => "unknown instruction"

/-- what is wrong with a source that follows the grammar -/
inductive BuildFailure where
  | classTwice (name : String)
  | methodTwice (method : MethodId)
  | badLocals (count : String)
  | labelTwice (name : String)
  | undefinedLabel (name : String) (method : MethodId)
  | line (opcode : String) (failure : LineFailure)
deriving DecidableEq, Repr

def BuildFailure.message : BuildFailure → String
  | .classTwice n => "class " ++ n ++ " defined twice"
  | .methodTwice m => "method " ++ m.text ++ " defined twice"
  | .badLocals n => "bad locals count " ++ n
  | .labelTwice n => "label " ++ n ++ " defined twice"
  | .undefinedLabel n m => "undefined label " ++ n ++ " in " ++ m.text
  | .line op f => op ++ ": " ++ f.message

/-- a failure and the offset of the part it belongs to -/
structure BuildError where
  offset : Nat
  failure : BuildFailure
deriving DecidableEq, Repr

/-- why a source is refused -/
inductive SourceError where
  /-- the text does not follow the grammar -/
  | grammar (at_ : Position)
  | build (at_ : Position) (failure : BuildFailure)
deriving DecidableEq, Repr

/-- the report of a failure with its place in front -/
def placed (p : Position) (message : String) : String :=
  toString p.line ++ ":" ++ toString p.col ++ ": " ++ message

end Resumable.Assembly
