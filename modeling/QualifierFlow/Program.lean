import QualifierFlow.Path.Basic

/-! The parts of a program that the analysis looks at: syntax trees by handle only, and the nodes of
a control flow graph with the paths and type kinds of their operands. -/
namespace QualifierFlow

/-- A range of bytes of a source file, files being numbered from zero. -/
structure Span where
  file : Nat
  start : Nat
  stop : Nat
  deriving DecidableEq, Repr

/-- A syntax tree; expressions and type literals are typed, statements are not. -/
structure Tree where
  id : Id .tree
  span : Span
  typed : Bool
  deriving DecidableEq, Repr

structure Method where
  id : Id .method
  name : String
  declaringType : Id .type
  isConstructor : Bool
  tree : Tree
  deriving DecidableEq, Repr

structure Parameter where
  var : Variable
  tree : Tree
  deriving DecidableEq, Repr

inductive CodeUnit
  | method (declaration : Method)
  /-- Field initializers, initializer blocks and lambdas. -/
  | other
  deriving DecidableEq, Repr

inductive TypeKind
  | primitive | declared | array | typeVariable | wildcard | null | void
  deriving DecidableEq, Repr

/-- Type variables and wildcards have an upper bound but no qualifier of their own. -/
def TypeKind.isBoundOnly : TypeKind → Bool
  | .typeVariable | .wildcard => true
  | _ => false

structure Operand where
  node : Id .node
  path : Path
  kind : TypeKind
  tree : Option Tree
  deriving Repr

/-- A method invocation; its own path is a call path when the method is known to be pure. -/
structure Call where
  method : Id .method
  path : Path
  arguments : List Operand
  deriving Repr

inductive Operation
  | assign (target source : Operand)
  /-- An assignment that computes its value from the old one, such as `+=`. -/
  | update (target source : Operand)
  | readField (path : Path)
  | readVariable (path : Path)
  | equal (left right : Operand)
  | notEqual (left right : Operand)
  | negate (operand : Operand)
  | choose (condition whenTrue whenFalse : Operand)
  /-- A test of the operand's type against a type literal. -/
  | typeTest (operand : Operand) (tested : Tree)
  | invoke (call : Call)
  | case (switched : Operand)
  | declare (path : Path)
  | other
  deriving Repr

def Operation.name : Operation → String
  | .assign .. => "assignment"
  | .update .. => "compound_assignment"
  | .readField _ => "field_access"
  | .readVariable _ => "local_variable"
  | .equal .. => "equal_to"
  | .notEqual .. => "not_equal"
  | .negate _ => "conditional_not"
  | .choose .. => "ternary"
  | .typeTest .. => "instance_of"
  | .invoke _ => "method_invocation"
  | .case _ => "case"
  | .declare _ => "variable_declaration"
  | .other => "other"

structure Node where
  id : Id .node
  tree : Option Tree
  operation : Operation
  deriving Repr

end QualifierFlow
