import QualifierFlow.Contract.Resolution
import QualifierFlow.Program

/-! Messages for the user about a place in a source file. -/
namespace QualifierFlow

inductive Severity
  | help | note | warning | error | bug
  deriving DecidableEq, Repr

namespace Severity

def rank : Severity → Nat
  | .help => 0
  | .note => 1
  | .warning => 2
  | .error => 3
  | .bug => 4

def name : Severity → String
  | .help => "help"
  | .note => "note"
  | .warning => "warning"
  | .error => "error"
  | .bug => "bug"

end Severity

/-- A message with a code, and a remark on the one span that it is about. -/
structure Diagnostic where
  severity : Severity
  code : String
  message : String
  span : Span
  remark : String
  deriving DecidableEq, Repr

/-- The complaint about a clause that does not resolve at the declaration of its method. -/
def Diagnostic.ofUnresolved (method : Method) (error : ResolveError) : Diagnostic where
  severity := .error
  code := "flowexpr.parse.error"
  message := "cannot resolve contract expression `" ++ error.expression ++ "` of `" ++
    method.name ++ "`"
  span := method.tree.span
  remark := error.reason

end QualifierFlow
