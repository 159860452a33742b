import QualifierFlow.Analysis.Flow
import QualifierFlow.Contract.Resolution

/-! Events that an analysis logs, and their messages. -/
namespace QualifierFlow

inductive LogLevel
  | trace | debug
  deriving DecidableEq, Repr

def LogLevel.name : LogLevel → String
  | .trace => "trace"
  | .debug => "debug"

inductive Event (V : Type)
  | visited (node : Id .node) (operation : String)
  | assigned (target : Path) (value : Option V)
  | equated (path : Path) (value : V) (branch : Branch)
  | typeTested (path : Path) (value : V)
  | established (path : Path) (value : V)
  | entered (method : String)
  | requirementUnresolved (method : String) (error : ResolveError)
  | promiseDropped (node : Id .node) (error : ResolveError)

namespace Event
variable {V : Type}

def level : Event V → LogLevel
  | .visited .. | .promiseDropped .. => .trace
  | _ => .debug

variable [Domain V]

private def optionText : Option V → String
  | some v => "Some(" ++ Domain.text v ++ ")"
  | none => "None"

def message : Event V → String
  | .visited node operation => "transfer " ++ node.text ++ " (" ++ operation ++ ")"
  | .assigned target value => "assign " ++ target.text ++ " := " ++ optionText value
  | .equated path value branch =>
    "equality refines " ++ path.text ++ " to " ++ Domain.text value ++ " on " ++ branch.name ++
      " branch"
  | .typeTested path value => "instanceof refines " ++ path.text ++ " to " ++ Domain.text value
  | .established path value =>
    "contract establishes " ++ path.text ++ " -> " ++ Domain.text value
  | .entered method => "initial store of `" ++ method ++ "`"
  | .requirementUnresolved method error =>
    "precondition of `" ++ method ++ "` not resolved: " ++ error.message
  | .promiseDropped node error => "postcondition dropped at " ++ node.text ++ ": " ++ error.message

end Event
end QualifierFlow
