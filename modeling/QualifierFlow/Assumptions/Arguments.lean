import QualifierFlow.Assumptions.Basic

/-! Assumptions read from command line arguments. Arguments are read from left to right and the
first that is not accepted decides the answer. -/
namespace QualifierFlow

inductive UsageError
  | unknownArgument
  | repeatedFlag
  | unwantedValue
  | helpRequested
  | versionRequested
  deriving DecidableEq, Repr

namespace Assumptions

private def concurrentFlag (assumptions : Assumptions) : Except UsageError Assumptions :=
  if assumptions.concurrent then .error .repeatedFlag
  else .ok { assumptions with concurrent := true }

private def sideEffectFreeFlag (assumptions : Assumptions) : Except UsageError Assumptions :=
  if assumptions.sideEffectFree then .error .repeatedFlag
  else .ok { assumptions with sideEffectFree := true }

private def longFlag? : String → Option (Assumptions → Except UsageError Assumptions)
  | "concurrent-semantics" => some concurrentFlag
  | "assume-side-effect-free" => some sideEffectFreeFlag
  | "help" => some fun _ => .error .helpRequested
  | "version" => some fun _ => .error .versionRequested
  | _ => none

/-- A long argument without its dashes: a name, then possibly an equals sign and a value. -/
private def readLong (body : List Char) (assumptions : Assumptions) :
    Except UsageError Assumptions :=
  match longFlag? (String.ofList (body.takeWhile (· ≠ '='))) with
  | none => .error .unknownArgument
  | some flag => if body.contains '=' then .error .unwantedValue else flag assumptions

/-- A cluster of short flags always fails, for the reason of its first flag. -/
private def shortFailure : Char → UsageError
  | 'h' => .helpRequested
  | 'V' => .versionRequested
  | _ => .unknownArgument

private def readArgument (argument : List Char) (assumptions : Assumptions) :
    Except UsageError Assumptions :=
  match argument with
  | '-' :: '-' :: body => readLong body assumptions
  | '-' :: flag :: _ => .error (shortFailure flag)
  | _ => .error .unknownArgument

/-- Reads flags; after a lone `--` only other arguments may follow, and there are none to take. -/
private def readAll : List String → Assumptions → Except UsageError Assumptions
  | [], assumptions => .ok assumptions
  | ["--"], assumptions => .ok assumptions
  | argument :: rest, assumptions =>
    if argument = "--" then .error .unknownArgument
    else do readAll rest (← readArgument argument.toList assumptions)

/-- The assumptions of a command line, whose first word is the name of the program. -/
def ofCommandLine (words : List String) : Except UsageError Assumptions :=
  readAll (words.drop 1) {}

end Assumptions
end QualifierFlow
