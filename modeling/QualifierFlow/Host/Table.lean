import QualifierFlow.Host.Basic
import QualifierFlow.SortedMap

/-! A host that answers from tables. It has no state of its own. -/
namespace QualifierFlow

/-- The answers of a host, and which names denote values. -/
structure HostTable (V : Type) where
  meaning : String → Option V
  typeValues : SortedMap (Id .tree) V := {}
  boundValues : SortedMap (Id .tree) V := {}
  fieldValues : List (Field × V) := []
  sideEffectFree : List (Id .method) := []
  /-- The supported qualifiers; without a list, those that denote a value. -/
  supported : Option (List String) := none
  /-- What expressions denote, or why they denote nothing. -/
  expressions : SortedMap String (Except String Path) := {}

/-- Where expressions are resolved: at a declaration, or at a call with the given arguments. -/
inductive TableScope
  | declaration
  | call (arguments : List Path)

namespace TableScope

/-- In the scope of a call, `#1` is its first argument, and so on. -/
def argument? (expression : String) : TableScope → Option Path
  | .declaration => none
  | .call arguments =>
    (arguments.zipIdx.find? fun (_, i) => expression == "#" ++ toString (i + 1)).map (·.1)

end TableScope

namespace HostTable
variable {V : Type}

def supports (table : HostTable V) (qualifier : String) : Bool :=
  match table.supported with
  | some names => names.contains qualifier
  | none => (table.meaning qualifier).isSome

def resolve (table : HostTable V) (expression : String) (scope : TableScope) : Resolution :=
  match scope.argument? expression with
  | some path => .ok path
  | none =>
    match table.expressions.get? expression with
    | some (.ok path) => .ok path
    | some (.error reason) => .error ⟨expression, reason⟩
    | none => .error ⟨expression, "unknown identifier"⟩

def host (table : HostTable V) : Host Unit TableScope V where
  attend _ := pure ()
  typeValue tree := pure (table.typeValues.get? tree.id)
  boundValue tree := pure (table.boundValues.get? tree.id)
  supports qualifier := pure (table.supports qualifier)
  meaning qualifier := pure (table.meaning qualifier)
  declarationScope _ := pure .declaration
  callScope call := pure (.call (call.arguments.map (·.path)))
  resolve expression scope := pure (table.resolve expression scope)
  fieldValues := pure table.fieldValues
  isSideEffectFree method := pure (table.sideEffectFree.contains method)

end HostTable
end QualifierFlow
