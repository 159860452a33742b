import QualifierFlow.Assumptions.Basic
import QualifierFlow.Domain
import QualifierFlow.Path.Containment
import QualifierFlow.Program
import QualifierFlow.SortedMap

/-! Stores: what is known of the values of access paths at a point of a program. Assignments and
calls drop or weaken the facts that they may falsify; each does so path by path. -/
namespace QualifierFlow

/-- Facts in the order of their paths, and the assumptions under which they hold. -/
structure Store (V : Type) where
  facts : SortedMap Path V
  assumptions : Assumptions
  deriving DecidableEq

namespace Path

def mayAlias (path target : Path) : Bool := path.isField && path.field? == target.field?

/-- Whether a fact about the path outlives an assignment to a target that no path names exactly.
An array element is never a field, and two different fields are never one location. -/
def survivesUnnamed (path target : Path) : Bool :=
  match path with
  | .element .. | .call .. => false
  | .field _ f =>
    match target with
    | .element .. => true
    | .field _ assigned => f != assigned
    | _ => path.isStable
  | _ => true

def survivesEffects (path : Path) : Bool :=
  match path with
  | .element .. | .call .. => false
  | .field .. => path.isStable
  | _ => true

end Path

namespace Store
variable {V : Type}

def empty (assumptions : Assumptions) : Store V := ⟨{}, assumptions⟩

def get? (store : Store V) (path : Path) : Option V := store.facts.get? path

def contains (store : Store V) (path : Path) : Bool := store.facts.contains path

def toList (store : Store V) : List (Path × V) := store.facts.toList

def size (store : Store V) : Nat := store.facts.size

def isEmpty (store : Store V) : Bool := store.facts.isEmpty

/-- Fields that other threads may write are tracked under sequential semantics only. -/
def tracks (store : Store V) (path : Path) : Bool :=
  store.assumptions.sequential || !path.isField || path.isStable

/-- Sets a fact, whether or not the path is tracked. -/
def put (store : Store V) (path : Path) (value : V) : Store V :=
  { store with facts := store.facts.insert path value }

def record (store : Store V) (path : Path) (value : V) : Store V :=
  if store.tracks path then store.put path value else store

def forget (store : Store V) (path : Path) : Store V :=
  { store with facts := store.facts.erase path }

def revise (store : Store V) (change : Path → V → Option V) : Store V :=
  { store with facts := store.facts.filterMap change }

def keep (store : Store V) (survives : Path → Bool) : Store V :=
  { store with facts := store.facts.filter survives }

/-- A call keeps all facts if only one thread runs and the callee has no side effects. -/
def trustsCallee (store : Store V) (calleePure : Bool) : Bool :=
  store.assumptions.sequential && (store.assumptions.sideEffectFree || calleePure)

/-- Whether it matters if the callee of a call is known to be free of side effects. -/
def asksAboutCallee (store : Store V) : Bool :=
  store.assumptions.sequential && !store.assumptions.sideEffectFree

/-- A call, whose result is recorded when the call itself is a path. -/
def afterCall (store : Store V) (call : Call) (calleePure : Bool) (result : Option V) : Store V :=
  let kept := if store.trustsCallee calleePure then store else store.keep Path.survivesEffects
  match result with
  | some v => if call.path.isCall && !call.path.hasUnknown then kept.put call.path v else kept
  | none => kept

/-- An assignment to a target that no path names exactly, such as an array element. -/
def assignUnnamed (store : Store V) (target : Path) : Store V :=
  (store.keep (·.survivesUnnamed target)).forget target

def bindParameter (store : Store V) (parameter : Variable) : Option V → Store V
  | some v => store.put (.var parameter) v
  | none => store

section Join
variable [Domain V]

/-- What an assignment leaves of a fact about a path: facts about paths that mention the target go,
and facts about the same field of another owner are weakened to hold for both values. -/
def assigned (target : Path) (value : Option V) (path : Path) (old : V) : Option V :=
  if path = target then some old
  else if path.mentions target then none
  else if path.mayAlias target then value.map (Domain.join old)
  else some old

/-- An assignment to a variable or field; without a value nothing is known of the target. -/
def assign (store : Store V) (target : Path) (value : Option V) : Store V :=
  let weakened := store.revise (assigned target value)
  match value with
  | some v => weakened.record target v
  | none => weakened.forget target

/-- What is known where control flow comes together: the facts that both stores have. -/
def join (store other : Store V) : Store V :=
  store.revise fun path value => (other.get? path).map (Domain.join value)

def text (store : Store V) : String :=
  let facts := store.toList.map fun (path, value) => path.text ++ " -> " ++ Domain.text value
  "\x7b" ++ ", ".intercalate facts ++ "\x7d"

end Join
end Store
end QualifierFlow
