import QualifierFlow.Analysis.Event
import QualifierFlow.Contract.Basic
import QualifierFlow.Diagnostic.Basic
import QualifierFlow.Host.Basic

/-! Running an analysis: what it is given, what it remembers from one node to the next, and the
elementary actions that its rules are made of. -/
namespace QualifierFlow

/-- An analysis of one program by one checker. -/
structure Analysis (σ γ V : Type) where
  host : Host σ γ V
  contracts : Contracts
  assumptions : Assumptions

/-- What an analysis remembers: the state of its host, the resolutions made, the complaints not
taken yet by the declaration and expression they are about, and the log. -/
structure Memory (σ V : Type) where
  host : σ
  resolutions : ResolutionMemory := {}
  complaints : SortedMap Question Diagnostic := {}
  log : List (Event V) := []

abbrev Run (σ V : Type) := StateM (Memory σ V)

/-- Actions that fail when two values violate the laws of their domain; what was remembered until
then stays. -/
abbrev Attempt (σ V : Type) := ExceptT (Violation V) (Run σ V)

namespace Run
variable {σ V α : Type}

def ask (query : StateM σ α) : Run σ V α := fun memory =>
  let (answer, host) := query.run memory.host
  (answer, { memory with host := host })

def note (event : Event V) : Run σ V Unit :=
  modify fun memory => { memory with log := memory.log ++ [event] }

/-- Files a complaint unless there is one about the same expression of the same method. -/
def complain (method : Method) (expression : String) (error : ResolveError) : Run σ V Unit :=
  modify fun memory =>
    { memory with
      complaints := memory.complaints.insertNew ⟨.declaration method.id, expression⟩
        (Diagnostic.ofUnresolved method error) }

/-- Drops what was resolved at the call sites of the code unit before. -/
def forgetCalls : Run σ V Unit :=
  modify fun memory => { memory with resolutions := memory.resolutions.forgetCalls }

def takeComplaints : Run σ V (List Diagnostic) := fun memory =>
  (memory.complaints.values, { memory with complaints := {} })

end Run

def Attempt.ofExcept {σ V α : Type} (result : Except (Violation V) α) : Attempt σ V α :=
  ExceptT.mk (pure result)

namespace Analysis
open Run
variable {σ γ V : Type} (analysis : Analysis σ γ V)

def attending (tree : Tree) (query : Tree → StateM σ (Option V)) : Run σ V (Option V) := do
  ask (analysis.host.attend (some tree.id))
  let value ← ask (query tree)
  ask (analysis.host.attend none)
  return value

def typeValue (tree : Tree) : Run σ V (Option V) :=
  analysis.attending tree analysis.host.typeValue

def boundValue (tree : Tree) : Run σ V (Option V) :=
  analysis.attending tree analysis.host.boundValue

def valueOf? (query : Tree → Run σ V (Option V)) : Option Tree → Run σ V (Option V)
  | some tree => query tree
  | none => return none

def nodeValue (node : Node) : Run σ V (Option V) :=
  valueOf? analysis.typeValue (node.tree.filter (·.typed))

end Analysis
end QualifierFlow
