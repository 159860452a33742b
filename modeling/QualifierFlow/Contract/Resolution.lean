import QualifierFlow.Path.Order
import QualifierFlow.SortedMap

/-! Resolutions of contract expressions to access paths, and the memory of those made before. A
resolution depends on the expression and on the site where it is made; those made at call sites
hold for one code unit only, since node handles are reused by the next. -/
namespace QualifierFlow

structure ResolveError where
  expression : String
  reason : String
  deriving DecidableEq, Repr

namespace ResolveError

instance : Ord ResolveError := ⟨compareLex (compareOn expression) (compareOn reason)⟩

instance : Std.TransOrd ResolveError :=
  inferInstanceAs (Std.TransCmp (compareLex (compareOn expression) (compareOn reason)))

instance : Std.LawfulEqOrd ResolveError where
  eq_of_compare {a b} equal := by
    obtain ⟨expressions, reasons⟩ := Ordering.then_eq_eq.1 equal
    cases a; cases b
    simp_all [compareOn]

def message (error : ResolveError) : String :=
  "cannot parse contract expression `" ++ error.expression ++ "`: " ++ error.reason

end ResolveError

inductive Site
  /-- Against the formal parameters of a method. -/
  | declaration (method : Id .method)
  /-- Against the receiver and arguments of a call. -/
  | call (node : Id .node) (callee : Id .method)
  deriving DecidableEq, Repr

structure Question where
  site : Site
  expression : String
  deriving DecidableEq, Repr

namespace Site

def isCall : Site → Bool
  | .declaration _ => false
  | .call .. => true

def node? : Site → Option (Id .node)
  | .declaration _ => none
  | .call node _ => some node

def method : Site → Id .method
  | .declaration method => method
  | .call _ callee => callee

instance : Ord Site := ⟨compareLex (compareOn node?) (compareOn method)⟩

instance : Std.TransOrd Site :=
  inferInstanceAs (Std.TransCmp (compareLex (compareOn node?) (compareOn method)))

instance : Std.LawfulEqOrd Site where
  eq_of_compare {a b} equal := by
    obtain ⟨nodes, methods⟩ := Ordering.then_eq_eq.1 equal
    cases a <;> cases b <;> simp_all [compareOn, node?, method]

end Site

namespace Question

instance : Ord Question := ⟨compareLex (compareOn site) (compareOn expression)⟩

instance : Std.TransOrd Question :=
  inferInstanceAs (Std.TransCmp (compareLex (compareOn site) (compareOn expression)))

instance : Std.LawfulEqOrd Question where
  eq_of_compare {a b} equal := by
    obtain ⟨sites, expressions⟩ := Ordering.then_eq_eq.1 equal
    cases a; cases b
    simp_all [compareOn]

end Question

abbrev Resolution := Except ResolveError Path

/-- The resolutions made so far. A memory that does not retain stays empty, so that every question
is resolved afresh. -/
structure ResolutionMemory where
  answers : SortedMap Question Resolution := {}
  retains : Bool := true

namespace ResolutionMemory

def get? (memory : ResolutionMemory) (question : Question) : Option Resolution :=
  memory.answers.get? question

def size (memory : ResolutionMemory) : Nat := memory.answers.size

def isEmpty (memory : ResolutionMemory) : Bool := memory.answers.isEmpty

def remember (memory : ResolutionMemory) (question : Question) (answer : Resolution) :
    ResolutionMemory :=
  if memory.retains then { memory with answers := memory.answers.insert question answer }
  else memory

def forgetCalls (memory : ResolutionMemory) : ResolutionMemory :=
  { memory with answers := memory.answers.filter fun question => !question.site.isCall }

/-- The remembered answer, or a new one that is remembered from now on. -/
def consult {m : Type → Type} [Monad m] (memory : ResolutionMemory) (question : Question)
    (resolve : m Resolution) : m (Resolution × ResolutionMemory) :=
  match memory.get? question with
  | some known => pure (known, memory)
  | none => do
    let answer ← resolve
    pure (answer, memory.remember question answer)

end ResolutionMemory
end QualifierFlow
