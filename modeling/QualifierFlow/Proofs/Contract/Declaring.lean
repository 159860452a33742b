import QualifierFlow.Contract.Basic
import QualifierFlow.Proofs.Listing

/-! What a specification says of a method after any number of additions: in each role exactly the
clauses that were added there for the method, listed once each and in order. -/
namespace QualifierFlow

/-- Earlier at the first code point that differs, or a proper beginning. -/
def CodePointsBefore (a b : String) : Prop :=
  a.toList.map Char.toNat < b.toList.map Char.toNat

private theorem codePointsBefore_of_compare {a b : String} (less : compare a b = .lt) :
    CodePointsBefore a b := by
  have letters : a.toList < b.toList := String.lt_iff.1 (compareOfLessAndEq_eq_lt.1 less)
  unfold CodePointsBefore
  -- by where the letters differ first
  generalize a.toList = a at letters ⊢
  generalize b.toList = b at letters ⊢
  induction letters with
  | nil => exact .nil
  | rel first => exact .rel first
  | cons _ ih => exact .cons ih

/-- By expression, then by qualifier. -/
def Clause.Before (a b : Clause) : Prop :=
  CodePointsBefore a.expression b.expression ∨
    a.expression = b.expression ∧ CodePointsBefore a.qualifier b.qualifier

private theorem Clause.before_of_compare {a b : Clause} (less : compare a b = .lt) :
    a.Before b := by
  rcases Ordering.then_eq_lt.1 less with expressions | ⟨expressions, qualifiers⟩
  · exact .inl (codePointsBefore_of_compare expressions)
  · exact .inr ⟨Std.LawfulEqOrd.eq_of_compare expressions, codePointsBefore_of_compare qualifiers⟩

/-- As clauses, then a false result before a true one. -/
def ResultClause.Before (a b : ResultClause) : Prop :=
  a.toClause.Before b.toClause ∨ a.toClause = b.toClause ∧ a.result = false ∧ b.result = true

private theorem ResultClause.before_of_compare {a b : ResultClause} (less : compare a b = .lt) :
    a.Before b := by
  rcases Ordering.then_eq_lt.1 less with clauses | ⟨clauses, results⟩
  · exact .inl (Clause.before_of_compare clauses)
  · have results : compare a.result b.result = .lt := results
    refine .inr ⟨Std.LawfulEqOrd.eq_of_compare clauses, ?_⟩
    cases first : a.result <;> cases second : b.result <;> simp [first, second] at results ⊢

namespace ClauseSet
variable {κ : Type} [Ord κ] [Std.LawfulEqOrd κ]

private theorem mem_keys_insert [Std.TransOrd κ] [DecidableEq κ] (set : ClauseSet κ)
    (added key : κ) :
    key ∈ (set.insert added ()).keys ↔ added = key ∨ key ∈ set.keys := by
  rw [SortedMap.mem_keys, SortedMap.mem_keys, SortedMap.get?_insert]
  by_cases same : key = added
  · simp [same]
  · simp [same, Ne.symm same]

private theorem eq_of_keys [Std.TransOrd κ] {a b : ClauseSet κ}
    (same : ∀ key, key ∈ a.keys ↔ key ∈ b.keys) : a = b := by
  refine SortedMap.eq_of_get? fun key => ?_
  have present := same key
  rw [SortedMap.mem_keys, SortedMap.mem_keys] at present
  cases left : a.get? key <;> cases right : b.get? key <;> simp_all

end ClauseSet

inductive Term
  | requires (clause : Clause)
  | ensures (clause : Clause)
  | ensuresIf (clause : ResultClause)

namespace Contract

def Has (contract : Contract) : Term → Prop
  | .requires clause => clause ∈ contract.requires.keys
  | .ensures clause => clause ∈ contract.ensures.keys
  | .ensuresIf clause => clause ∈ contract.ensuresIf.keys

def including (contract : Contract) : Term → Contract
  | .requires clause => { contract with requires := contract.requires.insert clause () }
  | .ensures clause => { contract with ensures := contract.ensures.insert clause () }
  | .ensuresIf clause => { contract with ensuresIf := contract.ensuresIf.insert clause () }

private theorem has_including (contract : Contract) (added term : Term) :
    (contract.including added).Has term ↔ added = term ∨ contract.Has term := by
  cases added <;> cases term <;> simp [including, Has, ClauseSet.mem_keys_insert]

end Contract

namespace Specification

def add (spec : Specification) : Id .method × Term → Specification
  | (method, .requires clause) => spec.require method clause
  | (method, .ensures clause) => spec.ensure method clause
  | (method, .ensuresIf clause) => spec.ensureIf method clause

def declare (additions : List (Id .method × Term)) : Specification := additions.foldl add empty

private theorem contractOf_add (spec : Specification) (added : Id .method) (term : Term)
    (method : Id .method) :
    (spec.add (added, term)).contractOf method =
      if method = added then (spec.contractOf added).including term else spec.contractOf method := by
  cases term <;> exact contractOf_revise spec added _ method

private theorem has_contractOf_add (spec : Specification) (addition : Id .method × Term)
    (method : Id .method) (term : Term) :
    ((spec.add addition).contractOf method).Has term ↔
      addition = (method, term) ∨ (spec.contractOf method).Has term := by
  obtain ⟨added, included⟩ := addition
  rw [contractOf_add]
  by_cases same : method = added
  · subst same
    simp [Contract.has_including]
  · simp [same, Ne.symm same]

private theorem has_contractOf_foldl (spec : Specification) (additions : List (Id .method × Term))
    (method : Id .method) (term : Term) :
    ((additions.foldl add spec).contractOf method).Has term ↔
      (method, term) ∈ additions ∨ (spec.contractOf method).Has term := by
  induction additions generalizing spec with
  | nil => simp
  | cons addition additions ih =>
    rw [List.foldl_cons, ih, has_contractOf_add, List.mem_cons, or_left_comm, ← or_assoc, eq_comm]

theorem has_declare (additions : List (Id .method × Term)) (method : Id .method) (term : Term) :
    ((declare additions).contractOf method).Has term ↔ (method, term) ∈ additions := by
  have nothing : ¬(empty.contractOf method).Has term := by cases term <;> exact List.not_mem_nil
  rw [declare, has_contractOf_foldl, or_iff_left nothing]

private theorem has_declare_congr {others additions : List (Id .method × Term)}
    {method : Id .method} {term : Term}
    (same : (method, term) ∈ others ↔ (method, term) ∈ additions) :
    ((declare others).contractOf method).Has term ↔
      ((declare additions).contractOf method).Has term := by
  rw [has_declare, has_declare, same]

/-- Whatever was added in whatever order, the clauses of a method in a role are listed exactly if they
were added for it in that role, each once, by expression, then qualifier, then result. They are the
same after any additions with the same clauses for the method in this role. -/
theorem declare_lists (additions : List (Id .method × Term)) (method : Id .method) :
    let contract := (declare additions).contractOf method
    IsListing Clause.Before (fun clause => (method, .requires clause) ∈ additions)
      contract.requires.keys ∧
    IsListing Clause.Before (fun clause => (method, .ensures clause) ∈ additions)
      contract.ensures.keys ∧
    IsListing ResultClause.Before (fun clause => (method, .ensuresIf clause) ∈ additions)
      contract.ensuresIf.keys ∧
    ∀ others : List (Id .method × Term),
      let other := (declare others).contractOf method
      ((∀ clause, (method, .requires clause) ∈ others ↔ (method, .requires clause) ∈ additions) →
        other.requires = contract.requires) ∧
      ((∀ clause, (method, .ensures clause) ∈ others ↔ (method, .ensures clause) ∈ additions) →
        other.ensures = contract.ensures) ∧
      ((∀ clause, (method, .ensuresIf clause) ∈ others ↔ (method, .ensuresIf clause) ∈ additions) →
        other.ensuresIf = contract.ensuresIf) := by
  intro contract
  have listed := has_declare additions method
  refine ⟨contract.requires.isListing Clause.before_of_compare fun clause => ?_,
    contract.ensures.isListing Clause.before_of_compare fun clause => ?_,
    contract.ensuresIf.isListing ResultClause.before_of_compare fun clause => ?_,
    fun others => ⟨fun same => ?_, fun same => ?_, fun same => ?_⟩⟩
  · exact listed (.requires clause)
  · exact listed (.ensures clause)
  · exact listed (.ensuresIf clause)
  · exact ClauseSet.eq_of_keys fun clause => has_declare_congr (same clause)
  · exact ClauseSet.eq_of_keys fun clause => has_declare_congr (same clause)
  · exact ClauseSet.eq_of_keys fun clause => has_declare_congr (same clause)

/-- Clauses that two methods require, added in another order and some of them again. -/
theorem declare_lists_repeated :
    let high : Clause := ⟨"a.f", "High"⟩
    let low : Clause := ⟨"a.f", "Low"⟩
    let part : Clause := ⟨"a", "Low"⟩
    let once : List (Id .method × Term) :=
      [(⟨0⟩, .requires low), (⟨0⟩, .requires part), (⟨0⟩, .requires high)]
    let again : List (Id .method × Term) :=
      [(⟨0⟩, .requires high), (⟨1⟩, .requires low), (⟨0⟩, .requires low), (⟨0⟩, .ensures high),
        (⟨0⟩, .requires part), (⟨0⟩, .requires low)]
    ((declare once).contractOf ⟨0⟩).requires.keys = [part, high, low] ∧
      (∀ clause, clause ∈ ((declare once).contractOf ⟨0⟩).requires.keys ↔
        (⟨0⟩, .requires clause) ∈ once) ∧
      ((declare again).contractOf ⟨0⟩).requires = ((declare once).contractOf ⟨0⟩).requires := by
  intro high low part once again
  obtain ⟨required, -, -, others⟩ := declare_lists once ⟨0⟩
  obtain ⟨requires, -, -⟩ := others again
  refine ⟨by decide +kernel, required.mem, requires fun clause => ?_⟩
  simp only [once, again, List.mem_cons, List.not_mem_nil, Prod.mk.injEq, Term.requires.injEq]
  grind

end Specification
end QualifierFlow
