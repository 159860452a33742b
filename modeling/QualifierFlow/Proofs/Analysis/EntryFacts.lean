import QualifierFlow.Proofs.Analysis.ClauseFacts
import QualifierFlow.Proofs.Store.Recording

/-! What is known at the entry of a code unit. Three sources speak of paths: the declarations of
parameters, what the method requires, and the values of fields. The store knows of a path what the
last of them says in a fact that the store can record, and nothing of a path without such a fact. -/
namespace QualifierFlow
variable {σ γ V : Type}

/-- Memories that differ at most in what was logged and complained of. -/
structure Memory.Matches (m n : Memory σ V) : Prop where
  host : m.host = n.host
  resolutions : m.resolutions = n.resolutions

private theorem Memory.Matches.refl (m : Memory σ V) : m.Matches m := ⟨rfl, rfl⟩

private theorem Store.bindParameter_eq_elim (store : Store V) (parameter : Variable)
    (value : Option V) :
    store.bindParameter parameter value = value.elim store (store.record (.var parameter)) := by
  -- variables are tracked under all assumptions, so that the unguarded write is a record
  have tracked : store.tracks (.var parameter) = true := by simp [tracks, Path.isField]
  cases value with
  | none => rfl
  | some value => exact (if_pos tracked).symm

/-- What the host and the contract of a method say at its entry. -/
structure EntryAnswers (V : Type) where
  declared : List (Variable × V)
  required : List (Clause × Path × V)
  fields : List (Field × V)

namespace EntryAnswers
variable (answers : EntryAnswers V) (method : Method)

def parameterFacts : List (Path × V) :=
  answers.declared.map fun (parameter, value) => (.var parameter, value)

/-- The facts about fields that count: in a constructor all, otherwise those about final fields. -/
def fieldFacts : List (Path × V) :=
  (answers.fields.filter fun (field, _) => field.isFinal || method.isConstructor).map
    fun (field, value) => (.field (.self method.declaringType) field, value)

def facts : List (Path × V) :=
  answers.parameterFacts ++ answers.required.map (·.2) ++ answers.fieldFacts method

end EntryAnswers

namespace Analysis
open Run
variable (analysis : Analysis σ γ V)

private theorem shares_matches : Shares (σ := σ) (V := V) Memory.Matches where
  host same := same.host
  resolutions same := same.resolutions
  answer same _ := ⟨rfl, same.resolutions⟩
  remember same _ := ⟨same.host, rfl⟩
  log same _ _ := ⟨same.host, same.resolutions⟩

private theorem respects_matches : analysis.Respects Memory.Matches :=
  shares_matches.respects analysis

private theorem complain_idle (method : Method) (expression : String) (error : ResolveError) :
    Coupled (σ := σ) (V := V) Memory.Matches Memory.Matches (fun _ _ => True)
      (complain method expression error) (pure ()) :=
  fun _ _ same => ⟨trivial, same.host, same.resolutions⟩

def declaredValues (parameters : List Parameter) : Run σ V (List (Variable × V)) :=
  parameters.foldlM (fun values parameter => do
    return values ++ ((← analysis.typeValue parameter.tree).map (parameter.var, ·)).toList) []

/-- What is said at the entry of a method, asked in the order of the entry. -/
def entryAnswers (method : Method) (parameters : List Parameter) : Run σ V (EntryAnswers V) := do
  forgetCalls
  let declared ← analysis.declaredValues parameters
  let required ← analysis.factsOf (.declaration method.id) (analysis.host.declarationScope method)
    (fun clause => clause) (analysis.contracts method.id).requires.keys
  let fields ← ask analysis.host.fieldValues
  return ⟨declared, required, fields⟩

private theorem enterParameters_gathers (parameters : List Parameter) (start : Store V) :
    Coupled Memory.Matches Memory.Matches
      (fun store values =>
        store = start.recordAll (values.map fun (parameter, value) => (.var parameter, value)))
      (analysis.enterParameters parameters start) (analysis.declaredValues parameters) := by
  unfold enterParameters declaredValues
  refine Coupled.foldlM ?_ parameters rfl
  rintro parameter _ values rfl
  refine Agrees.bind (analysis.respects_matches.typeValue parameter.tree) fun value => ?_
  refine Coupled.pure ?_
  rw [Store.bindParameter_eq_elim, List.map_append, Store.recordAll_append]
  cases value <;> rfl

private theorem enterRequirements_gathers (method : Method) (start : Store V) :
    Coupled Memory.Matches Memory.Matches
      (fun store facts => store = start.recordAll (facts.map (·.2)))
      (analysis.enterRequirements method start)
      (analysis.factsOf (.declaration method.id) (analysis.host.declarationScope method)
        (fun clause => clause) (analysis.contracts method.id).requires.keys) := by
  simp only [Store.recordAll, List.foldl_map]
  refine useClauses_gathers ?_ ?_
    (shares_matches.resolvesAlike analysis _ _) _ _
  · exact fun clause path store =>
      shares_matches.establish_gathers analysis store path clause.qualifier
  · exact fun clause error =>
      Coupled.idle (shares_matches.note_idle _) fun _ => complain_idle method _ error

private theorem enterFields_eq_recordAll (method : Method) (answers : EntryAnswers V)
    (start : Store V) :
    enterFields method answers.fields start = start.recordAll (answers.fieldFacts method) := by
  simp [enterFields, Store.recordAll, EntryAnswers.fieldFacts, List.foldl_map, List.foldl_filter]

theorem entryStore_gathers (method : Method) (parameters : List Parameter) :
    Coupled Memory.Matches Memory.Matches
      (fun store answers =>
        store = (Store.empty analysis.assumptions).recordAll (answers.facts method))
      (analysis.entryStore (.method method) parameters)
      (analysis.entryAnswers method parameters) := by
  -- requirements that do not resolve are complained of on the left only, so that the memories match
  -- without being alike
  have forgets : Agrees Memory.Matches (forgetCalls (σ := σ) (V := V)) :=
    fun _ _ same => ⟨rfl, same.host, congrArg ResolutionMemory.forgetCalls same.resolutions⟩
  unfold entryStore entryAnswers
  refine forgets.bind fun _ => ?_
  refine Coupled.idle (shares_matches.note_idle _) fun _ => ?_
  refine (analysis.enterParameters_gathers parameters _).bind ?_
  rintro _ declared rfl
  refine (analysis.enterRequirements_gathers method _).bind ?_
  rintro _ required rfl
  refine (shares_matches.ask analysis.host.fieldValues).bind fun fields => Coupled.pure ?_
  refine (enterFields_eq_recordAll method ⟨declared, required, fields⟩ _).trans ?_
  rw [EntryAnswers.facts, Store.recordAll_append, Store.recordAll_append]
  rfl

end Analysis

private theorem ResolutionMemory.resolution_forgetCalls (memory : ResolutionMemory)
    (method : Id .method) (denoted : String → Resolution) :
    memory.forgetCalls.resolution (.declaration method) denoted =
      memory.resolution (.declaration method) denoted := by
  funext expression
  rw [resolution, resolution, get?_forgetCalls]
  rfl

def Oracle.entryAnswers (oracle : Oracle γ V) (contract : Contract)
    (resolution : String → Resolution) (parameters : List Parameter) : EntryAnswers V where
  declared := parameters.filterMap fun parameter =>
    (oracle.typeValue parameter.tree).map (parameter.var, ·)
  required := contract.requires.keys.filterMap fun clause =>
    (oracle.fact? resolution clause).map (clause, ·)
  fields := oracle.fieldValues

namespace Analysis
open Run
variable {analysis : Analysis σ γ V} {oracle : Oracle γ V}

private theorem declaredValues_yields (answers : analysis.host.AnswersBy oracle)
    {I : Memory σ V → Prop} (kept : ∀ m host, I m → I { m with host := host })
    (parameters : List Parameter) :
    Yields I (analysis.declaredValues parameters)
      (parameters.filterMap fun parameter =>
        (oracle.typeValue parameter.tree).map (parameter.var, ·)) := by
  rw [List.filterMap_eq_flatMap_toList, List.flatMap_eq_foldl]
  unfold declaredValues
  refine Yields.foldlM ?_ parameters []
  exact fun values parameter => (typeValue_yields answers kept (some parameter.tree)).bind (.pure _)

theorem forgetCalls_yields (method : Id .method) (scope : γ) (resolution : String → Resolution) :
    Yields (Memory.ResolvesTo oracle (.declaration method) scope resolution)
      (forgetCalls (σ := σ) (V := V)) () :=
  fun m resolves => ⟨rfl, (m.resolutions.resolution_forgetCalls method _).trans resolves⟩

private theorem entryAnswers_yields (answers : analysis.host.AnswersBy oracle) (method : Method)
    (parameters : List Parameter) (resolution : String → Resolution) :
    Yields (Memory.ResolvesTo oracle (.declaration method.id) (oracle.declared method) resolution)
      (analysis.entryAnswers method parameters)
      (oracle.entryAnswers (analysis.contracts method.id) resolution parameters) := by
  refine (forgetCalls_yields method.id _ resolution).bind ?_
  refine (declaredValues_yields answers (fun _ _ => id) parameters).bind ?_
  refine (factsOf_yields answers (answers.declarationScope method) _ _).bind ?_
  refine (ask_yields (fun _ _ => id) answers.fieldValues).bind ?_
  exact .pure _

/-- What holds at the entry of a code unit. In a method, a path has the value of the last fact about
it that the store can record: of those that the declarations of parameters give, then of those that
the method requires, and last of those known about fields. It has none if there is no such fact.
Elsewhere nothing is known and nothing complained of. For a host that answers by functions, the last
part says which the facts are. -/
theorem entryStore_establishes (analysis : Analysis σ γ V) (unit : CodeUnit)
    (parameters : List Parameter) (memory : Memory σ V) :
    let entered := (analysis.entryStore unit parameters).run memory
    match unit with
    | .other =>
      entered.1 = .empty analysis.assumptions ∧ entered.2.complaints = memory.complaints
    | .method method =>
      let answers := ((analysis.entryAnswers method parameters).run memory).1
      entered.1.assumptions = analysis.assumptions ∧
      (∀ path, entered.1.get? path =
        lastAbout path ((Store.empty analysis.assumptions).effective (answers.facts method))) ∧
      ∀ oracle : Oracle γ V, analysis.host.AnswersBy oracle →
        answers = oracle.entryAnswers (analysis.contracts method.id)
          (memory.resolutions.resolution (.declaration method.id)
            (oracle.denoted · (oracle.declared method))) parameters := by
  intro entered
  cases unit with
  | other => exact ⟨rfl, rfl⟩
  | method method =>
    have gathered : entered.1 = (Store.empty analysis.assumptions).recordAll
        (((analysis.entryAnswers method parameters).run memory).1.facts method) :=
      (analysis.entryStore_gathers method parameters memory memory (.refl memory)).1
    refine ⟨?_, fun path => ?_, fun oracle functions => ?_⟩
    · rw [gathered, Store.assumptions_recordAll]
      rfl
    · rw [gathered, Store.get?_recordAll, Store.get?_empty, Option.or_none]
    · exact (entryAnswers_yields functions method parameters _ memory rfl).1

def settled : Field := ⟨⟨0⟩, "settled", true⟩

def shared : Field := ⟨⟨1⟩, "shared", false⟩

/-- Trees 1 and 2 have incomparable values, and the expression `p` denotes the variable. -/
def sharingTable (p : Variable) : HostTable (Qualifier .diamond) where
  meaning := Hierarchy.diamond.qualifier?
  typeValues := .ofList [(⟨1⟩, .left), (⟨2⟩, .right)]
  fieldValues := [(settled, .right), (shared, .left)]
  expressions := .ofList
    [("p", .ok (.var p)), ("this.settled", .ok (.field (.self ⟨0⟩) settled))]

def sharingAnalysis (p : Variable) : Analysis Unit TableScope (Qualifier .diamond) where
  host := (sharingTable p).host
  contracts _ := { requires := .ofList [(⟨"p", "Top"⟩, ()), (⟨"this.settled", "Left"⟩, ())] }
  assumptions := { concurrent := true }

/-- Each source overrules the ones before, also with less precise facts; of a parameter given twice
the second counts. Other threads may write the field that is not final. -/
theorem entryStore_establishes_constructor :
    let p : Variable := ⟨⟨0⟩, "p"⟩
    let q : Variable := ⟨⟨1⟩, "q"⟩
    let tree (id : Id .tree) : Tree := ⟨id, ⟨0, 0, 0⟩, true⟩
    let method : Method := ⟨⟨0⟩, "init", ⟨0⟩, true, tree ⟨0⟩⟩
    let parameters : List Parameter := [⟨q, tree ⟨1⟩⟩, ⟨p, tree ⟨1⟩⟩, ⟨q, tree ⟨2⟩⟩]
    let store := (((sharingAnalysis p).entryStore (.method method) parameters).run
      { host := () }).1
    store.get? (.var p) = some Hierarchy.diamond.top ∧ store.get? (.var q) = some .right ∧
      store.get? (.field (.self ⟨0⟩) settled) = some .right ∧
      store.get? (.field (.self ⟨0⟩) shared) = none := by
  intro p q tree method parameters store
  obtain ⟨-, facts, said⟩ :=
    (sharingAnalysis p).entryStore_establishes (.method method) parameters { host := () }
  rw [said (sharingTable p).oracle (sharingTable p).answersBy_oracle] at facts
  refine ⟨?_, ?_, ?_, ?_⟩
  · exact (facts _).trans (by decide +kernel)
  · exact (facts _).trans (by decide +kernel)
  · exact (facts _).trans (by decide +kernel)
  · exact (facts _).trans (by decide +kernel)

end Analysis
end QualifierFlow
