import QualifierFlow.Proofs.Analysis.ClauseRuns
import QualifierFlow.Proofs.Analysis.Session

/-! Remembered resolutions never show. A session that remembers the resolutions of contract
expressions answers every request as one that resolves each expression afresh, if the host resolves
by functions and handles are used consistently: a method's handle in the whole session, a node's
handle from the entry of one code unit to the next. The two sessions are coupled by a relation of
their memories, in which the remembered resolutions are right wherever they may be asked for. -/
namespace QualifierFlow
variable {σ γ V α : Type}

namespace ResolutionMemory

def afresh : ResolutionMemory := { retains := false }

private theorem forgetCalls_afresh : afresh.forgetCalls = afresh := rfl

private theorem remember_afresh (question : Question) (answer : Resolution) :
    afresh.remember question answer = afresh := rfl

end ResolutionMemory

/-- How contract expressions are resolved, as functions of what they are about. -/
structure Resolver (γ : Type) where
  declared : Method → γ
  called : Call → γ
  denoted : String → γ → Resolution

namespace Host

/-- Asked in states that are alike, the query is answered alike and leaves states that are alike. -/
def Congruent (alike : σ → σ → Prop) (query : StateM σ α) : Prop :=
  ∀ s t, alike s t → (query.run s).1 = (query.run t).1 ∧ alike (query.run s).2 (query.run t).2

/-- The query always has the same answer, and leaves a state that is alike. -/
def Constant (alike : σ → σ → Prop) (answer : α) (query : StateM σ α) : Prop :=
  ∀ s, (query.run s).1 = answer ∧ alike s (query.run s).2

/-- The host resolves by the functions of the resolver. It may keep track of being asked, as long as
no other answer depends on that: its states are alike if they differ in nothing else. -/
structure ResolvesBy (host : Host σ γ V) (resolver : Resolver γ) (alike : σ → σ → Prop) : Prop where
  equivalence : Equivalence alike
  declarationScope (method : Method) :
    Constant alike (resolver.declared method) (host.declarationScope method)
  callScope (call : Call) : Constant alike (resolver.called call) (host.callScope call)
  resolve (expression : String) (scope : γ) :
    Constant alike (resolver.denoted expression scope) (host.resolve expression scope)
  attend (tree : Option (Id .tree)) : Congruent alike (host.attend tree)
  typeValue (tree : Tree) : Congruent alike (host.typeValue tree)
  boundValue (tree : Tree) : Congruent alike (host.boundValue tree)
  supports (qualifier : String) : Congruent alike (host.supports qualifier)
  meaning (qualifier : String) : Congruent alike (host.meaning qualifier)
  fieldValues : Congruent alike host.fieldValues
  isSideEffectFree (method : Id .method) : Congruent alike (host.isSideEffectFree method)

end Host

namespace Request

def isEnter : Request V → Bool
  | .enter .. => true
  | _ => false

def method? : Request V → Option Method
  | .enter (.method method) _ => some method
  | _ => none

def invocation? : Request V → Option (Id .node × Call)
  | .step node _ _ =>
    match node.operation with
    | .invoke call => some (node.id, call)
    | _ => none
  | _ => none

/-- Methods entered under one handle are the same. Between two entries, so are the calls of one
callee at nodes of one handle. -/
structure Consistent (requests : List (Request V)) : Prop where
  methods : ∀ a ∈ requests, ∀ b ∈ requests, ∀ m ∈ a.method?, ∀ n ∈ b.method?, m.id = n.id → m = n
  calls : ∀ part, part <:+: requests → (∀ request ∈ part, request.isEnter = false) →
    ∀ a ∈ part, ∀ b ∈ part, ∀ i ∈ a.invocation?, ∀ j ∈ b.invocation?,
      i.1 = j.1 → i.2.method = j.2.method → i.2 = j.2

def untilEntry (requests : List (Request V)) : List (Request V) :=
  requests.takeWhile fun request => !request.isEnter

private theorem untilEntry_cons {request : Request V} (stays : request.isEnter = false)
    (requests : List (Request V)) :
    untilEntry (request :: requests) = request :: untilEntry requests := by
  rw [untilEntry, List.takeWhile_cons, stays]
  rfl

private theorem isEnter_of_mem_untilEntry {requests : List (Request V)} {request : Request V}
    (member : request ∈ untilEntry requests) : request.isEnter = false := by
  have stays := List.all_eq_true.1 (List.all_takeWhile (l := requests)) request member
  simpa using stays

/-- A part of a session without an entry lies in what is left of it up to the next entry. -/
private theorem exists_untilEntry {requests part : List (Request V)} (inside : part <:+: requests)
    (stays : ∀ request ∈ part, request.isEnter = false) :
    ∃ rest, rest <:+ requests ∧ ∀ request ∈ part, request ∈ untilEntry rest := by
  obtain ⟨rest, ⟨others, rfl⟩, suffix⟩ := List.infix_iff_prefix_suffix.1 inside
  have upTo : untilEntry (part ++ others) = part ++ untilEntry others :=
    List.takeWhile_append_of_pos fun request member => by simp [stays request member]
  refine ⟨part ++ others, suffix, fun request member => ?_⟩
  rw [upTo]
  exact List.mem_append_left _ member

end Request

/-- The scopes in which a site resolves: of the declarations that a session enters, and of the calls
in a part of it. -/
inductive Resolver.ScopeAt (resolver : Resolver γ) (session part : List (Request V)) :
    Site → γ → Prop
  | declaration {request : Request V} {method : Method} : request ∈ session →
    request.method? = some method →
    ScopeAt resolver session part (.declaration method.id) (resolver.declared method)
  | call {request : Request V} {node : Id .node} {call : Call} : request ∈ part →
    request.invocation? = some (node, call) →
    ScopeAt resolver session part (.call node call.method) (resolver.called call)

theorem Resolver.ScopeAt.unique {resolver : Resolver γ} {session part : List (Request V)}
    (consistent : Request.Consistent session) (inside : part <:+: session)
    (stays : ∀ request ∈ part, request.isEnter = false) {site : Site} {scope other : γ}
    (first : resolver.ScopeAt session part site scope)
    (second : resolver.ScopeAt session part site other) : other = scope := by
  generalize same : site = place at second
  cases first with
  | @declaration a m inA isA =>
    cases second with
    | @declaration b n inB isB =>
      have ids : m.id = n.id := Site.declaration.inj same
      rw [consistent.methods a inA b inB m isA n isB ids]
    | call => cases same
  | @call a i c inA isA =>
    cases second with
    | declaration => cases same
    | @call b j d inB isB =>
      obtain ⟨nodes, callees⟩ := Site.call.inj same
      have calls : c = d :=
        consistent.calls part inside stays a inA b inB (i, c) isA (j, d) isB nodes callees
      rw [calls]

/-- The right memory retains nothing. What the left one remembers is what would be found again in
any scope in which it may be asked for. -/
structure Memory.Recalls (alike : σ → σ → Prop) (resolver : Resolver γ) (scopes : Site → γ → Prop)
    (m n : Memory σ V) : Prop where
  host : alike m.host n.host
  complaints : m.complaints = n.complaints
  remembered : ∀ question answer scope, m.resolutions.get? question = some answer →
    scopes question.site scope → answer = resolver.denoted question.expression scope
  afresh : n.resolutions = .afresh

namespace Analysis
open Run
variable {analysis : Analysis σ γ V} {resolver : Resolver γ} {alike : σ → σ → Prop}
variable {scopes : Site → γ → Prop} (resolves : analysis.host.ResolvesBy resolver alike)
include resolves

omit resolves in
private theorem agrees_ask {query : StateM σ α} (congruent : Host.Congruent alike query) :
    Agrees (V := V) (Memory.Recalls alike resolver scopes) (ask query) := by
  intro m n recalls
  obtain ⟨answers, after⟩ := congruent m.host n.host recalls.host
  exact ⟨answers, after, recalls.complaints, recalls.remembered, recalls.afresh⟩

private theorem respects_recalls : analysis.Respects (Memory.Recalls alike resolver scopes) where
  typeValue := analysis.attending_agrees (fun tree => agrees_ask (resolves.attend tree))
    fun tree => agrees_ask (resolves.typeValue tree)
  boundValue := analysis.attending_agrees (fun tree => agrees_ask (resolves.attend tree))
    fun tree => agrees_ask (resolves.boundValue tree)
  meaning qualifier := agrees_ask (resolves.meaning qualifier)
  fieldValues := agrees_ask resolves.fieldValues
  isSideEffectFree method := agrees_ask (resolves.isSideEffectFree method)
  note _ _ _ recalls := ⟨rfl, recalls.host, recalls.complaints, recalls.remembered, recalls.afresh⟩

omit resolves in
private theorem complainsAlike_recalls :
    ComplainsAlike (V := V) (Memory.Recalls alike resolver scopes) :=
  complainsAlike_of_complaints (fun _ _ recalls => recalls.complaints)
    fun _ _ recalls _ => ⟨recalls.host, rfl, recalls.remembered, recalls.afresh⟩

section Site
variable {site : Site} {build : StateM σ γ} {scope : γ} (built : Host.Constant alike scope build)
include built

theorem run_resolve_denoted {expression : String} {m : Memory σ V}
    (unknown : m.resolutions.get? ⟨site, expression⟩ = none) {known : Option γ}
    (fits : ∀ a ∈ known, a = scope) :
    ∃ after host, (∀ a ∈ after, a = scope) ∧ alike m.host host ∧
      ((analysis.resolve site build expression).run known).run m =
        ((resolver.denoted expression scope, after),
          { m with
            host := host
            resolutions := m.resolutions.remember ⟨site, expression⟩
              (resolver.denoted expression scope) }) := by
  have opened : let opened := known.elim (build.run m.host) (·, m.host)
      opened.1 = scope ∧ alike m.host opened.2 := by
    cases known with
    | some known => exact ⟨fits known rfl, resolves.equivalence.refl m.host⟩
    | none => exact built m.host
  obtain ⟨same, between⟩ := opened
  obtain ⟨denoted, later⟩ := resolves.resolve expression scope
    (known.elim (build.run m.host) (·, m.host)).2
  refine ⟨some scope, _, by simp, resolves.equivalence.trans between later, ?_⟩
  rw [run_resolve_of_none unknown]
  dsimp only
  rw [same, denoted]

private theorem resolvesAlike_recalls (inScope : scopes site scope)
    (unique : ∀ other, scopes site other → other = scope) :
    analysis.ResolvesAlike (Memory.Recalls alike resolver scopes) site build := by
  refine ⟨fun qualifier => agrees_ask (resolves.supports qualifier),
    fun s t => (∀ a ∈ s, a = scope) ∧ ∀ a ∈ t, a = scope, by simp, ?_⟩
  rintro expression s t ⟨fits, fits'⟩ m n recalls
  have unknown : n.resolutions.get? ⟨site, expression⟩ = none := by
    rw [recalls.afresh]
    rfl
  obtain ⟨after', host', fitting', between', right⟩ :=
    run_resolve_denoted resolves built unknown fits'
  rw [right, recalls.afresh, ResolutionMemory.remember_afresh]
  -- the right run resolves now, the left one may remember what it found in the same scope
  cases found : m.resolutions.get? ⟨site, expression⟩ with
  | some answer =>
    have correct : answer = resolver.denoted expression scope :=
      recalls.remembered _ answer scope found inScope
    rw [run_resolve_of_some found]
    refine ⟨⟨correct, fits, fitting'⟩, ?_⟩
    exact ⟨resolves.equivalence.trans recalls.host between', recalls.complaints,
      recalls.remembered, rfl⟩
  | none =>
    obtain ⟨after, host, fitting, between, left⟩ := run_resolve_denoted resolves built found fits
    rw [left]
    refine ⟨⟨rfl, fitting, fitting'⟩, ?_, recalls.complaints, ?_, rfl⟩
    · have back : alike host m.host := resolves.equivalence.symm between
      exact resolves.equivalence.trans (resolves.equivalence.trans back recalls.host) between'
    · intro question answer other known otherScope
      rcases ResolutionMemory.get?_remember known with ⟨rfl, rfl⟩ | known
      · rw [unique other otherScope]
      · exact recalls.remembered question answer other known otherScope

end Site

section Session
variable {session : List (Request V)}

omit resolves in
private theorem forgetCalls_coupled (part next : List (Request V)) :
    Coupled (Memory.Recalls alike resolver (resolver.ScopeAt session part))
      (Memory.Recalls alike resolver (resolver.ScopeAt session next)) Eq
      (forgetCalls (σ := σ) (V := V)) forgetCalls := by
  intro m n recalls
  have afresh : n.resolutions.forgetCalls = .afresh := by
    rw [recalls.afresh, ResolutionMemory.forgetCalls_afresh]
  refine ⟨rfl, recalls.host, recalls.complaints, ?_, afresh⟩
  rintro ⟨site, expression⟩ answer scope known inScope
  have kept : (if site.isCall then none else m.resolutions.get? ⟨site, expression⟩) =
      some answer := (m.resolutions.get?_forgetCalls ⟨site, expression⟩).symm.trans known
  -- what is left is about declarations, whose scopes are the same in every part of the session
  cases inScope with
  | declaration member isMethod =>
    exact recalls.remembered _ answer _ kept (.declaration member isMethod)
  | call => exact nomatch kept

variable [Domain V] [DecidableEq V] (consistent : Request.Consistent session)
include consistent

omit consistent resolves in
theorem session_cons_coupled {M N O : Memory σ V → Memory σ V → Prop} {request : Request V}
    {requests : List (Request V)}
    (first : Coupled M N Eq (analysis.answer request) (analysis.answer request))
    (others : Coupled N O Eq (analysis.session requests) (analysis.session requests)) :
    Coupled M O Eq (analysis.session (request :: requests))
      (analysis.session (request :: requests)) := by
  unfold session
  rw [List.mapM_cons]
  refine Coupled.bind first ?_
  rintro answer _ rfl
  refine Coupled.bind others ?_
  rintro answers _ rfl
  exact .pure rfl

private theorem answer_enter_coupled {unit : CodeUnit} {parameters : List Parameter}
    (member : .enter unit parameters ∈ session) (part : List (Request V))
    {next : List (Request V)} (inside : next <:+: session)
    (stays : ∀ request ∈ next, request.isEnter = false) :
    Coupled (Memory.Recalls alike resolver (resolver.ScopeAt session part))
      (Memory.Recalls alike resolver (resolver.ScopeAt session next)) Eq
      (analysis.answer (.enter unit parameters)) (analysis.answer (.enter unit parameters)) := by
  have declared : ∀ method, unit = .method method →
      analysis.ResolvesAlike (Memory.Recalls alike resolver (resolver.ScopeAt session next))
        (.declaration method.id) (analysis.host.declarationScope method) := by
    rintro method rfl
    have inScope : resolver.ScopeAt session next (.declaration method.id)
        (resolver.declared method) := .declaration member rfl
    exact resolvesAlike_recalls resolves (resolves.declarationScope method) inScope
      fun other => inScope.unique consistent inside stays
  have entered := entryStore_keeps (respects_recalls resolves) Store.isInvariant_true
    complainsAlike_recalls (forgetCalls_coupled part next) declared parameters
  refine Coupled.bind entered.coupled ?_
  rintro store _ rfl
  exact .pure rfl

private theorem answer_step_agrees {part : List (Request V)} (inside : part <:+: session)
    (stays : ∀ request ∈ part, request.isEnter = false) {node : Node}
    {values : Id .node → Option V} {incoming : Flow V}
    (member : .step node values incoming ∈ part) :
    Agrees (Memory.Recalls alike resolver (resolver.ScopeAt session part))
      (analysis.answer (.step node values incoming)) := by
  have called : ∀ call, node.operation = .invoke call →
      analysis.ResolvesAlike (Memory.Recalls alike resolver (resolver.ScopeAt session part))
        (.call node.id call.method) (analysis.host.callScope call) := by
    intro call invokes
    have inScope : resolver.ScopeAt session part (.call node.id call.method)
        (resolver.called call) := .call member (by simp [Request.invocation?, invokes])
    exact resolvesAlike_recalls resolves (resolves.callScope call) inScope
      fun other => inScope.unique consistent inside stays
  have flows : incoming.Holds fun _ => True := fun _ => trivial
  have stepped := step_keeps (respects_recalls resolves) Store.isInvariant_true called flows values
  refine Coupled.bind (Keeps.coupled stepped) ?_
  rintro result _ rfl
  exact .pure rfl

omit consistent resolves in
private theorem answer_takeComplaints_agrees :
    Agrees (Memory.Recalls alike resolver scopes) (analysis.answer .takeComplaints) := by
  intro m n recalls
  refine ⟨?_, recalls.host, rfl, recalls.remembered, recalls.afresh⟩
  exact congrArg (fun complaints : SortedMap Question Diagnostic =>
    Answer.complaints complaints.values) recalls.complaints

theorem session_coupled {rest part : List (Request V)} (suffix : rest <:+ session)
    (inside : part <:+: session) (stays : ∀ request ∈ part, request.isEnter = false)
    (within : ∀ request ∈ Request.untilEntry rest, request ∈ part) :
    Coupled (Memory.Recalls alike resolver (resolver.ScopeAt session part)) (fun _ _ => True) Eq
      (analysis.session rest) (analysis.session rest) := by
  -- between entries the relation is about one part of the session; an entry starts the next part
  induction rest generalizing part with
  | nil => exact fun _ _ _ => ⟨rfl, trivial⟩
  | cons request rest ih =>
    have later : rest <:+ session := (List.suffix_cons request rest).trans suffix
    have asked : request ∈ session := suffix.subset (by simp)
    cases request with
    | enter unit parameters =>
      have next : Request.untilEntry rest <:+: session :=
        (List.takeWhile_prefix _).isInfix.trans later.isInfix
      have upTo : ∀ request ∈ Request.untilEntry rest, request.isEnter = false :=
        fun request => Request.isEnter_of_mem_untilEntry
      have entered := answer_enter_coupled resolves consistent asked part next upTo
      exact session_cons_coupled entered (ih later next upTo fun _ => id)
    | step node values incoming =>
      rw [Request.untilEntry_cons rfl] at within
      obtain ⟨here, others⟩ := List.forall_mem_cons.1 within
      have stepped := answer_step_agrees resolves consistent inside stays here
      exact session_cons_coupled stepped (ih later inside stays others)
    | takeComplaints =>
      rw [Request.untilEntry_cons rfl] at within
      have others := (List.forall_mem_cons.1 within).2
      exact session_cons_coupled answer_takeComplaints_agrees (ih later inside stays others)

omit consistent in
/-- A session that remembers resolutions gives the answers of one that resolves every expression
afresh. -/
theorem session_afresh (requests : List (Request V)) (consistent : Request.Consistent requests)
    (state : σ) :
    ((analysis.session requests).run { host := state }).1 =
      ((analysis.session requests).run { host := state, resolutions := .afresh }).1 := by
  have start : Memory.Recalls (V := V) alike resolver
      (resolver.ScopeAt requests (Request.untilEntry requests)) { host := state }
      { host := state, resolutions := .afresh } :=
    ⟨resolves.equivalence.refl state, rfl, fun _ _ _ known => (nomatch known), rfl⟩
  have coupled := session_coupled resolves consistent (List.suffix_refl requests)
    (List.takeWhile_prefix _).isInfix (fun _ => Request.isEnter_of_mem_untilEntry) fun _ => id
  exact (coupled _ _ start).1

end Session

omit resolves

def tableResolver (table : HostTable V) : Resolver TableScope where
  declared _ := .declaration
  called call := .call (call.arguments.map (·.path))
  denoted := table.resolve

private theorem recorded_resolvesBy (table : HostTable V) :
    table.host.recorded.ResolvesBy (tableResolver table) fun _ _ => True where
  equivalence := ⟨fun _ => trivial, fun _ => trivial, fun _ _ => trivial⟩
  declarationScope _ _ := ⟨rfl, trivial⟩
  callScope _ _ := ⟨rfl, trivial⟩
  resolve _ _ _ := ⟨rfl, trivial⟩
  attend _ _ _ _ := ⟨rfl, trivial⟩
  typeValue _ _ _ _ := ⟨rfl, trivial⟩
  boundValue _ _ _ _ := ⟨rfl, trivial⟩
  supports _ _ _ _ := ⟨rfl, trivial⟩
  meaning _ _ _ _ := ⟨rfl, trivial⟩
  fieldValues _ _ _ := ⟨rfl, trivial⟩
  isSideEffectFree _ _ _ _ := ⟨rfl, trivial⟩

/-- A method passes one variable twice, at one node, and then other code passes another there. -/
def twoUnits : List (Request (Qualifier .diamond)) :=
  let passes (argument : Variable) : Request (Qualifier .diamond) :=
    .step (argumentNode argument) (fun _ => none) (.plain (.empty {}))
  [.enter (.method ⟨⟨0⟩, "m", ⟨0⟩, false, ⟨⟨0⟩, ⟨0, 0, 0⟩, false⟩⟩) [], passes ⟨⟨0⟩, "x"⟩,
    passes ⟨⟨0⟩, "x"⟩, .enter .other [], passes ⟨⟨1⟩, "y"⟩, .takeComplaints]

private theorem consistent_twoUnits : Request.Consistent twoUnits where
  methods := by simp [twoUnits, Request.method?]
  calls part inside stays := by
    obtain ⟨rest, suffix, within⟩ := Request.exists_untilEntry inside stays
    have same : ∀ a ∈ Request.untilEntry rest, ∀ b ∈ Request.untilEntry rest,
        ∀ i ∈ a.invocation?, ∀ j ∈ b.invocation?, i.2 = j.2 := by
      simp only [twoUnits, List.suffix_cons_iff, List.suffix_nil] at suffix
      rcases suffix with rfl | rfl | rfl | rfl | rfl | rfl | rfl <;>
        simp [Request.untilEntry, Request.isEnter, Request.invocation?, argumentNode]
    intro a inA b inB i isA j isB _ _
    exact same a (within a inA) b (within b inB) i isA j isB

/-- The second pass in the method is not resolved again, so that the host is asked less. -/
theorem session_afresh_twoUnits :
    let remembering := (argumentAnalysis.session twoUnits).run { host := ⟨(), []⟩ }
    let afresh := (argumentAnalysis.session twoUnits).run
      { host := ⟨(), []⟩, resolutions := .afresh }
    Request.Consistent twoUnits ∧ remembering.1 = afresh.1 ∧
      remembering.2.host.queries.length < afresh.2.host.queries.length := by
  intro remembering afresh
  have resolves : argumentAnalysis.host.ResolvesBy
      (tableResolver { meaning := Hierarchy.diamond.qualifier? }) fun _ _ => True :=
    recorded_resolvesBy _
  have answers : remembering.1 = afresh.1 :=
    session_afresh resolves twoUnits consistent_twoUnits ⟨(), []⟩
  have asked : remembering.2.host.queries.length < afresh.2.host.queries.length := by
    decide +kernel
  exact ⟨consistent_twoUnits, answers, asked⟩

end Analysis
end QualifierFlow
