import QualifierFlow.Hierarchy.Guarded
import QualifierFlow.Proofs.Analysis.Remembering

/-! Steps that fail. A step fails only on two values between which the domain does not decide, and
until then it has done nothing but ask its host about trees: every rule compares values before it
resolves expressions or files complaints. So nothing that comes later can tell that a failed step was
tried. Where the domain always decides, as a hierarchy does, no step fails. -/
namespace QualifierFlow
variable {σ γ V α β : Type}

def Domain.Decides (V : Type) [Domain V] : Prop :=
  ∀ a b fallback : V, (Domain.finer a b (some fallback)).isSome = true

/-- The domain has no answer for the pair, although the first of the two was the fallback. -/
def Violation.IsGenuine [Domain V] (violation : Violation V) : Prop :=
  Domain.finer violation.first violation.second (some violation.first) = none

private theorem Domain.Decides.not_isGenuine [Domain V] (decides : Domain.Decides V)
    (violation : Violation V) : ¬ violation.IsGenuine := by
  intro genuine
  have decided := decides violation.first violation.second violation.first
  rw [genuine] at decided
  contradiction

private theorem Domain.isGenuine_of_finerOf [Domain V] {first second : Option V}
    {violation : Violation V} (failed : Domain.finerOf first second .first = .error violation) :
    violation.IsGenuine := by
  cases first with
  | none => cases second <;> contradiction
  | some a =>
    cases second with
    | none => contradiction
    | some b =>
      simp only [finerOf, Side.pick] at failed
      split at failed
      · contradiction
      · next undecided =>
        cases failed
        exact undecided

theorem Qualifier.decides {H : Hierarchy} : Domain.Decides (Qualifier H) := by
  intro a b fallback
  change (a.finer b (some fallback)).isSome = true
  unfold finer
  split
  · rfl
  · split <;> rfl

def Host.attended (host : Host σ γ V) (state : σ) (tree : Tree) : σ :=
  (StateT.run (do
    host.attend (some tree.id)
    let _ ← host.typeValue tree
    host.attend none : StateM σ Unit) state).2

structure Memory.OnlyAsks (host : Host σ γ V) (m after : Memory σ V) : Prop where
  resolutions : after.resolutions = m.resolutions
  complaints : after.complaints = m.complaints
  asked : ∃ trees : List Tree, after.host = trees.foldl host.attended m.host

namespace Memory.OnlyAsks
variable {host : Host σ γ V} {m between after : Memory σ V}

theorem refl (m : Memory σ V) : m.OnlyAsks host m := ⟨rfl, rfl, [], rfl⟩

theorem trans (first : m.OnlyAsks host between) (second : between.OnlyAsks host after) :
    m.OnlyAsks host after := by
  obtain ⟨trees, asked⟩ := first.asked
  obtain ⟨others, later⟩ := second.asked
  refine ⟨second.resolutions.trans first.resolutions,
    second.complaints.trans first.complaints, trees ++ others, ?_⟩
  rw [later, asked, List.foldl_append]

end Memory.OnlyAsks

/-- What the host attends to, seen from its state. -/
def Host.AttendsTo (host : Host σ γ V) (current : σ → Option (Id .tree)) : Prop :=
  ∀ tree state, current ((host.attend tree).run state).2 = tree

private theorem Host.AttendsTo.foldl_attended {host : Host σ γ V} {current : σ → Option (Id .tree)}
    (attends : host.AttendsTo current) (trees : List Tree) {state : σ}
    (before : current state = none) : current (trees.foldl host.attended state) = none := by
  induction trees generalizing state with
  | nil => exact before
  | cons tree trees ih =>
    have between : current (host.attended state tree) = none := attends none _
    exact ih between

namespace Attempt

def Infallible (attempt : Attempt σ V α) : Prop :=
  ∀ m violation, (attempt.run.run m).1 ≠ .error violation

theorem Infallible.pure (a : α) : Infallible (σ := σ) (V := V) (pure a) := fun _ _ => nofun

theorem Infallible.lift (run : Run σ V α) : Infallible (liftM run : Attempt σ V α) := fun _ _ => nofun

theorem Infallible.bind {first : Attempt σ V α} {next : α → Attempt σ V β}
    (here : Infallible first) (rest : ∀ a, Infallible (next a)) : Infallible (first >>= next) := by
  intro m violation
  cases result : (first.run.run m).1 with
  | error violation => exact absurd result (here m violation)
  | ok a =>
    rw [run_bind_of_ok result]
    exact rest a _ violation

variable [Domain V] (host : Host σ γ V)

/-- The attempt only asks about trees, whether it succeeds or fails. -/
structure Cautious (attempt : Attempt σ V α) : Prop where
  asks : ∀ m, Memory.OnlyAsks host m (attempt.run.run m).2
  genuine : ∀ m violation, (attempt.run.run m).1 = .error violation → violation.IsGenuine

/-- The attempt has only asked about trees when it fails. -/
def FailsEarly (attempt : Attempt σ V α) : Prop :=
  ∀ m violation, (attempt.run.run m).1 = .error violation →
    violation.IsGenuine ∧ Memory.OnlyAsks host m (attempt.run.run m).2

variable {host}

theorem Cautious.failsEarly {attempt : Attempt σ V α} (cautious : Cautious host attempt) :
    FailsEarly host attempt :=
  fun m violation failed => ⟨cautious.genuine m violation failed, cautious.asks m⟩

theorem Infallible.failsEarly {attempt : Attempt σ V α} (infallible : Infallible attempt) :
    FailsEarly host attempt :=
  fun m violation failed => absurd failed (infallible m violation)

theorem Cautious.pure (a : α) : Cautious host (pure a : Attempt σ V α) :=
  ⟨fun m => .refl m, fun _ _ => nofun⟩

theorem Cautious.lift {run : Run σ V α} (asks : ∀ m, Memory.OnlyAsks host m (run.run m).2) :
    Cautious host (liftM run : Attempt σ V α) :=
  ⟨asks, fun _ _ => nofun⟩

theorem Cautious.finerOf (first second : Option V) :
    Cautious host (ofExcept (Domain.finerOf first second .first) : Attempt σ V (Option V)) :=
  ⟨fun m => .refl m, fun _ _ => Domain.isGenuine_of_finerOf⟩

theorem Cautious.bind {first : Attempt σ V α} {next : α → Attempt σ V β}
    (here : Cautious host first) (rest : ∀ a, Cautious host (next a)) :
    Cautious host (first >>= next) := by
  constructor
  · intro m
    cases result : (first.run.run m).1 with
    | error violation =>
      rw [run_bind_of_error result]
      exact here.asks m
    | ok a =>
      rw [run_bind_of_ok result]
      exact (here.asks m).trans ((rest a).asks _)
  · intro m violation failed
    cases result : (first.run.run m).1 with
    | error other =>
      rw [run_bind_of_error result] at failed
      cases failed
      exact here.genuine m _ result
    | ok a =>
      rw [run_bind_of_ok result] at failed
      exact (rest a).genuine _ violation failed

theorem FailsEarly.bind {first : Attempt σ V α} {next : α → Attempt σ V β}
    (here : Cautious host first) (rest : ∀ a, FailsEarly host (next a)) :
    FailsEarly host (first >>= next) := by
  intro m violation failed
  cases result : (first.run.run m).1 with
  | error other =>
    rw [run_bind_of_error result] at failed ⊢
    cases failed
    exact here.failsEarly m _ result
  | ok a =>
    rw [run_bind_of_ok result] at failed ⊢
    obtain ⟨genuine, asks⟩ := rest a _ violation failed
    exact ⟨genuine, (here.asks m).trans asks⟩

end Attempt

namespace Analysis
open Run Attempt
variable (analysis : Analysis σ γ V)

private theorem typeValue_onlyAsks (tree : Tree) (m : Memory σ V) :
    m.OnlyAsks analysis.host ((analysis.typeValue tree).run m).2 :=
  ⟨rfl, rfl, [tree], rfl⟩

private theorem valueOf?_onlyAsks (tree : Option Tree) (m : Memory σ V) :
    m.OnlyAsks analysis.host ((valueOf? analysis.typeValue tree).run m).2 := by
  cases tree with
  | none => exact .refl m
  | some tree => exact analysis.typeValue_onlyAsks tree m

private theorem note_onlyAsks (event : Event V) (m : Memory σ V) :
    m.OnlyAsks analysis.host ((note event).run m).2 :=
  ⟨rfl, rfl, [], rfl⟩

variable [Domain V]

private theorem readValue_cautious (node : Node) (store : Store V) (path : Path) :
    Cautious analysis.host (analysis.readValue node store path) := by
  unfold readValue
  refine Cautious.bind (.lift (analysis.valueOf?_onlyAsks node.tree)) fun declared => ?_
  exact .finerOf declared (store.get? path)

private theorem invoke_failsEarly (node : Node) (call : Call) (incoming : Flow V) :
    FailsEarly analysis.host (analysis.invoke node call incoming) := by
  unfold invoke
  refine FailsEarly.bind (analysis.readValue_cautious node _ _) fun value => ?_
  -- nothing is compared once the callee is asked about
  refine Infallible.failsEarly ?_
  refine Infallible.bind (.lift _) fun calleePure => ?_
  refine Infallible.bind (.lift _) fun store => ?_
  exact Infallible.bind (.lift _) fun stores => .pure _

private theorem typeTest_cautious (node : Node) (operand : Operand) (tested : Tree)
    (values : Id .node → Option V) (incoming : Flow V) :
    Cautious analysis.host (analysis.typeTest node operand tested values incoming) := by
  unfold typeTest
  refine Cautious.bind (.lift (analysis.valueOf?_onlyAsks _)) fun _ => ?_
  refine Cautious.bind (.lift (analysis.typeValue_onlyAsks tested)) fun testedValue => ?_
  refine Cautious.bind (.finerOf _ _) fun value => ?_
  cases value with
  | none => exact .pure _
  | some refined =>
    dsimp only
    split
    · exact Cautious.bind (.lift (analysis.note_onlyAsks _)) fun _ => .pure _
    · exact .pure _

variable [DecidableEq V]

private theorem equate_cautious (branch : Branch) (operand : Operand) (value other : Option V)
    (flow : Flow V) :
    Cautious analysis.host (equate (σ := σ) branch operand value other flow) := by
  unfold equate
  split
  · exact .pure flow
  · refine Cautious.bind (.finerOf _ _) fun refined => ?_
    cases refined with
    | none => exact .pure flow
    | some refined =>
      exact Cautious.bind (.lift (analysis.note_onlyAsks _)) fun _ => .pure _

/-- The first of two operands may have taken over a value before the second fails to, but what it
took over is in the flow that is given up. -/
private theorem comparison_cautious (branch : Branch) (node : Node) (left right : Operand)
    (values : Id .node → Option V) (incoming : Flow V) :
    Cautious analysis.host (analysis.comparison branch node left right values incoming) := by
  unfold comparison
  refine Cautious.bind (.lift (analysis.valueOf?_onlyAsks _)) fun value => ?_
  refine Cautious.bind (analysis.equate_cautious branch right _ _ incoming) fun flow => ?_
  refine Cautious.bind (analysis.equate_cautious branch left _ _ flow) fun flow => ?_
  exact .pure _

theorem step_failsEarly (node : Node) (values : Id .node → Option V) (incoming : Flow V) :
    FailsEarly analysis.host (analysis.step node values incoming) := by
  unfold step
  refine FailsEarly.bind (.lift (analysis.note_onlyAsks _)) fun _ => ?_
  cases node.operation with
  | assign target source => exact (Infallible.bind (.lift _) fun _ => .pure _).failsEarly
  | update target source =>
    refine Infallible.failsEarly (Infallible.bind (.lift _) fun value => ?_)
    exact Infallible.bind (.lift _) fun _ => .pure _
  | readField path | readVariable path =>
    exact (Cautious.bind (analysis.readValue_cautious node _ path) fun _ => .pure _).failsEarly
  | equal left right =>
    exact (analysis.comparison_cautious .whenTrue node left right values incoming).failsEarly
  | notEqual left right =>
    exact (analysis.comparison_cautious .whenFalse node left right values incoming).failsEarly
  | negate operand => exact (Infallible.bind (.lift _) fun _ => .pure _).failsEarly
  | choose condition whenTrue whenFalse => exact (Infallible.pure _).failsEarly
  | typeTest operand tested =>
    exact (analysis.typeTest_cautious node operand tested values incoming).failsEarly
  | invoke call => exact analysis.invoke_failsEarly node call incoming
  | case switched => exact (Infallible.pure _).failsEarly
  | declare path => exact (Infallible.pure _).failsEarly
  | other => exact (Infallible.bind (.lift _) fun _ => .pure _).failsEarly

theorem step_succeeds (decides : Domain.Decides V) (node : Node) (values : Id .node → Option V)
    (incoming : Flow V) (m : Memory σ V) :
    ∃ outcome, ((analysis.step node values incoming).run.run m).1 = .ok outcome := by
  cases result : ((analysis.step node values incoming).run.run m).1 with
  | ok outcome => exact ⟨outcome, rfl⟩
  | error violation =>
    have genuine := (analysis.step_failsEarly node values incoming m violation result).1
    exact absurd genuine (decides.not_isGenuine violation)

end Analysis

/-- Asked in states that are alike, the host answers alike and is left in states that are alike. Asked
for the value of a tree in a resting state, it is left in a resting state that is alike. -/
structure Host.Settles (host : Host σ γ V) (alike : σ → σ → Prop) (resting : σ → Prop) : Prop where
  equivalence : Equivalence alike
  attend (tree : Option (Id .tree)) : Congruent alike (host.attend tree)
  typeValue (tree : Tree) : Congruent alike (host.typeValue tree)
  boundValue (tree : Tree) : Congruent alike (host.boundValue tree)
  supports (qualifier : String) : Congruent alike (host.supports qualifier)
  meaning (qualifier : String) : Congruent alike (host.meaning qualifier)
  declarationScope (method : Method) : Congruent alike (host.declarationScope method)
  callScope (call : Call) : Congruent alike (host.callScope call)
  resolve (expression : String) (scope : γ) : Congruent alike (host.resolve expression scope)
  fieldValues : Congruent alike host.fieldValues
  isSideEffectFree (method : Id .method) : Congruent alike (host.isSideEffectFree method)
  rests (tree : Tree) (state : σ) : resting state →
    resting (host.attended state tree) ∧ alike (host.attended state tree) state

private theorem Host.Settles.foldl_attended {host : Host σ γ V} {alike : σ → σ → Prop}
    {resting : σ → Prop} (settles : host.Settles alike resting) (trees : List Tree) {state : σ}
    (rests : resting state) : alike (trees.foldl host.attended state) state := by
  induction trees generalizing state with
  | nil => exact settles.equivalence.refl state
  | cons tree trees ih =>
    obtain ⟨rested, same⟩ := settles.rests tree state rests
    exact settles.equivalence.trans (ih rested) same

/-- Memories that differ at most in what was logged and in states of the host that are alike. -/
structure Memory.Resembles (alike : σ → σ → Prop) (m n : Memory σ V) : Prop where
  host : alike m.host n.host
  resolutions : m.resolutions = n.resolutions
  complaints : m.complaints = n.complaints

private theorem Memory.OnlyAsks.resembles {host : Host σ γ V} {alike : σ → σ → Prop}
    {resting : σ → Prop} {m after : Memory σ V} (asks : m.OnlyAsks host after)
    (settles : host.Settles alike resting) (rests : resting m.host) :
    after.Resembles alike m := by
  obtain ⟨trees, asked⟩ := asks.asked
  refine ⟨?_, asks.resolutions, asks.complaints⟩
  rw [asked]
  exact settles.foldl_attended trees rests

namespace Analysis
open Run
variable {analysis : Analysis σ γ V} {alike : σ → σ → Prop} {resting : σ → Prop}

private theorem ask_agrees {query : StateM σ α} (congruent : Host.Congruent alike query) :
    Agrees (V := V) (Memory.Resembles alike) (ask query) := by
  intro m n same
  obtain ⟨answers, after⟩ := congruent m.host n.host same.host
  exact ⟨answers, after, same.resolutions, same.complaints⟩

section
variable (settles : analysis.host.Settles alike resting)
include settles

private theorem respects_resembles : analysis.Respects (Memory.Resembles alike) where
  typeValue := analysis.attending_agrees (fun tree => ask_agrees (settles.attend tree))
    fun tree => ask_agrees (settles.typeValue tree)
  boundValue := analysis.attending_agrees (fun tree => ask_agrees (settles.attend tree))
    fun tree => ask_agrees (settles.boundValue tree)
  meaning qualifier := ask_agrees (settles.meaning qualifier)
  fieldValues := ask_agrees settles.fieldValues
  isSideEffectFree method := ask_agrees (settles.isSideEffectFree method)
  note _ _ _ same := ⟨rfl, same.host, same.resolutions, same.complaints⟩

private theorem resolvesAlike_resembles (site : Site) {build : StateM σ γ}
    (built : Host.Congruent alike build) :
    analysis.ResolvesAlike (Memory.Resembles alike) site build := by
  apply analysis.resolvesAlike_of_agrees
  case known => exact fun _ _ same => same.resolutions
  case remember => exact fun _ _ same _ => ⟨same.host, rfl, same.complaints⟩
  case supported => exact fun qualifier => ask_agrees (settles.supports qualifier)
  case built => exact ask_agrees built
  case resolved => exact fun expression scope => ask_agrees (settles.resolve expression scope)

variable [Domain V] [DecidableEq V]

theorem answer_agrees (request : Request V) :
    Agrees (Memory.Resembles alike) (analysis.answer request) := by
  cases request with
  | enter unit parameters =>
    have forgets : Agrees (Memory.Resembles alike) (forgetCalls (σ := σ) (V := V)) :=
      fun _ _ same => ⟨rfl, same.host, congrArg ResolutionMemory.forgetCalls same.resolutions,
        same.complaints⟩
    have complains : ComplainsAlike (Memory.Resembles (σ := σ) (V := V) alike) :=
      complainsAlike_of_complaints (fun _ _ same => same.complaints)
        fun _ _ same _ => ⟨same.host, same.resolutions, rfl⟩
    have declared : ∀ method, unit = .method method →
        analysis.ResolvesAlike (Memory.Resembles alike) (.declaration method.id)
          (analysis.host.declarationScope method) :=
      fun method _ => resolvesAlike_resembles settles _ (settles.declarationScope method)
    have entered := entryStore_keeps (respects_resembles settles) Store.isInvariant_true complains
      forgets declared parameters
    refine Coupled.bind entered.coupled ?_
    rintro store _ rfl
    exact .pure rfl
  | step node values incoming =>
    have flows : incoming.Holds fun _ => True := fun _ => trivial
    have stepped := step_keeps (respects_resembles settles) Store.isInvariant_true
      (fun call _ => resolvesAlike_resembles settles (.call node.id call.method)
        (settles.callScope call)) flows values
    refine Coupled.bind (Keeps.coupled stepped) ?_
    rintro result _ rfl
    exact .pure rfl
  | takeComplaints =>
    intro m n same
    refine ⟨?_, same.host, same.resolutions, rfl⟩
    exact congrArg (fun complaints : SortedMap Question Diagnostic =>
      Answer.complaints complaints.values) same.complaints

theorem session_agrees (requests : List (Request V)) :
    Agrees (Memory.Resembles alike) (analysis.session requests) := by
  induction requests with
  | nil => exact Coupled.pure rfl
  | cons request requests ih => exact session_cons_coupled (answer_agrees settles request) ih

end

/-- A step that fails names two values between which the domain does not decide. It leaves
resolutions and complaints as they were, and a host that attends to no tree, so that every later
session goes as if the step had not been tried. In a domain that always decides, such as that of a
hierarchy, no step fails. -/
theorem step_fails_atomically [Domain V] [DecidableEq V] (analysis : Analysis σ γ V) (node : Node)
    (values : Id .node → Option V) (incoming : Flow V) (memory : Memory σ V) :
    let stepped := (analysis.step node values incoming).run.run memory
    (∀ violation, stepped.1 = .error violation →
      Domain.finer violation.first violation.second (some violation.first) = none ∧
      stepped.2.resolutions = memory.resolutions ∧ stepped.2.complaints = memory.complaints ∧
      (∀ current, analysis.host.AttendsTo current → current memory.host = none →
        current stepped.2.host = none) ∧
      ∀ alike resting, analysis.host.Settles alike resting → resting memory.host →
        ∀ requests, ((analysis.session requests).run stepped.2).1 =
          ((analysis.session requests).run memory).1) ∧
    (Domain.Decides V → ∃ outcome, stepped.1 = .ok outcome) ∧
    ∀ (H : Hierarchy) (analysis : Analysis σ γ (Qualifier H)) (node : Node)
      (values : Id .node → Option (Qualifier H)) (incoming : Flow (Qualifier H))
      (memory : Memory σ (Qualifier H)),
      ∃ outcome, ((analysis.step node values incoming).run.run memory).1 = .ok outcome := by
  intro stepped
  refine ⟨fun violation failed => ?_, fun decides => ?_,
    fun H analysis => analysis.step_succeeds Qualifier.decides⟩
  · obtain ⟨genuine, asks⟩ := analysis.step_failsEarly node values incoming memory violation failed
    obtain ⟨trees, asked⟩ := asks.asked
    refine ⟨genuine, asks.resolutions, asks.complaints, fun current attends before => ?_,
      fun alike resting settles rests requests => ?_⟩
    · rw [asked]
      exact attends.foldl_attended trees before
    · exact (session_agrees settles requests _ _ (asks.resembles settles rests)).1
  · exact analysis.step_succeeds decides node values incoming memory

end Analysis

def Recorded.attending (recorded : Recorded σ) : Option (Id .tree) :=
  recorded.queries.foldl (fun current query =>
    match query with
    | .attend tree => tree
    | _ => current) none

private theorem Host.recorded_attendsTo (host : Host σ γ V) :
    host.recorded.AttendsTo Recorded.attending := by
  intro tree recorded
  change (recorded.queries ++ [Query.attend tree]).foldl _ _ = tree
  rw [List.foldl_append]
  rfl

private theorem HostTable.recorded_settles (table : HostTable V) :
    table.host.recorded.Settles (fun _ _ => True) fun _ => True where
  equivalence := ⟨fun _ => trivial, fun _ => trivial, fun _ _ => trivial⟩
  attend _ _ _ _ := ⟨rfl, trivial⟩
  typeValue _ _ _ _ := ⟨rfl, trivial⟩
  boundValue _ _ _ _ := ⟨rfl, trivial⟩
  supports _ _ _ _ := ⟨rfl, trivial⟩
  meaning _ _ _ _ := ⟨rfl, trivial⟩
  declarationScope _ _ _ _ := ⟨rfl, trivial⟩
  callScope _ _ _ _ := ⟨rfl, trivial⟩
  resolve _ _ _ _ _ := ⟨rfl, trivial⟩
  fieldValues _ _ _ := ⟨rfl, trivial⟩
  isSideEffectFree _ _ _ _ := ⟨rfl, trivial⟩
  rests _ _ _ := ⟨trivial, trivial⟩

namespace Analysis

/-- Qualifiers of which one pair is not compared. -/
abbrev Wary := Guarded .diamond [("Right", "Left")]

def wary (name : String) : Option Wary := (Hierarchy.diamond.qualifier? name).map Guarded.mk

def waryAnalysis : Analysis (Recorded Unit) TableScope Wary where
  host := (HostTable.host { meaning := wary }).recorded
  contracts _ := {}
  assumptions := {}

/-- The variable on the right takes over the value on the left; then that on the left would have to
choose between the value on the right and the one that the branch knows. -/
theorem step_fails_atomically_second :
    let left : Wary := ⟨.left⟩
    let right : Wary := ⟨.right⟩
    let operand (id : Nat) : Operand := ⟨⟨id⟩, .var ⟨⟨id⟩, "x"⟩, .declared, none⟩
    let node : Node := ⟨⟨2⟩, some ⟨⟨3⟩, ⟨0, 0, 0⟩, true⟩, .equal (operand 0) (operand 1)⟩
    let values (id : Id .node) : Option Wary := if id = ⟨0⟩ then some left else some right
    let known : Store Wary := (Store.empty {}).record (operand 0).path left
    let stepped := (waryAnalysis.step node values (.plain known)).run.run { host := ⟨(), []⟩ }
    stepped.1 = .error ⟨right, left⟩ ∧ Domain.finer right left (some right) = none ∧
      stepped.2.host.queries.length = 3 ∧ stepped.2.host.attending = none ∧
      ∀ requests, ((waryAnalysis.session requests).run stepped.2).1 =
        ((waryAnalysis.session requests).run { host := ⟨(), []⟩ }).1 := by
  intro left right operand node values known stepped
  have failed : stepped.1 = .error ⟨right, left⟩ := by rfl
  have asked : stepped.2.host.queries.length = 3 := by decide +kernel
  obtain ⟨undecided, -, -, attends, later⟩ :=
    (waryAnalysis.step_fails_atomically node values (.plain known) { host := ⟨(), []⟩ }).1
      _ failed
  exact ⟨failed, undecided, asked, attends _ (Host.recorded_attendsTo _) rfl,
    later _ _ (HostTable.recorded_settles _) trivial⟩

end Analysis
end QualifierFlow
