import QualifierFlow.Proofs.Hierarchy.Join
import QualifierFlow.Proofs.Path.Parts
import QualifierFlow.Store.Lookup

/-! Facts that outlive what they rest on. An assignment or a call drops facts by the outermost kind of
their paths, while a fact can rest on a changed location at any depth. For each operation that
forgets, the theorems below say of which stores it leaves no stale fact, and show one of which it
does leave some. -/
namespace QualifierFlow

namespace Path

def properSubpaths (path : Path) : List Path := path.subpaths.tail

def passesThrough (path : Path) (f : Field) : Bool :=
  path.properSubpaths.any (·.field? == some f)

def hasElement (path : Path) : Bool := path.subpaths.any isElement

def hasCall (path : Path) : Bool := path.subpaths.any isCall

/-- The parts that are read from memory or computed, as opposed to named. -/
def isComputed (path : Path) : Bool := path.isField || path.isCall || path.isElement

private theorem isField_iff {path : Path} : path.isField = true ↔ ∃ f, path.field? = some f := by
  cases path <;> simp [isField, field?]

theorem mayAlias_iff {path target : Path} :
    path.mayAlias target = true ↔ ∃ f, path.field? = some f ∧ target.field? = some f := by
  rw [mayAlias, Bool.and_eq_true, isField_iff, beq_iff_eq]
  constructor
  · rintro ⟨⟨f, access⟩, same⟩
    exact ⟨f, access, same ▸ access⟩
  · rintro ⟨f, access, access'⟩
    exact ⟨⟨f, access⟩, access.trans access'.symm⟩

private theorem mayAlias_field {path owner : Path} {f : Field} :
    path.mayAlias (.field owner f) = true ↔ path.field? = some f := by
  simp [mayAlias_iff, field?]

private theorem survivesUnnamed_field {path owner : Path} {f : Field} :
    path.survivesUnnamed (.field owner f) = true ↔
      path.isElement = false ∧ path.isCall = false ∧ path.field? ≠ some f := by
  cases path <;> simp [survivesUnnamed, isElement, isCall, field?]

private theorem survivesUnnamed_element {path array index : Path} :
    path.survivesUnnamed (.element array index) = true ↔
      path.isElement = false ∧ path.isCall = false := by
  cases path <;> simp [survivesUnnamed, isElement, isCall]

private theorem subpaths_of_not_isComputed {path : Path} (named : path.isComputed = false) :
    path.subpaths = [path] := by
  cases path <;> simp_all [isComputed, isField, isCall, isElement, subpaths]

end Path

namespace Store
variable {V : Type}

theorem contains_assignUnnamed {store : Store V} {target path : Path} :
    (store.assignUnnamed target).contains path = true ↔
      path ≠ target ∧ path.survivesUnnamed target = true ∧ store.contains path = true := by
  rw [contains_eq_isSome, contains_eq_isSome, get?_assignUnnamed]
  split <;> simp_all

theorem contains_afterCall {store : Store V} {call : Call} {calleePure : Bool} {result : Option V}
    {path : Path} (apart : path ≠ call.path) (invalidates : store.trustsCallee calleePure = false) :
    (store.afterCall call calleePure result).contains path = true ↔
      path.survivesEffects = true ∧ store.contains path = true := by
  rw [contains_eq_isSome, contains_eq_isSome, get?_afterCall_of_ne store call calleePure result apart,
    invalidates, Bool.false_or]
  split <;> simp_all

theorem contains_assign [Domain V] {store : Store V} {owner path : Path} {f : Field}
    {value : Option V} (apart : path ≠ .field owner f) :
    (store.assign (.field owner f) value).contains path = true ↔
      (path.mentions (.field owner f) = false ∧ (path.field? = some f → value.isSome = true)) ∧
        store.contains path = true := by
  rw [contains_eq_isSome, contains_eq_isSome, get?_assign_of_ne store value apart]
  cases store.get? path with
  | none => simp
  | some old =>
    rw [Option.bind_some, assigned, if_neg apart, ← @Path.mayAlias_field path owner f]
    by_cases mentioned : path.mentions (.field owner f) = true
    · simp [mentioned]
    · by_cases aliased : path.mayAlias (.field owner f) = true
      · simp [mentioned, aliased]
      · simp [mentioned, aliased]

/-- No fact but the one about the target is about a path that passes through the field. -/
def IsClear (store : Store V) (f : Field) (target : Path) : Prop :=
  ∀ path, store.contains path = true → path ≠ target → path.passesThrough f = false

private theorem isClear_iff_of_contains {store after : Store V} {f : Field} {target : Path}
    {survives : Path → Prop}
    (kept : ∀ path, path ≠ target →
      (after.contains path = true ↔ survives path ∧ store.contains path = true)) :
    after.IsClear f target ↔ ∀ path, store.contains path = true → path ≠ target →
      path.passesThrough f = true → ¬ survives path := by
  constructor
  · intro clear path known apart through outlives
    have remains : after.contains path = true := (kept path apart).2 ⟨outlives, known⟩
    have clean : path.passesThrough f = false := clear path remains apart
    exact Bool.false_ne_true (clean.symm.trans through)
  · intro condition path remains apart
    obtain ⟨outlives, known⟩ := (kept path apart).1 remains
    rw [Bool.eq_false_iff]
    intro through
    exact condition path known apart through outlives

theorem isClear_assign_iff [Domain V] {store : Store V} {owner : Path} {f : Field}
    {value : Option V} :
    (store.assign (.field owner f) value).IsClear f (.field owner f) ↔
      ∀ path, store.contains path = true → path ≠ .field owner f → path.passesThrough f = true →
        path.mentions (.field owner f) = true ∨ path.field? = some f ∧ value = none := by
  have dropped : ∀ path : Path, ¬ (path.mentions (.field owner f) = false ∧
      (path.field? = some f → value.isSome = true)) ↔
        path.mentions (.field owner f) = true ∨ path.field? = some f ∧ value = none := by
    intro path
    rw [Decidable.not_and_iff_or_not, Bool.not_eq_false, Decidable.not_imp_iff_and_not,
      Option.not_isSome_iff_eq_none]
  rw [isClear_iff_of_contains fun path apart => contains_assign apart]
  simp only [dropped]

theorem isClear_assignUnnamed_iff {store : Store V} {owner : Path} {f : Field} :
    (store.assignUnnamed (.field owner f)).IsClear f (.field owner f) ↔
      ∀ path, store.contains path = true → path ≠ .field owner f → path.passesThrough f = true →
        path.isElement = true ∨ path.isCall = true ∨ path.field? = some f := by
  have dropped : ∀ path : Path, ¬ path.survivesUnnamed (.field owner f) = true ↔
      path.isElement = true ∨ path.isCall = true ∨ path.field? = some f := by
    intro path
    rw [Path.survivesUnnamed_field, Decidable.not_and_iff_or_not, Decidable.not_and_iff_or_not,
      Bool.not_eq_false, Bool.not_eq_false, Decidable.not_not]
  rw [isClear_iff_of_contains fun path apart => contains_assignUnnamed.trans (and_iff_right apart)]
  simp only [dropped]

/-- An assignment to a field drops what mentions its target and weakens or drops the accesses of the
field itself. Deeper accesses through other owners stay known, though these may be aliases: the
store is left clear exactly if it knew of none. -/
theorem isClear_field_assignment_iff [Domain V] (store : Store V) (owner : Path) (f : Field)
    (value : Option V) :
    ((store.assign (.field owner f) value).IsClear f (.field owner f) ↔
      ∀ path, store.contains path = true → path ≠ .field owner f → path.passesThrough f = true →
        path.mentions (.field owner f) = true ∨ path.field? = some f ∧ value = none) ∧
    ((store.assignUnnamed (.field owner f)).IsClear f (.field owner f) ↔
      ∀ path, store.contains path = true → path ≠ .field owner f → path.passesThrough f = true →
        path.isElement = true ∨ path.isCall = true ∨ path.field? = some f) :=
  ⟨isClear_assign_iff, isClear_assignUnnamed_iff⟩

/-- What is known of `b.f.g` stays known when `a.f` is assigned, with a name or without. -/
theorem aliased_access_survives :
    let f : Field := ⟨⟨0⟩, "f", false⟩
    let target : Path := .field (.var ⟨⟨0⟩, "a"⟩) f
    let inner : Path := .field (.field (.var ⟨⟨1⟩, "b"⟩) f) ⟨⟨1⟩, "g", false⟩
    let store : Store (Qualifier .diamond) := (empty {}).record inner .left
    ¬ (store.assign target (some .right)).IsClear f target ∧
      ¬ (store.assignUnnamed target).IsClear f target := by
  intro f target inner store
  have through : inner.passesThrough f = true := by decide
  constructor
  · intro clear
    have survives : (store.assign target (some .right)).contains inner = true := by decide
    exact Bool.false_ne_true ((clear inner survives (by decide)).symm.trans through)
  · intro clear
    have survives : (store.assignUnnamed target).contains inner = true := by decide
    exact Bool.false_ne_true ((clear inner survives (by decide)).symm.trans through)

private theorem contains_call_assignUnnamed {store : Store V} {owner path : Path} {f : Field}
    (call : path.isCall = true) : (store.assignUnnamed (.field owner f)).contains path = false := by
  rw [Bool.eq_false_iff]
  intro survives
  have outlives : path.survivesUnnamed (.field owner f) = true :=
    (contains_assignUnnamed.1 survives).2.1
  have other : path.isCall = false := (Path.survivesUnnamed_field.1 outlives).2.1
  exact Bool.false_ne_true (other.symm.trans call)

private theorem contains_call_assign [Domain V] {store : Store V} {owner path : Path} {f : Field}
    {value : Option V} (call : path.isCall = true) :
    (store.assign (.field owner f) value).contains path = true ↔
      path.mentions (.field owner f) = false ∧ store.contains path = true := by
  have apart : path ≠ .field owner f := fun same => by
    rw [same] at call
    exact Bool.false_ne_true call
  have access : path.field? = none := by
    cases path <;> simp_all [Path.isCall, Path.field?]
  rw [contains_assign apart, access]
  simp

/-- What a call gives may depend on any field, so that an assignment to a field that no path names
exactly forgets all calls. One to a named field forgets those only that mention it: it is as careful
exactly if all known calls do. -/
theorem forgets_calls_field_assignment_iff [Domain V] (store : Store V) (owner : Path) (f : Field)
    (value : Option V) :
    (∀ path, path.isCall = true → (store.assignUnnamed (.field owner f)).contains path = false) ∧
    ((∀ path, path.isCall = true → store.contains path = true →
        (store.assignUnnamed (.field owner f)).contains path = false →
        (store.assign (.field owner f) value).contains path = false) ↔
      ∀ path, path.isCall = true → store.contains path = true →
        path.mentions (.field owner f) = true) := by
  have all : ∀ path, path.isCall = true →
      (store.assignUnnamed (.field owner f)).contains path = false :=
    fun path call => contains_call_assignUnnamed call
  refine ⟨all, ?_⟩
  constructor
  · intro careful path call known
    have forgotten := careful path call known (all path call)
    rw [Bool.eq_false_iff, ne_eq, contains_call_assign call] at forgotten
    exact Decidable.byContradiction fun silent => forgotten ⟨Bool.eq_false_iff.2 silent, known⟩
  · intro mentioned path call known _
    rw [Bool.eq_false_iff, ne_eq, contains_call_assign call]
    intro kept
    exact Bool.false_ne_true (kept.1.symm.trans (mentioned path call known))

/-- What is known of `this.m()` stays known when `a.f` is assigned by name, and only then. -/
theorem call_survives_named_assignment :
    let target : Path := .field (.var ⟨⟨0⟩, "a"⟩) ⟨⟨0⟩, "f", false⟩
    let call : Path := .call (.self ⟨0⟩) ⟨0⟩ []
    let store : Store (Qualifier .diamond) := (empty {}).record call .left
    ¬ ∀ path, path.isCall = true → store.contains path = true →
      (store.assignUnnamed target).contains path = false →
      (store.assign target (some .right)).contains path = false := by
  intro target call store careful
  have survives : (store.assign target (some .right)).contains call = true := by decide
  have forgotten := careful call rfl (by decide) (by decide)
  exact Bool.false_ne_true (forgotten.symm.trans survives)

/-- A write to an array element drops what is known of elements and calls. Facts about fields stay
known, also those of objects found through an element: no fact that reads an element is left
exactly if no field of such an object was known. -/
theorem hasElement_element_assignment_iff (store : Store V) (array index : Path) :
    (∀ path, (store.assignUnnamed (.element array index)).contains path = true →
      path.hasElement = false) ↔
    ∀ path, store.contains path = true → path.isField = true → path.hasElement = false := by
  constructor
  · intro clear path known field
    have apart : path ≠ .element array index := fun same => by
      rw [same] at field
      exact Bool.false_ne_true field
    have outlives : path.survivesUnnamed (.element array index) = true := by
      refine Path.survivesUnnamed_element.2 ?_
      cases path <;> simp_all [Path.isField, Path.isElement, Path.isCall]
    exact clear path (contains_assignUnnamed.2 ⟨apart, outlives, known⟩)
  · intro condition path survives
    obtain ⟨_, outlives, known⟩ := contains_assignUnnamed.1 survives
    obtain ⟨element, call⟩ := Path.survivesUnnamed_element.1 outlives
    by_cases field : path.isField = true
    · exact condition path known field
    · have named : path.isComputed = false := by simp [Path.isComputed, field, element, call]
      rw [Path.hasElement, Path.subpaths_of_not_isComputed named]
      simpa using element

/-- What is known of `a[j].f` stays known when `a[i]` is assigned. -/
theorem field_of_element_survives :
    let array : Path := .var ⟨⟨0⟩, "a"⟩
    let inner : Path := .field (.element array (.var ⟨⟨2⟩, "j"⟩)) ⟨⟨0⟩, "f", false⟩
    let store : Store (Qualifier .diamond) := (empty {}).record inner .left
    ¬ ∀ path, (store.assignUnnamed (.element array (.var ⟨⟨1⟩, "i"⟩))).contains path = true →
      path.hasElement = false := by
  intro array inner store clear
  have survives : (store.assignUnnamed (.element array (.var ⟨⟨1⟩, "i"⟩))).contains inner = true := by
    decide
  exact Bool.false_ne_true ((clear inner survives).symm.trans (by decide))

/-- A call leaves a fact about the path as it is, the result that it may record left aside. -/
def Spares (store : Store V) (call : Call) (calleePure : Bool) (path : Path) : Prop :=
  ∀ value, ((store.put path value).afterCall call calleePure none).get? path = some value

private theorem spares_iff {store : Store V} {call : Call} {calleePure : Bool} {path : Path}
    (invalidates : store.trustsCallee calleePure = false) (value : V) :
    store.Spares call calleePure path ↔ path.survivesEffects = true := by
  have effect : ∀ value, ((store.put path value).afterCall call calleePure none).get? path =
      if path.survivesEffects then some value else none := by
    intro value
    have distrusts : (store.put path value).trustsCallee calleePure = false := invalidates
    simp only [afterCall, distrusts, Bool.false_eq_true, if_false, get?_keep, get?_put, if_true]
  constructor
  · intro spares
    have kept := spares value
    rw [effect] at kept
    exact Decidable.byContradiction fun dropped => by simp [dropped] at kept
  · intro outlives value
    rw [effect, if_pos outlives]

private theorem survivesEffects_of_mem {path part : Path} (outlives : path.survivesEffects = true)
    (member : part ∈ path.subpaths) (computed : part.isComputed = true) :
    part.survivesEffects = true ↔ part.isCall = false := by
  -- what outlives effects and has computed parts is a stable field
  have stable : part.isStable = true := by
    cases path with
    | field owner f => exact Path.isStable_of_mem outlives member
    | element array index => exact absurd outlives (by simp [Path.survivesEffects])
    | call receiver m arguments => exact absurd outlives (by simp [Path.survivesEffects])
    | var | self | type | unknown =>
      obtain rfl := List.mem_singleton.1 member
      exact absurd computed (by simp [Path.isComputed, Path.isField, Path.isCall, Path.isElement])
  have fixed := Path.hasFixedHead_of_isStable stable
  cases part with
  | field owner f => simpa [Path.survivesEffects, Path.isCall] using stable
  | element array index => exact absurd fixed (by simp [Path.hasFixedHead])
  | call receiver m arguments => simp [Path.survivesEffects, Path.isCall]
  | var | self | type | unknown =>
    exact absurd computed (by simp [Path.isComputed, Path.isField, Path.isCall, Path.isElement])

private theorem spares_parts_iff {store : Store V} {call : Call} {calleePure : Bool} {path : Path}
    (invalidates : store.trustsCallee calleePure = false) (known : store.contains path = true)
    (outlives : path.survivesEffects = true) :
    (∀ part ∈ path.subpaths, part.isComputed = true → store.Spares call calleePure part) ↔
      path.hasCall = false := by
  obtain ⟨value, _⟩ := Option.isSome_iff_exists.1 known
  have spares : ∀ part ∈ path.subpaths, part.isComputed = true →
      (store.Spares call calleePure part ↔ part.isCall = false) := fun part member computed =>
    (spares_iff invalidates value).trans (survivesEffects_of_mem outlives member computed)
  rw [Path.hasCall, List.any_eq_false]
  constructor
  · intro all part member isCall
    have computed : part.isComputed = true := by simp [Path.isComputed, isCall]
    have spared := (spares part member computed).1 (all part member computed)
    exact Bool.false_ne_true (spared.symm.trans isCall)
  · intro none part member computed
    exact (spares part member computed).2 (Bool.eq_false_iff.2 (none part member))

/-- A call that may have side effects drops what it knows of calls, but takes a final field to be
stable also where its owner is found by a call. What outlives the call rests on nothing that the
call forgets exactly if no such field was known. -/
theorem spares_parts_call_iff (store : Store V) (call : Call) (calleePure : Bool)
    (result : Option V) (invalidates : store.trustsCallee calleePure = false) :
    (∀ path, (store.afterCall call calleePure result).contains path = true → path ≠ call.path →
      ∀ part ∈ path.subpaths, part.isComputed = true → store.Spares call calleePure part) ↔
    ∀ path, store.contains path = true → path ≠ call.path → path.survivesEffects = true →
      path.hasCall = false := by
  constructor
  · intro all path known apart outlives
    have survives : (store.afterCall call calleePure result).contains path = true :=
      (contains_afterCall apart invalidates).2 ⟨outlives, known⟩
    exact (spares_parts_iff invalidates known outlives).1 (all path survives apart)
  · intro condition path survives apart
    obtain ⟨outlives, known⟩ := (contains_afterCall apart invalidates).1 survives
    exact (spares_parts_iff invalidates known outlives).2 (condition path known apart outlives)

theorem spares_parts_final_field :
    let path : Path := .field (.self ⟨0⟩) ⟨⟨0⟩, "f", true⟩
    let call : Call := ⟨⟨0⟩, .unknown ⟨0⟩, []⟩
    let store : Store (Qualifier .diamond) := (empty {}).record path .left
    store.trustsCallee false = false ∧
      ∀ other, (store.afterCall call false none).contains other = true → other ≠ call.path →
        ∀ part ∈ other.subpaths, part.isComputed = true → store.Spares call false part := by
  intro path call store
  have invalidates : store.trustsCallee false = false := by decide
  refine ⟨invalidates, (spares_parts_call_iff store call false none invalidates).2 ?_⟩
  intro other known _ _
  have same : other = path := by
    rw [contains_eq_isSome, get?_record, get?_empty] at known
    exact Decidable.byContradiction fun apart => by simp [apart] at known
  exact same ▸ (by decide : path.hasCall = false)

/-- What is known of `this.m().f` stays known over a call that forgets what is known of `this.m()`. -/
theorem field_of_call_survives :
    let inner : Path := .call (.self ⟨0⟩) ⟨0⟩ []
    let path : Path := .field inner ⟨⟨0⟩, "f", true⟩
    let call : Call := ⟨⟨1⟩, .unknown ⟨0⟩, []⟩
    let store : Store (Qualifier .diamond) := (empty {}).record path .left
    store.trustsCallee false = false ∧
      ¬ ∀ other, (store.afterCall call false none).contains other = true → other ≠ call.path →
        ∀ part ∈ other.subpaths, part.isComputed = true → store.Spares call false part := by
  intro inner path call store
  refine ⟨by decide, fun all => ?_⟩
  have survives : (store.afterCall call false none).contains path = true := by decide
  have spared := all path survives (by decide) inner (by decide) (by decide) .left
  exact absurd spared (by decide)

end Store
end QualifierFlow
