import Mathlib.Logic.Relation
import Mathlib.Order.Defs.Unbundled
import QualifierFlow.Path.Containment

/-! What a path is made of. A path has direct parts, and it mentions what can be reached by going from
path to part any number of times. What unknown parts a path has, whether it is stable and whether
facts about it may be recorded is found part by part, and agrees with what the path mentions. -/
namespace QualifierFlow.Path

/-- The paths that a path is directly made of. -/
def parts : Path → List Path
  | .var _ | .self _ | .type _ | .unknown _ => []
  | .field owner _ => [owner]
  | .element array index => [array, index]
  | .call receiver _ arguments => receiver :: arguments

private theorem subpathsOfAll_eq_flatMap (paths : List Path) :
    subpathsOfAll paths = paths.flatMap subpaths := by
  induction paths with
  | nil => rfl
  | cons path rest ih => rw [subpathsOfAll, ih, List.flatMap_cons]

private theorem subpaths_eq (path : Path) :
    path.subpaths = path :: path.parts.flatMap subpaths := by
  cases path <;> simp [subpaths, parts, subpathsOfAll_eq_flatMap]

theorem mentions_eq (path other : Path) :
    path.mentions other = (path == other || path.parts.any (·.mentions other)) := by
  rw [Bool.eq_iff_iff, mentions_iff, subpaths_eq, List.mem_cons, List.mem_flatMap, Bool.or_eq_true,
    beq_iff_eq, List.any_eq_true, eq_comm]
  simp only [mentions_iff]

theorem hasUnknown_eq (path : Path) :
    path.hasUnknown = (path.isUnknown || path.parts.any hasUnknown) := by
  rw [hasUnknown, subpaths_eq, List.any_cons, List.any_flatMap]
  rfl

theorem isStable_eq (path : Path) :
    path.isStable = (path.hasFixedHead && path.parts.all isStable) := by
  rw [isStable, subpaths_eq, List.all_cons, List.all_flatMap]
  rfl

private theorem length_subpaths_lt {path part : Path} (direct : part ∈ path.parts) :
    part.subpaths.length < path.subpaths.length := by
  have within : part.subpaths.Sublist (path.parts.flatMap subpaths) := by
    rw [List.flatMap_def]
    exact List.sublist_flatten_of_mem (List.mem_map_of_mem direct)
  rw [subpaths_eq path, List.length_cons]
  exact Nat.lt_succ_of_le within.length_le

@[elab_as_elim]
theorem induction_parts {motive : Path → Prop}
    (step : ∀ path, (∀ part ∈ path.parts, motive part) → motive path) (path : Path) :
    motive path := by
  -- on the number of paths that occur in it
  induction size : path.subpaths.length using Nat.strongRecOn generalizing path with
  | ind n ih =>
    exact step path fun part direct => ih _ (size ▸ length_subpaths_lt direct) part rfl

/-- A part at any depth, the path itself included. -/
def IsPartOf (part path : Path) : Prop :=
  Relation.ReflTransGen (fun part path => part ∈ path.parts) part path

theorem mentions_iff_isPartOf {path part : Path} :
    path.mentions part = true ↔ part.IsPartOf path := by
  induction path using induction_parts with
  | step path ih =>
    rw [mentions_eq, Bool.or_eq_true, beq_iff_eq, List.any_eq_true, IsPartOf,
      Relation.ReflTransGen.cases_tail_iff]
    refine or_congr_right (exists_congr fun next => ?_)
    rw [and_comm]
    exact and_congr_left (ih next)

namespace IsPartOf
variable {part path : Path}

private theorem eq_or_length_lt (inside : part.IsPartOf path) :
    part = path ∨ part.subpaths.length < path.subpaths.length := by
  induction inside with
  | refl => exact .inl rfl
  | tail _ direct ih =>
    have smaller := length_subpaths_lt direct
    rcases ih with rfl | less
    · exact .inr smaller
    · exact .inr (Nat.lt_trans less smaller)

theorem antisymm (inside : part.IsPartOf path) (around : path.IsPartOf part) : part = path := by
  rcases inside.eq_or_length_lt with same | less
  · exact same
  · rcases around.eq_or_length_lt with same | less'
    · exact same.symm
    · exact absurd less' (Nat.lt_asymm less)

instance : IsPartialOrder Path IsPartOf where
  refl _ := .refl
  trans _ _ _ := .trans
  antisymm _ _ := antisymm

private theorem isStable (inside : part.IsPartOf path) (stable : path.isStable = true) :
    part.isStable = true := by
  induction inside with
  | refl => exact stable
  | tail _ direct ih =>
    rw [isStable_eq, Bool.and_eq_true, List.all_eq_true] at stable
    exact ih (stable.2 _ direct)

private theorem hasUnknown (inside : part.IsPartOf path) (unknown : part.hasUnknown = true) :
    path.hasUnknown = true := by
  induction inside with
  | refl => exact unknown
  | tail _ direct ih =>
    rw [hasUnknown_eq, Bool.or_eq_true, List.any_eq_true]
    exact .inr ⟨_, direct, ih⟩

end IsPartOf

variable {path part : Path}

theorem mentions_trans {inner : Path} (mentioned : path.mentions part = true)
    (deep : part.mentions inner = true) : path.mentions inner = true := by
  rw [mentions_iff_isPartOf] at mentioned deep ⊢
  exact deep.trans mentioned

theorem isStable_of_mem (stable : path.isStable = true) (member : part ∈ path.subpaths) :
    part.isStable = true :=
  (mentions_iff_isPartOf.1 (mentions_iff.2 member)).isStable stable

theorem hasFixedHead_of_isStable (stable : path.isStable = true) : path.hasFixedHead = true := by
  rw [isStable_eq, Bool.and_eq_true] at stable
  exact stable.1

theorem hasUnknown_iff :
    path.hasUnknown = true ↔ ∃ type, path.mentions (.unknown type) = true := by
  constructor
  · intro unknown
    obtain ⟨part, member, isUnknown⟩ := List.any_eq_true.1 unknown
    cases part with
    | unknown type => exact ⟨type, mentions_iff.2 member⟩
    | _ => exact absurd isUnknown (by simp [Path.isUnknown])
  · rintro ⟨type, mentioned⟩
    exact (mentions_iff_isPartOf.1 mentioned).hasUnknown rfl

private theorem hasUnknown_eq_false_iff :
    path.hasUnknown = false ↔ ∀ type, path.mentions (.unknown type) = false := by
  rw [← Bool.not_eq_true, hasUnknown_iff, not_exists]
  simp only [Bool.not_eq_true]

/-- Only three kinds of parts can be changed from outside: elements, unknown paths and fields that are
not final. -/
theorem isStable_iff : path.isStable = true ↔
    (∀ array index, path.mentions (.element array index) = false) ∧
      (∀ type, path.mentions (.unknown type) = false) ∧
      ∀ owner f, path.mentions (.field owner f) = true → f.isFinal = true := by
  simp only [← Bool.not_eq_true, mentions_iff]
  constructor
  · intro stable
    have fixed : ∀ {part}, part ∈ path.subpaths → part.hasFixedHead = true := fun member =>
      hasFixedHead_of_isStable (isStable_of_mem stable member)
    exact ⟨fun _ _ member => Bool.false_ne_true (fixed member),
      fun _ member => Bool.false_ne_true (fixed member), fun _ _ member => fixed member⟩
  · rintro ⟨elements, unknowns, fields⟩
    refine List.all_eq_true.2 fun part member => ?_
    cases part with
    | element array index => exact absurd member (elements array index)
    | unknown type => exact absurd member (unknowns type)
    | field owner f => exact fields owner f member
    | _ => rfl

theorem isRecordable_iff_mentions : path.isRecordable = true ↔
    path.isElement = false ∧ ∀ type, path.mentions (.unknown type) = false := by
  rw [isRecordable, Bool.and_eq_true, Bool.not_eq_true', Bool.not_eq_true', hasUnknown_eq_false_iff]

private theorem isRecordable_of_isStable (stable : path.isStable = true) :
    path.isRecordable = true := by
  obtain ⟨elements, unknowns, _⟩ := isStable_iff.1 stable
  refine isRecordable_iff_mentions.2 ⟨?_, unknowns⟩
  cases path with
  | element array index =>
    exact absurd (elements array index) (by simp [mem_subpaths_self])
  | _ => rfl

private theorem isRecordable_or_isElement (recordable : path.isRecordable = true)
    (mentioned : path.mentions part = true) :
    part.isRecordable = true ∨ part.isElement = true := by
  obtain ⟨_, unknowns⟩ := isRecordable_iff_mentions.1 recordable
  have unknowns' : ∀ type, part.mentions (.unknown type) = false := by
    intro type
    rw [Bool.eq_false_iff]
    intro deep
    have inside : path.mentions (.unknown type) = true := mentions_trans mentioned deep
    exact Bool.false_ne_true ((unknowns type).symm.trans inside)
  cases element : part.isElement with
  | false => exact .inl (isRecordable_iff_mentions.2 ⟨element, unknowns'⟩)
  | true => exact .inr rfl

/-- What a path mentions are its parts at any depth, which is a partial order, and the predicates of
paths follow it. To have unknown parts is to mention an unknown path; to be stable is to mention
nothing that other code can change, which is handed down to all parts and makes a path recordable; and
a part of a recordable path is recordable as well, or it is an array element. -/
theorem predicates_respect_mentions :
    (∀ path part : Path, path.mentions part = true ↔ part.IsPartOf path) ∧
    IsPartialOrder Path (fun part path => path.mentions part = true) ∧
    ∀ path : Path,
      (path.hasUnknown = true ↔ ∃ type, path.mentions (.unknown type) = true) ∧
      (path.isStable = true ↔
        (∀ array index, path.mentions (.element array index) = false) ∧
        (∀ type, path.mentions (.unknown type) = false) ∧
        ∀ owner f, path.mentions (.field owner f) = true → f.isFinal = true) ∧
      (path.isStable = true →
        (∀ part, path.mentions part = true → part.isStable = true) ∧ path.isRecordable = true) ∧
      (path.isRecordable = true ↔
        path.isElement = false ∧ ∀ type, path.mentions (.unknown type) = false) ∧
      (path.isRecordable = true → ∀ part, path.mentions part = true → part.isRecordable = true ∨
        ∃ array index, part.mentions (.element array index) = true) := by
  have order : (fun part path : Path => path.mentions part = true) = IsPartOf := by
    funext part path
    exact propext mentions_iff_isPartOf
  refine ⟨fun _ _ => mentions_iff_isPartOf, order ▸ inferInstance, fun path => ⟨hasUnknown_iff,
    isStable_iff, fun stable => ⟨fun part mentioned => ?_, isRecordable_of_isStable stable⟩,
    isRecordable_iff_mentions, fun recordable part mentioned => ?_⟩⟩
  · exact isStable_of_mem stable (mentions_iff.1 mentioned)
  · rcases isRecordable_or_isElement recordable mentioned with recordable | element
    · exact .inl recordable
    · cases part with
      | element array index => exact .inr ⟨array, index, by simp [mem_subpaths_self]⟩
      | _ => exact absurd element (by simp [isElement])

/-- The argument of a stable call is stable, as is a final field inside of it. A field of an array
element is recordable, and so is the array, though the element itself is not. -/
theorem predicates_respect_mentions_nested :
    let x : Path := .var ⟨⟨0⟩, "x"⟩
    let i : Path := .var ⟨⟨1⟩, "i"⟩
    let final : Path := .field (.self ⟨0⟩) ⟨⟨0⟩, "k", true⟩
    let call : Path := .call (.type ⟨1⟩) ⟨0⟩ [x, final]
    let element : Path := .element (.field x ⟨⟨1⟩, "a", false⟩) i
    let read : Path := .field element ⟨⟨2⟩, "f", false⟩
    (call.isStable = true ∧ call.mentions final = true ∧ final.isStable = true ∧
      call.isRecordable = true) ∧
    (read.isRecordable = true ∧ read.mentions element = true ∧
      (element.isRecordable = true ∨
        ∃ array index, element.mentions (.element array index) = true)) ∧
    element.isRecordable = false ∧ read.isStable = false := by
  intro x i final call element read
  have stable : call.isStable = true := by decide
  have recordable : read.isRecordable = true := by decide
  have part : call.mentions final = true := by decide
  have part' : read.mentions element = true := by decide
  obtain ⟨-, -, respect⟩ := predicates_respect_mentions
  obtain ⟨-, -, handed, -, -⟩ := respect call
  obtain ⟨-, -, -, -, parts⟩ := respect read
  exact ⟨⟨stable, part, (handed stable).1 final part, (handed stable).2⟩,
    ⟨recordable, part', parts recordable element part'⟩, by decide, by decide⟩

end QualifierFlow.Path
