import StupaWorkflow.ConfigSchemas

/-!
The effective form of an application type: its fields, split at the `section` markers into
the steps of the wizard, with the title field of the system in front where the type has
none of its own.
-/
namespace Config
open Py List

def systemTitleKey : Text := text "title"

def systemTitleField : FormFieldDef where
  key := systemTitleKey
  type := .text
  label := [(text "de", text "Titel"), (text "en", text "Title")]
  help := none
  required := true
  validation := none
  options := none
  visibleIf := none
  compute := none
  isPII := false
  isPromoted := false
  promoteTarget := none

structure FormSection where
  key : Text
  fields : List FormFieldDef
  label : Option I18nMap

structure SectionDraft where
  closed : List FormSection
  key : Text
  label : Option I18nMap
  fields : List FormFieldDef

namespace SectionDraft
open List

/-- `draft.section()`. -/
def toSection (draft : SectionDraft) : FormSection := ⟨draft.key, draft.fields, draft.label⟩

/-- `_section_step`: a marker closes the open section when it has fields. -/
def step (draft : SectionDraft) (field : FormFieldDef) : SectionDraft :=
  match field.type with
  | .section =>
    { closed := if draft.fields.isEmpty then draft.closed else draft.closed ++ [draft.toSection]
      key := field.key
      label := if field.label.isEmpty then none else some field.label
      fields := [] }
  | _ => { draft with fields := draft.fields ++ [field] }

def start : SectionDraft := ⟨[], text "main", none, []⟩

end SectionDraft

def splitSections (fields : List FormFieldDef) : List FormSection :=
  let draft := fields.foldl SectionDraft.step .start
  if !draft.fields.isEmpty || draft.closed.isEmpty then draft.closed ++ [draft.toSection] else draft.closed

def hasTitle (fields : List FormFieldDef) : Bool := fields.any fun f => f.key = systemTitleKey

def effectiveForm (typeFields : List FormFieldDef) : List FormSection :=
  let sections := splitSections typeFields
  if sections.any fun s => hasTitle s.fields then sections
  else
    match sections with
    | [] => []
    | first :: rest => { first with fields := systemTitleField :: first.fields } :: rest

def ordinary (fields : List FormFieldDef) : List FormFieldDef := fields.filter fun f => f.type ≠ .section

section Split

def SectionDraft.placed (draft : SectionDraft) : List FormFieldDef :=
  draft.closed.flatMap FormSection.fields ++ draft.fields

def SectionDraft.Filled (draft : SectionDraft) : Prop := ∀ s ∈ draft.closed, s.fields ≠ []

variable {draft : SectionDraft} {fields : List FormFieldDef}

theorem placed_step (draft : SectionDraft) (field : FormFieldDef) :
    (draft.step field).placed = draft.placed ++ ordinary [field] := by
  unfold SectionDraft.step
  split
  · next hmarker =>
      have hnone : ordinary [field] = [] := by simp [ordinary, hmarker]
      rw [hnone, append_nil, SectionDraft.placed, SectionDraft.placed, append_nil]
      split
      · next hempty => rw [isEmpty_iff.mp hempty, append_nil]
      · rw [flatMap_append, flatMap_singleton, SectionDraft.toSection]
  · next hfield =>
      have hone : ordinary [field] = [field] := filter_cons_of_pos (decide_eq_true hfield)
      rw [hone, SectionDraft.placed, SectionDraft.placed, append_assoc]

theorem filled_step (h : draft.Filled) (field : FormFieldDef) : (draft.step field).Filled := by
  unfold SectionDraft.step
  split
  · intro s hs
    simp only at hs
    split at hs
    · exact h s hs
    · next hopen =>
        rcases mem_append.mp hs with hclosed | hlast
        · exact h s hclosed
        · rw [mem_singleton.mp hlast]
          exact fun hnil => hopen (isEmpty_iff.mpr hnil)
  · exact h

theorem placed_foldl (draft : SectionDraft) (fields : List FormFieldDef) :
    (fields.foldl SectionDraft.step draft).placed = draft.placed ++ ordinary fields := by
  induction fields generalizing draft with
  | nil => exact (append_nil _).symm
  | cons field fields ih =>
    rw [foldl_cons, ih, placed_step, append_assoc, ordinary, ordinary, ordinary, ← filter_append]
    rfl

theorem filled_foldl (h : draft.Filled) (fields : List FormFieldDef) :
    (fields.foldl SectionDraft.step draft).Filled := by
  induction fields generalizing draft with
  | nil => exact h
  | cons field fields ih => exact ih (filled_step h field)

theorem splitSections_fields (fields : List FormFieldDef) :
    (splitSections fields).flatMap FormSection.fields = ordinary fields := by
  have hplaced := placed_foldl .start fields
  rw [splitSections]
  split
  · rw [flatMap_append, flatMap_singleton]
    exact hplaced
  · next hclosed =>
      simp only [Bool.or_eq_true, Bool.not_eq_true', not_or, Bool.not_eq_false] at hclosed
      rw [SectionDraft.placed, isEmpty_iff.mp hclosed.1, append_nil] at hplaced
      exact hplaced

theorem splitSections_filled {s : FormSection} (hs : s ∈ splitSections fields) :
    s.fields ≠ [] ∨ splitSections fields = [s] := by
  have hfilled : (fields.foldl SectionDraft.step .start).Filled := filled_foldl (fun _ h => absurd h not_mem_nil) fields
  rw [splitSections] at hs ⊢
  split at hs
  · next hopen =>
      rw [if_pos hopen]
      rcases mem_append.mp hs with hclosed | hlast
      · exact .inl (hfilled s hclosed)
      · rw [mem_singleton.mp hlast]
        rcases Bool.or_eq_true _ _ ▸ hopen with hfields | hnone
        · left
          intro hnil
          rw [Bool.not_eq_true', isEmpty_eq_false_iff] at hfields
          exact hfields hnil
        · right
          rw [isEmpty_iff.mp hnone, nil_append]
  · exact .inl (hfilled s hs)

theorem splitSections_ne_nil (fields : List FormFieldDef) : splitSections fields ≠ [] := by
  rw [splitSections]
  split
  · exact List.append_ne_nil_of_right_ne_nil _ (List.cons_ne_nil _ _)
  · next hclosed =>
      simp only [Bool.or_eq_true, not_or, List.isEmpty_iff] at hclosed
      exact hclosed.2

end Split

section Effective

structure Preserves (typeFields : List FormFieldDef) (sections : List FormSection) : Prop where
  fields : sections.flatMap FormSection.fields =
    if hasTitle (ordinary typeFields) then ordinary typeFields else systemTitleField :: ordinary typeFields
  titles : (sections.flatMap FormSection.fields).countP (fun f => f.key = systemTitleKey) =
    max 1 ((ordinary typeFields).countP fun f => f.key = systemTitleKey)
  shown : sections ≠ []
  filled : ∀ s ∈ sections, s.fields ≠ [] ∨ sections = [s]

theorem titles_of_fields {all typeFields : List FormFieldDef}
    (h : all = if hasTitle typeFields then typeFields else systemTitleField :: typeFields) :
    all.countP (fun f => f.key = systemTitleKey) = max 1 (typeFields.countP fun f => f.key = systemTitleKey) := by
  rw [h]
  split
  · next htitle =>
      have hpos : 0 < typeFields.countP fun f => f.key = systemTitleKey := by
        rw [countP_pos_iff]
        simpa [hasTitle] using htitle
      exact (Nat.max_eq_right hpos).symm
  · next htitle =>
      have hzero : typeFields.countP (fun f => f.key = systemTitleKey) = 0 := by
        rw [countP_eq_zero]
        simpa [hasTitle] using htitle
      rw [countP_cons, hzero]
      rfl

/-- The split keeps every field of the type in its place and adds the title at most once. -/
theorem effectiveForm_preserves (typeFields : List FormFieldDef) : Preserves typeFields (effectiveForm typeFields) := by
  have hfields := splitSections_fields typeFields
  have htitle : ((splitSections typeFields).any fun s => hasTitle s.fields) = hasTitle (ordinary typeFields) := by
    rw [← hfields, hasTitle, any_flatMap]
    rfl
  rw [effectiveForm, htitle]
  by_cases hown : hasTitle (ordinary typeFields) = true
  · rw [if_pos hown]
    have hall : (splitSections typeFields).flatMap FormSection.fields =
        if hasTitle (ordinary typeFields) then ordinary typeFields else systemTitleField :: ordinary typeFields := by
      rw [if_pos hown, hfields]
    exact ⟨hall, titles_of_fields hall, splitSections_ne_nil typeFields, fun s hs => splitSections_filled hs⟩
  · rw [if_neg hown]
    cases hsections : splitSections typeFields with
    | nil => exact absurd hsections (splitSections_ne_nil typeFields)
    | cons first rest =>
      have hall : ({ first with fields := systemTitleField :: first.fields } :: rest).flatMap FormSection.fields =
          if hasTitle (ordinary typeFields) then ordinary typeFields else systemTitleField :: ordinary typeFields := by
        rw [if_neg hown, ← hfields, hsections, flatMap_cons, flatMap_cons, cons_append]
      refine ⟨hall, titles_of_fields hall, cons_ne_nil _ _, fun s hs => .inl ?_⟩
      rcases mem_cons.mp hs with rfl | hrest
      · exact cons_ne_nil _ _
      · rcases splitSections_filled (hsections ▸ mem_cons_of_mem first hrest) with hne | hone
        · exact hne
        · rw [hsections] at hone
          obtain ⟨-, rfl⟩ := List.cons.inj hone
          cases hrest

end Effective

end Config
