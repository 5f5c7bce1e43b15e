import StupaWorkflow.ConfigSchemas

/-!
The rows of a saved form and of a saved flow, and what a read makes of them.
-/
namespace Config
open Py Schema List

def truthy : Json → Bool
  | .null => false
  | .bool b => b
  | .int z => z ≠ 0
  | .float s => s ≠ text "0.0" && s ≠ text "-0.0"
  | .str s => s ≠ []
  | .arr items => !items.isEmpty
  | .obj members => !members.isEmpty

/-- `value or other`. -/
def pyOr (j other : Json) : Json := if truthy j then j else other

section Form

variable (C : Checks)

/-- A row of `form_field`. -/
structure FormFieldRow where
  key : Text
  type : Text
  labelI18n : Json
  helpI18n : Json
  required : Bool
  validation : Json
  visibleIf : Json
  compute : Json
  options : Json
  order : ℕ
  isPii : Bool
  isPromoted : Bool
  promoteTarget : Option Text

/-- `_field_def_to_row_kwargs`. -/
def fieldDefToRow (f : FormFieldDef) (order : ℕ) : FormFieldRow where
  key := f.key
  type := f.type.name
  labelI18n := i18nMap.dump f.label
  helpI18n := (Codec.option i18nMap).dump f.help
  required := f.required
  validation := match f.validation with
    | some v => .obj ((FieldValidation.fields C).present v.out)
    | none => .obj []
  visibleIf := (Codec.option .object).dump f.visibleIf
  compute := (Codec.option .object).dump f.compute
  options := match f.options with
    | some options => .arr (options.map fun o => .obj (FieldOption.fields.present o.out))
    | none => .null
  order := order
  isPii := f.isPII
  isPromoted := f.isPromoted
  promoteTarget := f.promoteTarget

def FormFieldRow.members (row : FormFieldRow) : Members :=
  [(text "key", .str row.key), (text "type", .str row.type), (text "label", row.labelI18n), (text "help", row.helpI18n),
    (text "required", .bool row.required), (text "validation", pyOr row.validation .null),
    (text "visibleIf", row.visibleIf), (text "compute", row.compute), (text "options", row.options),
    (text "isPII", .bool row.isPii), (text "isPromoted", .bool row.isPromoted),
    (text "promoteTarget", (Codec.option .str).dump row.promoteTarget)]

def rowToFieldDef (row : FormFieldRow) : Option FormFieldDef := (FormFieldDef.codec C).read (.obj row.members)

def FieldValidation.isEmpty (v : FieldValidation) : Bool := ((FieldValidation.fields C).present v.out).isEmpty

def FormFieldDef.normal (f : FormFieldDef) : FormFieldDef :=
  { f with validation := f.validation.filter fun v => !v.isEmpty C }

theorem FieldValidation.defaulted (v : FieldValidation) : (FieldValidation.fields C).Defaulted v.out := by
  repeat' apply Fields.defaulted_option
  trivial

theorem FieldOption.defaulted (o : FieldOption) : FieldOption.fields.Defaulted o.out := by
  refine Fields.defaulted_notNull (Fields.defaulted_notNull ?_)
  repeat' apply Fields.defaulted_option
  trivial

variable {C} {f : FormFieldDef} {order : ℕ}

theorem read_validation (h : ∀ v ∈ f.validation, (FieldValidation.codec C).Valid v) :
    (Codec.option (FieldValidation.codec C)).read (pyOr (fieldDefToRow C f order).validation .null) =
      some (f.normal C).validation := by
  cases hv : f.validation with
  | none => simp [fieldDefToRow, FormFieldDef.normal, hv, pyOr, truthy, Codec.option, Codec.optionRead]
  | some v =>
    have hread : (FieldValidation.codec C).read (.obj ((FieldValidation.fields C).present v.out)) = some v :=
      Codec.read_record_present (h v hv) (FieldValidation.defaulted C v)
    cases hempty : v.isEmpty C with
    | true =>
      have hnil : ((FieldValidation.fields C).present v.out).isEmpty = true := hempty
      simp [fieldDefToRow, FormFieldDef.normal, hv, pyOr, truthy, Option.filter, hempty, hnil, Codec.option, Codec.optionRead]
    | false =>
      have hcons : ((FieldValidation.fields C).present v.out).isEmpty = false := hempty
      simp [fieldDefToRow, FormFieldDef.normal, hv, pyOr, truthy, Option.filter, hempty, hcons, Codec.option, Codec.optionRead,
        hread]

theorem read_options (h : ∀ options ∈ f.options, ∀ o ∈ options, FieldOption.codec.Valid o) :
    (Codec.option (.list FieldOption.codec)).read (fieldDefToRow C f order).options = some f.options := by
  cases ho : f.options with
  | none => simp [fieldDefToRow, ho, Codec.option, Codec.optionRead]
  | some options =>
    have hread : (options.map fun o => Json.obj (FieldOption.fields.present o.out)).mapM FieldOption.codec.read =
        some options :=
      Codec.mapM_map fun o hmem => Codec.read_record_present (h options ho o hmem) (FieldOption.defaulted o)
    simp [fieldDefToRow, ho, Codec.option, Codec.optionRead, Codec.list, hread]

theorem members_accepted (row : FormFieldRow) : (FormFieldDef.fields C).accepts row.members = true := by
  simp only [Fields.accepts, FormFieldDef.fields, Fields.field, Fields.nil, FormFieldRow.members, map_cons, map_nil]
  decide +kernel

theorem members_nodup (row : FormFieldRow) : (row.members.map Prod.fst).Nodup := by
  simp only [FormFieldRow.members, map_cons, map_nil]
  decide +kernel

/-- The row of a saved field reads as the field. -/
theorem rowToFieldDef_fieldDefToRow (h : (FormFieldDef.codec C).Valid f) :
    rowToFieldDef C (fieldDefToRow C f order) = some (f.normal C) := by
  obtain ⟨⟨hkey, _, hlabel, hhelp, _, hvalidation, hoptions, hvisible, hcompute, _, _, _, _⟩, hpromote⟩ := h
  have hat {i : ℕ} {k : Text} {j : Json} := Fields.lookup_at (members_nodup (fieldDefToRow C f order)) (i := i) (k := k) (j := j)
  have hread : (FormFieldDef.fields C).read (fieldDefToRow C f order).members = some (f.normal C).out := by
    refine Fields.read_field (member_of_lookup (hat (i := 0) rfl) (Codec.read_dump _ hkey)) <|
      Fields.read_field (member_of_lookup (hat (i := 1) rfl) (Codec.read_dump _ trivial)) <|
      Fields.read_field (member_of_lookup (hat (i := 2) rfl) (Codec.read_dump _ hlabel)) <|
      Fields.read_field (member_of_lookup (hat (i := 3) rfl) (Codec.read_dump _ hhelp)) <|
      Fields.read_field (member_of_lookup (hat (i := 4) rfl) (Codec.read_dump _ trivial)) <|
      Fields.read_field (member_of_lookup (hat (i := 5) rfl) (read_validation hvalidation)) <|
      Fields.read_field (member_of_lookup (hat (i := 8) rfl) (read_options hoptions)) <|
      Fields.read_field (member_of_lookup (hat (i := 6) rfl) (Codec.read_dump _ hvisible)) <|
      Fields.read_field (member_of_lookup (hat (i := 7) rfl) (Codec.read_dump _ hcompute)) <|
      Fields.read_field (member_of_lookup (hat (i := 9) rfl) (Codec.read_dump _ trivial)) <|
      Fields.read_field (member_of_lookup (hat (i := 10) rfl) (Codec.read_dump _ trivial)) <|
      Fields.read_field (member_of_lookup (hat (i := 11) rfl) (Codec.read_dump _ (by simp))) rfl
  have hrecord : (FormFieldDef.record C).read (.obj (fieldDefToRow C f order).members) = some (f.normal C) :=
    Codec.read_record (members_accepted _) hread
  simp [rowToFieldDef, FormFieldDef.codec, Codec.check, hrecord, Option.filter, show
    (f.normal C).promoteAndOptionsOk = true from hpromote]

end Form

section Flow

variable (C : Checks)

/-- A row of `state`; its key names it within its version. -/
structure StateRow where
  key : Text
  labelI18n : Json
  color : Option Text
  editAllowed : Bool
  isInitial : Bool
  isTerminal : Bool
  kind : Text
  config : Json

/-- A row of `transition`, with its states by their keys. -/
structure TransitionRow where
  fromState : Text
  toState : Text
  labelI18n : Json
  color : Option Text
  guard : Json
  actions : Json
  order : ℤ
  automatic : Bool
  branch : Option Text
  requiresAction : Bool

/-- The rows of one `flow_version`. -/
structure FlowRows where
  editorLayout : Json
  states : List StateRow
  transitions : List TransitionRow

/-- The row of `_add_state`. -/
def StateDef.row (s : StateDef) : StateRow where
  key := s.key
  labelI18n := i18nMap.dump s.label
  color := s.color
  editAllowed := s.editAllowed
  isInitial := s.isInitial
  isTerminal := s.isTerminal
  kind := s.kind.name
  config := .obj s.config

def TransitionDef.row (order : ℕ) (t : TransitionDef) : TransitionRow where
  fromState := t.source
  toState := t.target
  labelI18n := pyOr ((Codec.option i18nMap).dump t.label) (.obj [])
  color := t.color
  guard := (Codec.option .object).dump t.guard
  actions := (Codec.list .object).dump t.actions
  order := t.order.getD order
  automatic := t.automatic
  branch := t.branch.map TransitionBranch.name
  requiresAction := t.requiresAction

def FlowGraph.rows (g : FlowGraph) : FlowRows where
  editorLayout := pyOr ((Codec.option .object).dump g.layout) (.obj [])
  states := g.states.map StateDef.row
  transitions := g.transitions.mapIdx TransitionDef.row

def StateRow.json (s : StateRow) : Json :=
  .obj [(text "key", .str s.key), (text "label", s.labelI18n), (text "color", (Codec.option .str).dump s.color),
    (text "editAllowed", .bool s.editAllowed), (text "isInitial", .bool s.isInitial), (text "isTerminal", .bool s.isTerminal),
    (text "kind", .str s.kind), (text "config", pyOr s.config (.obj []))]

def TransitionRow.json (t : TransitionRow) : Json :=
  .obj [(text "from", .str t.fromState), (text "to", .str t.toState), (text "label", pyOr t.labelI18n .null),
    (text "color", (Codec.option .str).dump t.color), (text "guard", t.guard), (text "actions", pyOr t.actions (.arr [])),
    (text "order", .int t.order), (text "automatic", .bool t.automatic),
    (text "branch", (Codec.option .str).dump t.branch), (text "requiresAction", .bool t.requiresAction)]

/-- The graph that `get_active_global_flow` reads from the rows of a version. -/
def FlowRows.read (rows : FlowRows) : Option FlowGraph :=
  (FlowGraph.codec C).read <| .obj
    [(text "states", .arr (rows.states.map StateRow.json)),
      (text "transitions", .arr ((rows.transitions.mergeSort fun t u => t.order ≤ u.order).map TransitionRow.json)),
      (text "layout", pyOr rows.editorLayout .null)]

def TransitionDef.normal (order : ℕ) (t : TransitionDef) : TransitionDef :=
  { t with label := t.label.filter (· ≠ []), order := some (t.order.getD order) }

theorem StateDef.json_row (s : StateDef) : s.row.json = (StateDef.codec C).dump s := by
  have hconfig : pyOr (.obj s.config) (.obj []) = .obj s.config := by
    cases hc : s.config <;> simp [pyOr, truthy]
  simp only [StateRow.json, StateDef.row, hconfig]
  rfl

theorem TransitionDef.json_row (order : ℕ) (t : TransitionDef) :
    (t.row order).json = (TransitionDef.codec C).dump (t.normal order) := by
  have hlabel : pyOr (pyOr ((Codec.option i18nMap).dump t.label) (.obj [])) .null =
      (Codec.option i18nMap).dump (t.label.filter (· ≠ [])) := by
    rcases t.label with _ | _ | ⟨m, ms⟩ <;> rfl
  have hactions : pyOr ((Codec.list .object).dump t.actions) (.arr []) = (Codec.list .object).dump t.actions := by
    rcases t.actions with _ | ⟨m, ms⟩ <;> rfl
  have hbranch : (Codec.option .str).dump (t.branch.map TransitionBranch.name) =
      (Codec.option TransitionBranch.codec).dump t.branch := by
    cases t.branch <;> rfl
  simp only [TransitionRow.json, TransitionDef.row, hlabel, hactions, hbranch]
  rfl

/-- The live graph is the graph up to what a save fills in, with the states and the
transitions in any order. -/
structure FlowGraph.Reads (g live : FlowGraph) : Prop where
  states : live.states.Perm g.states
  transitions : live.transitions.Perm (g.transitions.mapIdx TransitionDef.normal)
  layout : live.layout = g.layout.filter (· ≠ [])

theorem TransitionDef.valid (t : TransitionDef) : (TransitionDef.codec C).Valid t := by
  refine ⟨trivial, trivial, ?_, ?_, ?_, ?_, ?_, trivial, ?_, trivial, trivial⟩ <;> simp

def FlowGraph.sorted (g : FlowGraph) : List TransitionDef :=
  (g.transitions.zipIdx.mergeSort fun p q => p.1.order.getD p.2 ≤ q.1.order.getD q.2).map fun p => p.1.normal p.2

theorem FlowGraph.sorted_perm (g : FlowGraph) : g.sorted.Perm (g.transitions.mapIdx TransitionDef.normal) := by
  rw [mapIdx_eq_zipIdx_map]
  exact (mergeSort_perm g.transitions.zipIdx _).map fun p => p.1.normal p.2

theorem FlowGraph.sorted_json (g : FlowGraph) :
    (g.rows.transitions.mergeSort fun t u => t.order ≤ u.order).map TransitionRow.json =
      g.sorted.map (TransitionDef.codec C).dump := by
  have hrows : g.rows.transitions = g.transitions.zipIdx.map fun p => p.1.row p.2 := mapIdx_eq_zipIdx_map
  have hsort := map_mergeSort (l := g.transitions.zipIdx) (f := fun p => p.1.row p.2)
    (r := fun p q => decide (p.1.order.getD p.2 ≤ q.1.order.getD q.2)) (s := fun t u => decide (t.order ≤ u.order))
    fun _ _ _ _ => rfl
  rw [hrows, ← hsort, map_map, FlowGraph.sorted, map_map]
  refine map_congr_left fun p _ => ?_
  exact p.1.json_row C p.2

variable {C} in
theorem FlowRows.read_rows {g : FlowGraph} (h : (FlowGraph.codec C).Valid g) :
    ∃ live, g.rows.read C = some live ∧ g.Reads live := by
  let live : FlowGraph := ⟨g.states, g.sorted, g.layout.filter (· ≠ [])⟩
  have hstates : g.rows.states.map StateRow.json = g.states.map (StateDef.codec C).dump := by
    rw [FlowGraph.rows, map_map]
    exact map_congr_left fun s _ => s.json_row C
  have hlayout : pyOr g.rows.editorLayout .null = (Codec.option .object).dump (g.layout.filter (· ≠ [])) := by
    rw [FlowGraph.rows]
    rcases g.layout with _ | _ | ⟨m, ms⟩ <;> rfl
  have hvalid : (FlowGraph.codec C).Valid live := ⟨h.1, fun t _ => t.valid C, by simp, trivial⟩
  refine ⟨live, ?_, List.Perm.refl _, g.sorted_perm, rfl⟩
  rw [FlowRows.read, hstates, g.sorted_json C, hlayout]
  exact (FlowGraph.codec C).read_dump hvalid

end Flow

end Config
