import StupaWorkflow.ConfigRows
import StupaWorkflow.StorageKeys
import StupaWorkflow.Tables
import StupaWorkflow.Transactions

/-!
The versions of the forms, of the flow and of the site config, their history and the applications
that sit in states of the flow, with every request that changes them as a transaction.
-/
namespace Config
open Py Schema StorageKeys ReadCommitted
open Prog hiding bind pure

section Tables

/-- A config entity: the form of an application type, the global flow or the site config. -/
inductive Entity where
  | form (type : Uuid)
  | flow
  | site
  deriving DecidableEq

structure FormRows where
  descriptionI18n : Json
  fields : List FormFieldRow

inductive Content where
  | form (rows : FormRows)
  | flow (rows : FlowRows)
  | site (branding : Json)

/-- A row of `form_version`, `flow_version` or `site_config_version` with its rows. -/
structure Version where
  entity : Entity
  number : ℕ
  active : Bool
  content : Content

/-- A row of `application_type`. -/
structure FormType where
  id : Uuid
  /-- `active_form_version_id`. -/
  activeVersion : Option ℕ
  deriving DecidableEq

/-- A row of `config_revision`. `reverts` is the reverted revision that its audit entry names. -/
structure Revision where
  entity : Entity
  version : ℕ
  snapshot : Json
  prev : Option ℕ
  reverts : Option ℕ

structure StateRef where
  version : ℕ
  key : Text
  deriving DecidableEq

structure Application where
  id : Uuid
  /-- `flow_version_id`. -/
  version : ℕ
  /-- `current_state_id`. -/
  state : Option StateRef
  deriving DecidableEq

structure StatusEvent where
  application : Uuid
  source : Option StateRef
  target : StateRef
  deriving DecidableEq

/-- What a save writes: the checked value of its entity. -/
inductive Payload where
  | form (fields : List FormFieldDef) (description : Option I18nMap)
  | flow (graph : FlowGraph)
  | site (branding : Branding)

structure Save where
  entity : Entity
  payload : Payload
  number : ℕ
  activate : Bool
  /-- The versions that the save found active. -/
  deactivated : List ℕ
  reverts : Option ℕ
  /-- The applications that the save moves, with the keys of their states as it read them. -/
  moved : List (Uuid × Text)

structure Switch where
  type : Uuid
  /-- `active_form_version_id` as the session loaded it. -/
  loaded : Option ℕ
  deactivated : List ℕ
  /-- The latest version for a switch on, and whether the session writes its flag. -/
  latest : Option (ℕ × Bool)

structure Move where
  application : Uuid
  source : StateRef
  target : StateRef

structure Created where
  application : Uuid
  target : StateRef

/-- What a commit changed, with what its transaction had read. -/
inductive Change where
  | save (s : Save)
  | switch (w : Switch)
  | move (m : Move)
  | create (c : Created)

structure Db where
  versions : List Version
  types : List FormType
  revisions : List Revision
  applications : List Application
  events : List StatusEvent
  /-- No column: the change of the last commit. -/
  last : Option Change

inductive Key where
  /-- The unique index of the version numbers. -/
  | number (e : Entity) (n : ℕ)
  /-- The partial unique index of the active version. -/
  | active (e : Entity)
  | version (e : Entity) (n : ℕ)
  /-- The advisory lock of `record`. -/
  | history (e : Entity)
  | formType (id : Uuid)
  | application (id : Uuid)
  deriving DecidableEq

end Tables

section Rows

def Db.versionsOf (d : Db) (e : Entity) : List Version := d.versions.filter (·.entity = e)

def Db.revisionsOf (d : Db) (e : Entity) : List Revision := d.revisions.filter (·.entity = e)

/-- `ORDER BY version DESC LIMIT 1`. -/
def Db.latest (d : Db) (e : Entity) : Option Version := (d.versionsOf e).argmax Version.number

def Db.head (d : Db) (e : Entity) : Option Revision := (d.revisionsOf e).argmax Revision.version

def Db.revision (d : Db) (e : Entity) (n : ℕ) : Option Revision := (d.revisionsOf e).find? (·.version = n)

def Db.activeVersions (d : Db) (e : Entity) : List Version := (d.versionsOf e).filter (·.active)

def Db.activeNumbers (d : Db) (e : Entity) : List ℕ := (d.activeVersions e).map Version.number

def Db.formType (d : Db) (id : Uuid) : Option FormType := d.types.find? (·.id = id)

def Db.application (d : Db) (id : Uuid) : Option Application := d.applications.find? (·.id = id)

def Content.flowRows : Content → Option FlowRows
  | .flow rows => some rows
  | _ => none

def Content.stateKeys (c : Content) : List Text := (c.flowRows.map fun rows => rows.states.map StateRow.key).getD []

def Content.initial (c : Content) : Option Text :=
  c.flowRows.bind fun rows => (rows.states.find? (·.isInitial)).map StateRow.key

def Db.flowVersion (d : Db) (n : ℕ) : Option Version := (d.versionsOf .flow).find? (·.number = n)

def Db.transition (d : Db) (n position : ℕ) : Option TransitionRow :=
  (d.flowVersion n).bind fun v => v.content.flowRows.bind fun rows => rows.transitions[position]?

def Db.insertVersion (v : Version) (d : Db) : Db := { d with versions := d.versions ++ [v] }

def Db.setActive (e : Entity) (numbers : List ℕ) (active : Bool) (d : Db) : Db :=
  { d with versions := d.versions.map fun v =>
      if v.entity = e ∧ v.number ∈ numbers then { v with active := active } else v }

def Db.setPointer (id : Uuid) (n : Option ℕ) (d : Db) : Db :=
  { d with types := Table.modify (·.id) id ({ · with activeVersion := n }) d.types }

def Db.insertRevision (r : Revision) (d : Db) : Db := { d with revisions := d.revisions ++ [r] }

def Version.place (v : Version) (key : Text) : Option StateRef :=
  if key ∈ v.content.stateKeys then some ⟨v.number, key⟩ else v.content.initial.map (⟨v.number, ·⟩)

def Application.moveTo (v : Version) (moved : List (Uuid × Text)) (a : Application) : Application :=
  match moved.lookup a.id with
  | some key => { a with version := v.number, state := v.place key }
  | none => a

def Db.moveApplications (v : Version) (moved : List (Uuid × Text)) (d : Db) : Db :=
  { d with applications := d.applications.map (·.moveTo v moved) }

def Db.placeRest (v : Version) (ids : List Uuid) (d : Db) : Db :=
  { d with applications := d.applications.map fun a =>
      if a.id ∈ ids then { a with version := v.number, state := v.content.initial.map (⟨v.number, ·⟩) } else a }

def Db.setState (id : Uuid) (s : StateRef) (d : Db) : Db :=
  { d with applications := Table.modify (·.id) id ({ · with state := some s }) d.applications }

def Db.insertEvent (ev : StatusEvent) (d : Db) : Db := { d with events := d.events ++ [ev] }

def Db.insertApplication (a : Application) (d : Db) : Db := { d with applications := d.applications ++ [a] }

def Db.setLast (c : Change) (d : Db) : Db := { d with last := some c }

end Rows

section Checks

/-- The checks of the classes and the other rules of `validate_flow_graph`: the guards, the
actions, the vote states, the reachable states and the automatic cycles. -/
structure Rules extends Checks where
  flowRules : FlowGraph → Bool

inductive GraphProblem where
  | noStates
  | duplicateKeys
  | noInitial
  | multipleInitial
  | unknownFrom (key : Text)
  | unknownTo (key : Text)
  | selfLoop (key : Text)
  | rule

inductive DefinitionProblem where
  | duplicateKeys
  | multipleFunding
  | fundingAlone (key : Text)
  | promotedNotNumeric (key : Text)
  | expression (key : Text)
  | pattern (key : Text)

inductive Problem where
  | notFound (message : Text)
  | forbidden (message : Text)
  | conflict (message code : Text)
  | validation (message : Text) (errors : List (Text × Text))
  | invalidForm (p : DefinitionProblem)
  | invalidGraph (p : GraphProblem)
  /-- A value that does not pass the checks of its class. -/
  | invalidInput
  | integrityError

variable (C : Rules)

def checkTransition (keys : List Text) (t : TransitionDef) : Except GraphProblem Unit := do
  raiseUnless (keys.contains t.source) (.unknownFrom t.source)
  raiseUnless (keys.contains t.target) (.unknownTo t.target)
  raiseUnless (t.source ≠ t.target) (.selfLoop t.source)

def validateFlowGraph (g : FlowGraph) : Except GraphProblem Unit := do
  let keys := g.states.map StateDef.key
  raiseUnless (!keys.isEmpty) .noStates
  raiseUnless (decide keys.Nodup) .duplicateKeys
  let initials := g.states.filter (·.isInitial)
  raiseUnless (!initials.isEmpty) .noInitial
  raiseUnless (initials.length ≤ 1) .multipleInitial
  g.transitions.forM (checkTransition keys)
  raiseUnless (C.flowRules g) .rule

def checkFieldDefinition (f : FormFieldDef) : Except DefinitionProblem Unit := do
  raiseUnless (!f.isPromoted || f.type = .number || f.type = .currency) (.promotedNotNumeric f.key)
  raiseUnless (f.visibleIf.all C.jsonlogic && f.compute.all C.jsonlogic) (.expression f.key)
  raiseUnless (f.validation.all fun v => v.pattern.all C.compiles) (.pattern f.key)

def validateDefinition (fields : List FormFieldDef) : Except DefinitionProblem Unit := do
  raiseUnless (decide (fields.map FormFieldDef.key).Nodup) .duplicateKeys
  let funding := fields.filter (·.type = .funding)
  raiseUnless (funding.length ≤ 1) .multipleFunding
  match funding with
  | f :: _ => raiseUnless (fields.any (·.type = .positions)) (.fundingAlone f.key)
  | [] => .ok ()
  fields.forM (checkFieldDefinition C)

end Checks

section Payloads

variable (C : Rules)

def FormPayload.snapshot (fields : List FormFieldDef) (description : Option I18nMap) : Json :=
  .obj [(text "fields", (Codec.list (FormFieldDef.codec C.toChecks)).dump fields),
    (text "description", (Codec.option i18nMap).dump description)]

def Payload.snapshot : Payload → Json
  | .form fields description => FormPayload.snapshot C fields description
  | .flow graph => (FlowGraph.codec C.toChecks).dump graph
  | .site branding => (Branding.codec C.toChecks).dump branding

def Payload.content : Payload → Content
  | .form fields description =>
    .form ⟨(Codec.option i18nMap).dump description, fields.mapIdx fun order f => fieldDefToRow C.toChecks f order⟩
  | .flow graph => .flow graph.rows
  | .site branding => .site ((Branding.codec C.toChecks).dump branding)

/-- `snapshot.get(key)`. -/
def getMember (key : Text) : Json → Option Json
  | .obj ms => ms.lookup key
  | _ => none

/-- The fields and the description that `reapply_snapshot` reads from the snapshot of a form. -/
def readForm (snapshot : Json) : Option (List FormFieldDef × Option I18nMap) := do
  let fields ← (Codec.list (FormFieldDef.codec C.toChecks)).read
    (pyOr ((getMember (text "fields") snapshot).getD (.arr [])) (.arr []))
  let description ← (Codec.option i18nMap).read ((getMember (text "description") snapshot).getD .null)
  if fields.isEmpty then none else some (fields, description)

end Payloads

abbrev P := Prog Db Key Problem

section Saves

variable (C : Rules)

/-- `(current_max or 0) + 1`. -/
def nextNumber (e : Entity) : P ℕ := do
  let db ← query
  return ((db.latest e).map Version.number).getD 0 + 1

/-- `UPDATE … SET active = false WHERE active`: the rows that are active now, each when its lock is granted. -/
def deactivate (e : Entity) : P (List ℕ) := do
  let db ← query
  let numbers := db.activeNumbers e
  lockAll (numbers.map (.version e))
  update (·.setActive e numbers false)
  return numbers

/-- The partial unique index. A new entry waits for a transaction that changes the active row. -/
def claimActive (e : Entity) : P Unit := do
  let _ ← lockRow fun _ => some (.active e)
  let db ← lockRow fun db => (db.activeNumbers e).head?.map (.version e)
  require (db.activeNumbers e).isEmpty .integrityError

def insertVersion (v : Version) : P Unit := do
  let db ← lockRow fun _ => some (.number v.entity v.number)
  require (!(db.versionsOf v.entity).any (·.number = v.number)) .integrityError
  if v.active then claimActive v.entity
  update (·.insertVersion v)

/-- `record`. Its flush also writes what the session still has pending. -/
def record (e : Entity) (snapshot : Json) (reverts : Option ℕ) (pending : P Unit) : P Unit := do
  let db ← lockRow fun _ => some (.history e)
  let prev := (db.head e).map Revision.version
  pending
  update (·.insertRevision ⟨e, prev.getD 0 + 1, snapshot, prev, reverts⟩)

def typeNotFound (id : Uuid) : Problem := .notFound (text "application type " ++ Uuid.text id ++ text " not found")

def createFormVersion (type : Uuid) (fields : List FormFieldDef) (description : Option I18nMap) (activate : Bool)
    (reverts : Option ℕ) : P Unit := do
  ofExcept ((validateDefinition C fields).mapError .invalidForm)
  let db ← query
  require (db.formType type).isSome (typeNotFound type)
  let number ← nextNumber (.form type)
  let deactivated ← if activate then deactivate (.form type) else pure []
  let payload := Payload.form fields description
  insertVersion ⟨.form type, number, activate, payload.content C⟩
  record (.form type) (payload.snapshot C) reverts <| if activate then do
    let _ ← lockRow fun _ => some (.formType type)
    update (·.setPointer type (some number)) else pure ()
  update (·.setLast (.save ⟨.form type, payload, number, activate, deactivated, reverts, []⟩))
  publish

/-- The UPDATE of `active_form_version_id`: the session writes it when it differs from the loaded value. -/
def point (type : Uuid) (loaded n : Option ℕ) : P Unit := do
  if loaded ≠ n then do
    let _ ← lockRow fun _ => some (.formType type)
    update (·.setPointer type n)

/-- The UPDATE of the flag of the latest version, which the session read as inactive. -/
def reactivate (e : Entity) (n : ℕ) : P Unit := do
  let _ ← lockRow fun _ => some (.version e n)
  let _ ← lockRow fun _ => some (.active e)
  let db ← lockRow fun db => ((db.activeNumbers e).filter (· ≠ n)).head?.map (.version e)
  require ((db.activeNumbers e).filter (· ≠ n)).isEmpty .integrityError
  update (·.setActive e [n] true)

def noFormVersion : Problem :=
  .validation (text "No form version to activate.") [(text "active", text "no form version exists")]

def setFormActive (type : Uuid) (active : Bool) : P Unit := do
  let db ← query
  let row ← ofOption (db.formType type) (typeNotFound type)
  let deactivated ← deactivate (.form type)
  if active then do
    let db ← query
    let latest ← ofOption (db.latest (.form type)) noFormVersion
    if !latest.active then reactivate (.form type) latest.number
    point type row.activeVersion (some latest.number)
    update (·.setLast (.switch ⟨type, row.activeVersion, deactivated, some (latest.number, !latest.active)⟩))
    publish
  else do
    point type row.activeVersion none
    update (·.setLast (.switch ⟨type, row.activeVersion, deactivated, none⟩))
    publish

def placeRest (v : Version) : P Unit := do
  let db ← query
  let rest := (db.applications.filter (·.state.isNone)).map Application.id
  lockAll (rest.map .application)
  update (·.placeRest v rest)

/-- `create_global_flow_version`; `budgetRefs` is the answer of `_check_budget_refs`. -/
def createGlobalFlowVersion (graph : FlowGraph) (budgetRefs : Bool) (reverts : Option ℕ) : P Unit := do
  ofExcept ((validateFlowGraph C graph).mapError .invalidGraph)
  require budgetRefs (.invalidGraph .rule)
  let db ← query
  let appKeys := db.applications.filterMap fun a => a.state.map fun s => (a.id, s.key)
  let number ← nextNumber .flow
  let deactivated ← deactivate .flow
  let version : Version := ⟨.flow, number, true, .flow graph.rows⟩
  insertVersion version
  lockAll (appKeys.map fun m => .application m.1)
  update (·.moveApplications version appKeys)
  placeRest version
  let payload := Payload.flow graph
  record .flow (payload.snapshot C) reverts (pure ())
  update (·.setLast (.save ⟨.flow, payload, number, true, deactivated, reverts, appKeys⟩))
  publish

/-- `_branding` of the active row; a stored config that does not pass the checks fails the request. -/
def activeBranding (d : Db) : Option Branding :=
  match (d.activeVersions .site).head? with
  | none => some .default
  | some v =>
    match v.content with
    | .site branding => (Branding.codec C.toChecks).read branding
    | _ => none

def saveSiteVersion (branding : Branding) (number : ℕ) (reverts : Option ℕ) : P Unit := do
  let deactivated ← deactivate .site
  let payload := Payload.site branding
  insertVersion ⟨.site, number, true, payload.content C⟩
  record .site (payload.snapshot C) reverts (pure ())
  update (·.setLast (.save ⟨.site, payload, number, true, deactivated, reverts, []⟩))
  publish

def Branding.withHelpTicketsOf (branding source : Branding) : Branding :=
  { branding with help := source.help, tickets := source.tickets }

def scanLogos (branding : Branding) : Bool := branding.logos.all fun l => l.2.inlineBytes.all C.scanClean

def restoreBranding (branding : Branding) (reverts : Option ℕ) : P Unit := do
  require (scanLogos C branding) (.validation (text "The virus scan found a signature.") [])
  let number ← nextNumber .site
  let db ← query
  let active ← ofOption (activeBranding C db) .invalidInput
  saveSiteVersion C (branding.withHelpTicketsOf active) number reverts

/-- `put_help_tickets`, with the settings that it builds from the body. -/
def putHelpTickets (help : Json) (tickets : Json) : P Unit := do
  let help ← ofOption (HelpSettings.codec.read help) .invalidInput
  let tickets ← ofOption ((TicketSettings.codec C.toChecks).read tickets) .invalidInput
  let db ← query
  let active ← ofOption (activeBranding C db) .invalidInput
  let number ← nextNumber .site
  saveSiteVersion C { active with help := help, tickets := tickets } number none

def reapplySnapshot (e : Entity) (snapshot : Json) (budgetRefs : Bool) (reverts : Option ℕ) : P Unit :=
  match e with
  | .flow => do
      let graph ← ofOption ((FlowGraph.codec C.toChecks).read snapshot) .invalidInput
      createGlobalFlowVersion C graph budgetRefs reverts
  | .form type => do
      let p ← ofOption (readForm C snapshot) .invalidInput
      createFormVersion C type p.1 p.2 true reverts
  | .site => do
      let branding ← ofOption ((Branding.codec C.toChecks).read snapshot) .invalidInput
      restoreBranding C branding reverts

def revisionNotFound : Problem := .notFound (text "config revision not found")

/-- `restore_config_revision`. -/
def restoreRevision (e : Entity) (n : ℕ) (allowed budgetRefs : Bool) : P Unit := do
  let db ← query
  let revision ← ofOption (db.revision e n) revisionNotFound
  require allowed (.forbidden (text "Missing permission to restore config."))
  reapplySnapshot C e revision.snapshot budgetRefs none

/-- `_revert_config` of the entry whose `revisionId` names the revision. -/
def revertConfig (e : Entity) (n : ℕ) (allowed budgetRefs : Bool) : P Unit := do
  let db ← query
  let recorded ← ofOption (db.revision e n) revisionNotFound
  require allowed (.forbidden (text "Missing permission to revert config."))
  let prevVersion ← ofOption recorded.prev
    (.conflict (text "Cannot revert the first config state (nothing to revert to).") (text "nothing_to_revert"))
  let db ← query
  let prev ← ofOption (db.revision e prevVersion) (.notFound (text "previous config revision not found"))
  let db ← query
  require ((db.head e).map Revision.version = some recorded.version)
    (.conflict (text "A newer change exists for this config; revert that first.") (text "stale_revert"))
  reapplySnapshot C e prev.snapshot budgetRefs (some recorded.version)

end Saves

section Reads

variable (C : Rules)

/-- `get_form_draft`: the fields and the description of the latest version. -/
def getFormDraft (d : Db) (type : Uuid) : Option (List FormFieldDef × Option I18nMap) :=
  match d.latest (.form type) with
  | none => some ([], none)
  | some v =>
    match v.content with
    | .form rows => do
        let fields ← (rows.fields.mergeSort fun f g => f.order ≤ g.order).mapM (rowToFieldDef C.toChecks)
        let description ← (Codec.option i18nMap).read rows.descriptionI18n
        return (fields, description)
    | _ => none

def getActiveGlobalFlow (d : Db) : Option FlowGraph :=
  (d.activeVersions .flow).head?.bind fun v => v.content.flowRows.bind fun rows => rows.read C.toChecks

end Reads

section StatusChanges

structure Fire where
  application : Uuid
  /-- The transition by its version and its position. -/
  version : ℕ
  position : ℕ
  manual : Bool
  /-- The application may be read: it is confirmed, or the caller may see it unconfirmed. -/
  visible : Bool
  /-- The answers of the decision checks, of the guard and of the vote Gremium. -/
  refused : Option Problem
  /-- `_budget_unchanged` at the time of the UPDATE. -/
  budgetUnchanged : Bool

structure Force where
  application : Uuid
  target : StateRef
  visible : Bool
  refused : Option Problem
  budgetUnchanged : Bool

structure RevertStatus where
  /-- The status event that the audit entry names. -/
  event : ℕ
  allowed : Bool
  visible : Bool
  refused : Option Problem
  budgetUnchanged : Bool

structure Create where
  id : Uuid
  type : Uuid
  /-- The refusal of the answers or of the drafts. -/
  refused : Option Problem

def applicationNotFound : Problem := .notFound (text "application not found")

def loadApp (id : Uuid) (visible : Bool) : P Application := do
  let db ← query
  ofOption ((db.application id).filter fun _ => visible) applicationNotFound

def refuse (p : Option Problem) : P Unit :=
  match p with
  | some problem => .fail problem
  | none => return ()

def Db.inState (d : Db) (id : Uuid) (s : StateRef) : Bool := (d.application id).any (·.state = some s)

/-- `UPDATE application … WHERE id AND current_state_id`, the status event and the commit. -/
def moveState (m : Move) (budgetUnchanged : Bool) (lost : Problem) : P Unit := do
  let db ← query
  require (db.inState m.application m.source && budgetUnchanged) lost
  let db ← lockRow fun _ => some (.application m.application)
  require (db.inState m.application m.source) lost
  update (·.setState m.application m.target)
  update (·.insertEvent ⟨m.application, some m.source, m.target⟩)
  update (·.setLast (.move m))
  publish

def Db.hasState (d : Db) (s : StateRef) : Bool := (d.flowVersion s.version).any fun v => v.content.stateKeys.contains s.key

def fire (f : Fire) : P Unit := do
  let app ← loadApp f.application f.visible
  let db ← query
  let t ← ofOption (db.transition f.version f.position) (.notFound (text "transition not found"))
  require (f.version = app.version) (.notFound (text "transition does not belong to this application's flow"))
  require (app.state = some ⟨f.version, t.fromState⟩)
    (.conflict (text "Transition is not available from the current state.") (text "transition_not_available"))
  require (!(f.manual && t.branch.isSome))
    (.conflict (text "Branch transitions are fired by the vote outcome, not manually.") (text "branch_transition_manual"))
  require (!(f.manual && t.automatic))
    (.conflict (text "Automatic transitions are fired by the system, not manually.") (text "automatic_transition_manual"))
  refuse f.refused
  moveState ⟨f.application, ⟨f.version, t.fromState⟩, ⟨f.version, t.toState⟩⟩ f.budgetUnchanged
    (.conflict (text "Concurrent transition detected; application state changed.") (text "concurrent_state_change"))

def forceStatus (f : Force) : P Unit := do
  let app ← loadApp f.application f.visible
  let source ← ofOption app.state
    (.conflict (text "Application has no current state to change.") (text "no_current_state"))
  let db ← query
  require (db.hasState f.target && decide (f.target.version = app.version))
    (.notFound (text "target state does not belong to this application's flow"))
  require (f.target ≠ source)
    (.conflict (text "Application is already in the target state.") (text "already_in_state"))
  refuse f.refused
  moveState ⟨f.application, source, f.target⟩ f.budgetUnchanged
    (.conflict (text "Concurrent status change detected; try again.") (text "concurrent_state_change"))

def revertStatus (r : RevertStatus) : P Unit := do
  let db ← query
  let entry ← ofOption db.events[r.event]? (.notFound (text "audit entry not found"))
  require r.allowed (.forbidden (text "Missing permission to revert an application status change."))
  let source ← ofOption entry.source
    (.conflict (text "This status change is not revertable.") (text "not_revertable"))
  let app ← loadApp entry.application r.visible
  require (app.state = some entry.target)
    (.conflict (text "A newer status change exists; revert that first.") (text "stale_revert"))
  refuse r.refused
  moveState ⟨entry.application, entry.target, source⟩ r.budgetUnchanged
    (.conflict (text "Concurrent status change detected; revert again.") (text "stale_revert"))

/-- `create`, up to its commit. -/
def createApplication (c : Create) : P Unit := do
  let db ← query
  let type ← ofOption (db.formType c.type) (typeNotFound c.type)
  let db ← query
  let version ← ofOption (db.activeVersions .flow).head? (.notFound (text "no active global flow"))
  let _ ← ofOption type.activeVersion (.notFound (text "application type has no active form version"))
  let initial ← ofOption version.content.initial (.notFound (text "flow has no initial state"))
  refuse c.refused
  let db ← lockRow fun _ => some (.application c.id)
  require (db.application c.id).isNone .integrityError
  let target : StateRef := ⟨version.number, initial⟩
  update (·.insertApplication ⟨c.id, version.number, some target⟩)
  update (·.insertEvent ⟨c.id, none, target⟩)
  update (·.setLast (.create ⟨c.id, target⟩))
  publish

end StatusChanges

inductive Request where
  | saveForm (type : Uuid) (fields : Json) (activate : Bool) (description : Json)
  | setFormActive (type : Uuid) (active : Bool)
  | saveFlow (graph : Json) (budgetRefs : Bool)
  | saveSite (branding : Json)
  | putHelpTickets (help tickets : Json)
  | restore (e : Entity) (revision : ℕ) (allowed budgetRefs : Bool)
  | revert (e : Entity) (revision : ℕ) (allowed budgetRefs : Bool)
  | fire (f : Fire)
  | force (f : Force)
  | revertStatus (r : RevertStatus)
  | create (c : Create)

def script (C : Rules) : Request → P Unit
  | .saveForm type fields activate description => do
      let p ← ofOption (readForm C (.obj [(text "fields", fields), (text "description", description)])) .invalidInput
      createFormVersion C type p.1 p.2 activate none
  | .setFormActive type active => setFormActive type active
  | .saveFlow graph budgetRefs => reapplySnapshot C .flow graph budgetRefs none
  | .saveSite branding => reapplySnapshot C .site branding true none
  | .putHelpTickets help tickets => putHelpTickets C help tickets
  | .restore e n allowed budgetRefs => restoreRevision C e n allowed budgetRefs
  | .revert e n allowed budgetRefs => revertConfig C e n allowed budgetRefs
  | .fire f => fire f
  | .force f => forceStatus f
  | .revertStatus r => revertStatus r
  | .create c => createApplication c

end Config
