import StupaWorkflow.AttachmentModel
import StupaWorkflow.Transactions

/-!
Tickets as transactions: the patch of a manager, the note with its files and the retention job. A
patch reads the ticket without a lock and writes the columns that differ from what it read.
-/
namespace Tickets
open Py StorageKeys ReadCommitted
open Prog hiding bind pure

abbrev Time := Files.Time

inductive Status where
  | new
  | inProgress
  | done
  | rejected
  deriving DecidableEq

/-- `CLOSED_STATUSES`. -/
def Status.isClosed : Status → Bool
  | .done | .rejected => true
  | .new | .inProgress => false

inductive Kind where
  | bug
  | question
  | idea
  deriving DecidableEq

inductive Visibility where
  | internal
  | public_
  deriving DecidableEq

structure Ticket where
  id : Uuid
  number : ℕ
  kind : Kind
  status : Status
  reporter : Option Uuid
  reporterEmail : Option Text
  /-- The entries of the JSON object. -/
  context : List (Text × Text)
  assignee : Option Uuid
  duplicateOf : Option Uuid
  closedAt : Option Time
  anonymizedAt : Option Time
  updatedAt : Time
  deriving DecidableEq

structure Note where
  id : Uuid
  ticket : Uuid
  author : Option Uuid
  visibility : Visibility
  deriving DecidableEq

inductive EventPayload where
  | created
  /-- `duplicateOf` is the number of the other ticket. -/
  | status (before after : Status) (duplicateOf : Option ℕ)
  | assignee (before after : Option Uuid)
  | kind (before after : Kind)
  deriving DecidableEq

structure TicketEvent where
  ticket : Uuid
  actor : Option Uuid
  payload : EventPayload
  deriving DecidableEq

/-- What a transaction had read of the ticket that it changes: a patch the row, with
the status that it writes; the job the closing time. -/
inductive Seen where
  | patch (row : Ticket) (target : Status)
  | due (ticket : Uuid) (closedAt : Option Time)
  deriving DecidableEq

/-- The rows. `seen` is no column: it keeps what the last commit had read. -/
structure Db where
  tickets : List Ticket
  notes : List Note
  events : List TicketEvent
  attachments : List Files.Attachment
  tokens : List Files.DraftToken
  seen : Option Seen
  deriving DecidableEq

inductive Key where
  | ticket (id : Uuid)
  | note (id : Uuid)
  | attachment (id : Uuid)
  deriving DecidableEq

inductive Problem where
  | notFound (message : Text)
  | validation (message : Text) (code : Option Text) (errors : List (Text × Text))
  | draft (problem : Files.Problem)
  | integrityError
  | staleData
  deriving DecidableEq

structure Patch where
  ticket : Uuid
  status : Option Status
  duplicateOf : Option Uuid
  completeTodos : Bool
  /-- The field is set, with its value. -/
  assignee : Option (Option Uuid)
  /-- The answer of `ticket_managers` for the assignee. -/
  assigneeManages : Bool
  kind : Option Kind
  actor : Option Uuid
  now : Time

structure NoteCreate where
  ticket : Uuid
  note : Uuid
  /-- The account of the caller. -/
  author : Option Uuid
  /-- Every mentioned person holds `ticket.manage`. -/
  mentionsAllowed : Bool
  visibility : Visibility
  attachments : List Uuid
  /-- The hash of the draft token. -/
  draftToken : Option Files.Digest
  now : Time

/-- One run of the job; without a retention in the config there is no cutoff. -/
structure Retention where
  cutoff : Option Time
  moment : Time
  /-- The tickets whose transaction raises: the job logs the error and goes on. -/
  raises : List Uuid

inductive Request where
  | patch (p : Patch)
  | addNote (n : NoteCreate)
  | retention (r : Retention)

abbrev P := Prog Db Key Problem

section Rows

def Db.ticket (d : Db) (id : Uuid) : Option Ticket := d.tickets.find? (·.id = id)

def Db.note (d : Db) (id : Uuid) : Option Note := d.notes.find? (·.id = id)

def Db.setTicket (id : Uuid) (f : Ticket → Ticket) (d : Db) : Db :=
  { d with tickets := Table.modify (·.id) id f d.tickets }

def Db.ofTicket (d : Db) (ticket : Uuid) (a : Files.Attachment) : Bool :=
  a.ticketId = some ticket || d.notes.any fun n => n.ticket = ticket && a.ticketNoteId = some n.id

/-- A column of an UPDATE: one that equals the loaded value is not written. -/
def written {α : Type} [DecidableEq α] (loaded new current : α) : α := if new = loaded then current else new

end Rows

section PatchProgram

def ticketNotFound (id : Uuid) : Problem := .notFound (text "ticket " ++ Uuid.text id ++ text " not found")

def duplicateInvalid : Problem :=
  .validation (text "duplicateOfId names another ticket and goes with status rejected.")
    (some (text "duplicate_invalid")) [(text "duplicateOfId", text "invalid duplicate")]

def completeTodosInvalid : Problem :=
  .validation (text "completeTodos goes with the status done or rejected.") none
    [(text "completeTodos", text "needs status done or rejected")]

def assigneeNotAllowed : Problem :=
  .validation (text "The assignee must hold ticket.manage.") (some (text "assignee_not_allowed"))
    [(text "assigneeId", text "not a ticket manager")]

/-- `_get` without a lock. -/
def getTicket (id : Uuid) : P Ticket := do
  let db ← query
  ofOption (db.ticket id) (ticketNotFound id)

def duplicateTarget (p : Patch) : P (Option Ticket) :=
  match p.duplicateOf with
  | none => return none
  | some other =>
    if p.status = some .rejected && other ≠ p.ticket then do
      let db ← query
      let target ← ofOption (db.ticket other) duplicateInvalid
      return some target
    else .fail duplicateInvalid

def newStatus (row : Ticket) (p : Patch) (duplicate : Option Ticket) : Option Status :=
  p.status.filter fun s => s ≠ row.status || duplicate.isSome

/-- The closing time after `_set_status`. -/
def closedAtAfter (row : Ticket) (status : Status) (now : Time) : Option Time :=
  if !status.isClosed then none
  else if !row.status.isClosed then some now
  else row.closedAt

/-- The columns of `_set_status` on the row as it is at the write. -/
def setStatus (row : Ticket) (status : Status) (duplicate : Option Ticket) (now : Time) (t : Ticket) : Ticket :=
  { t with
    status := written row.status status t.status
    closedAt := written row.closedAt (closedAtAfter row status now) t.closedAt
    duplicateOf := written row.duplicateOf (duplicate.map (·.id)) t.duplicateOf }

def newAssignee (row : Ticket) (p : Patch) : Option (Option Uuid) := p.assignee.filter (· ≠ row.assignee)

def newKind (row : Ticket) (p : Patch) : Option Kind := p.kind.filter (· ≠ row.kind)

def patchTicket (row : Ticket) (p : Patch) (duplicate : Option Ticket) (t : Ticket) : Ticket :=
  let t := (newStatus row p duplicate).elim t fun s => setStatus row s duplicate p.now t
  let t := (newAssignee row p).elim t fun a => { t with assignee := a }
  let t := (newKind row p).elim t fun k => { t with kind := k }
  { t with updatedAt := p.now }

def patchEvents (row : Ticket) (p : Patch) (duplicate : Option Ticket) : List TicketEvent :=
  let status := (newStatus row p duplicate).map fun s => .status row.status s (duplicate.map (·.number))
  let assignee := (newAssignee row p).map fun a => .assignee row.assignee a
  let kind := (newKind row p).map fun k => .kind row.kind k
  (status.toList ++ assignee.toList ++ kind.toList).map fun payload => ⟨p.ticket, p.actor, payload⟩

def Db.applyPatch (row : Ticket) (p : Patch) (duplicate : Option Ticket) (d : Db) : Db :=
  { d.setTicket p.ticket (patchTicket row p duplicate) with
    events := d.events ++ patchEvents row p duplicate
    seen := (newStatus row p duplicate).map fun s => .patch row s }

def writeTicket (id : Uuid) (w : Db → Db) : P Unit := do
  let db ← lockRow fun db => (db.ticket id).map fun _ => .ticket id
  require (db.ticket id).isSome .staleData
  update w

/-- The checks and the writes of `patch` after its reads of the two tickets. -/
def storePatch (p : Patch) (row : Ticket) (duplicate : Option Ticket) : P Unit := do
  require (!p.completeTodos || p.status.any Status.isClosed) completeTodosInvalid
  require (!(p.assignee.any (·.isSome) && !p.assigneeManages)) assigneeNotAllowed
  if (newStatus row p duplicate).isSome || (newAssignee row p).isSome || (newKind row p).isSome then
    writeTicket p.ticket (·.applyPatch row p duplicate)
  publish

def patch (p : Patch) : P Unit := do
  let row ← getTicket p.ticket
  let duplicate ← duplicateTarget p
  storePatch p row duplicate

end PatchProgram

section NoteProgram

def ticketAnonymized : Problem :=
  .validation (text "The ticket is anonymized and takes no files.") (some (text "ticket_anonymized"))
    [(text "attachmentIds", text "ticket is anonymized")]

def draftTokenRequired : Problem :=
  .validation (text "Attachments need the draft token of their upload.") none
    [(text "draftToken", text "required with attachmentIds")]

def mentionNotMember : Problem :=
  .validation (text "Mentions must be persons who read this chat.") (some (text "mention_not_member"))
    [(text "mentions", text "Mentions must be persons who read this chat.")]

/-- `check_drafts`: lock the listed drafts of the token and refuse those that are not usable. -/
def checkDrafts (ids : List Uuid) (hash : Files.Digest) (now : Time) : P Unit := do
  let db ← query
  forEach ((db.attachments.filter (·.listedDraft ids hash)).map (·.id)) fun id => do
    let _ ← lockRow fun _ => some (.attachment id)
  let db ← query
  let expiresAt := (db.tokens.find? (·.tokenHash = hash)).map (·.expiresAt)
  let missing := Files.missingDrafts ids (db.attachments.filter (·.listedDraft ids hash)) expiresAt now
  require missing.isEmpty (.draft (Files.draftAttachmentsMissing missing))

/-- `check_message_drafts`: the token for the bind, or `none` without files. -/
def checkMessageDrafts (n : NoteCreate) : P (Option Files.Digest) :=
  if n.attachments.isEmpty then return none
  else do
    let hash ← ofOption n.draftToken draftTokenRequired
    checkDrafts n.attachments hash n.now
    return some hash

/-- The INSERT of the note, the UPDATE of `bind_drafts` and the touch of the ticket. -/
def Db.insertNote (n : NoteCreate) (author : Uuid) (token : Option Files.Digest) (d : Db) : Db :=
  { d.setTicket n.ticket ({ · with updatedAt := n.now }) with
    notes := d.notes ++ [⟨n.note, n.ticket, some author, n.visibility⟩]
    attachments := d.attachments.map fun a =>
      if token.any fun hash => a.bindable n.attachments hash then a.bind (.message .ticketNote n.note) else a
    seen := none }

def insertNote (n : NoteCreate) (row : Ticket) (author : Uuid) : P Unit := do
  require (n.attachments.isEmpty || row.anonymizedAt.isNone) ticketAnonymized
  let token ← checkMessageDrafts n
  -- the primary key of the note and the row of its foreign key
  let db ← lockRow fun _ => some (.note n.note)
  require (db.note n.note).isNone .integrityError
  writeTicket n.ticket (·.insertNote n author token)
  publish

/-- `_get`, with a lock for a note with files. -/
def readTicket (n : NoteCreate) : P Db :=
  if n.attachments.isEmpty then query
  else lockRow fun db => (db.ticket n.ticket).map fun _ => .ticket n.ticket

def addNote (n : NoteCreate) : P Unit := do
  let db ← readTicket n
  let row ← ofOption (db.ticket n.ticket) (ticketNotFound n.ticket)
  let author ← ofOption n.author (.notFound (text "account not found"))
  require n.mentionsAllowed mentionNotMember
  insertNote n row author

end NoteProgram

section RetentionProgram

/-- `_due`, each ticket with the closing time that the query saw. -/
def dueTickets (cutoff : Time) (d : Db) : List (Uuid × Option Time) :=
  let due := d.tickets.filter fun t => t.anonymizedAt.isNone && t.closedAt.any (· < cutoff)
  (due.mergeSort fun t u => t.closedAt.getD 0 ≤ u.closedAt.getD 0).map fun t => (t.id, t.closedAt)

/-- `TicketService.anonymize` of a due ticket, with the rows that `delete_for_ticket` removes. -/
def Db.anonymize (ticket : Uuid) (closedAt : Option Time) (reporter : Option Uuid) (files : List Uuid) (moment : Time)
    (d : Db) : Db :=
  { d.setTicket ticket ({ · with
      reporter := none, reporterEmail := none, context := [], anonymizedAt := some moment }) with
    attachments := d.attachments.filter fun a => !files.contains a.id
    notes := d.notes.map fun n =>
      if n.ticket = ticket && reporter.isSome && n.author = reporter && n.visibility = .public_ then
        { n with author := none }
      else n
    events := d.events.map fun e =>
      if e.ticket = ticket && e.payload = .created then { e with actor := none } else e
    seen := some (.due ticket closedAt) }

/-- `_anonymize_one`. Without a change the session closes and its lock goes. -/
def anonymizeOne (r : Retention) (due : Uuid × Option Time) : P Unit := do
  let db ← lockRow fun db => (db.ticket due.1).map fun _ => .ticket due.1
  match db.ticket due.1 with
  | none => publish
  | some row =>
    if row.anonymizedAt.isSome || r.raises.contains due.1 then publish
    else do
      let db ← query
      let files := (db.attachments.filter (db.ofTicket due.1)).map (·.id)
      forEach files fun id => do
        let _ ← lockRow fun _ => some (.attachment id)
      update (·.anonymize due.1 due.2 row.reporter files r.moment)
      publish

/-- `anonymize_tickets`: each due ticket in a transaction of its own. -/
def anonymizeTickets (r : Retention) : P Unit :=
  match r.cutoff with
  | none => return ()
  | some cutoff => do
      let db ← query
      forEach (dueTickets cutoff db) (anonymizeOne r)

end RetentionProgram

def script : Request → P Unit
  | .patch p => patch p
  | .addNote n => addNote n
  | .retention r => anonymizeTickets r

end Tickets
