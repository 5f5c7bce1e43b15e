import Mathlib.Data.List.Sort
import StupaWorkflow.PyText
import StupaWorkflow.Tables

/-!
Personal data and its erasure: the accounts, applicants and ticket reporters and what hangs on
them, the access report of an address, the three erasures, and the requests that write these
tables.
-/
namespace Privacy
open Py

abbrev Uuid := ℕ
abbrev Time := ℕ

inductive Problem where
  | notFound (what : Text)
  | forbidden (code : Text)
  | conflict (code : Text)
  | validation (code : Text)
  deriving DecidableEq

section Rows

structure Principal where
  id : Uuid
  sub : Text
  email : Option Text := none
  displayName : Option Text := none
  calendarToken : Option Text := none
  oidcGroups : Option (List Text) := none
  active : Bool := true
  lastLogin : Option Time := none
  mergedInto : Option Uuid := none
  deriving DecidableEq

structure Applicant where
  applicationId : Uuid
  email : Option Text
  name : Option Text
  anonymizedAt : Option Time := none
  deriving DecidableEq

/-- The type name and the state label are the ones in the language of the report. -/
structure ApplicationContent where
  typeName : Text
  status : Text
  createdAt : Time
  data : List (Text × Text)
  captureIntake : Option Text := none
  deriving DecidableEq

structure Application where
  id : Uuid
  content : ApplicationContent
  deriving DecidableEq

structure SubmissionVersion where
  applicationId : Uuid
  version : ℕ
  changedBy : Option Text
  writtenAt : Time
  data : List (Text × Text)
  deriving DecidableEq

inductive AuthorKind where
  | applicant
  | staff
  deriving DecidableEq

inductive Visibility where
  | internal
  | everyone
  deriving DecidableEq

structure Comment where
  id : Uuid
  applicationId : Uuid
  authorKind : AuthorKind
  visibility : Visibility
  body : Text
  writtenAt : Time
  deriving DecidableEq

inductive Owner where
  | application (k : Uuid)
  | comment (k : Uuid)
  | ticket (k : Uuid)
  | ticketNote (k : Uuid)
  | todoComment (k : Uuid)
  deriving DecidableEq

structure Attachment where
  id : Uuid
  owner : Owner
  filename : Text
  mime : Text
  size : ℕ
  createdAt : Time
  deriving DecidableEq

structure Meeting where
  id : Uuid
  title : Text
  date : Time
  deriving DecidableEq

inductive AttendanceSource where
  | own
  | lead
  deriving DecidableEq

structure MeetingAttendance where
  meetingId : Uuid
  principalId : Uuid
  absent : Bool
  source : AttendanceSource
  note : Option Text
  deriving DecidableEq

structure TicketContent where
  title : Text
  body : Text
  status : Text
  createdAt : Time
  deriving DecidableEq

structure Ticket where
  id : Uuid
  number : ℕ
  content : TicketContent
  reporterPrincipalId : Option Uuid
  reporterEmail : Option Text
  context : List (Text × Text)
  anonymizedAt : Option Time := none
  deriving DecidableEq

structure TicketNote where
  id : Uuid
  ticketId : Uuid
  authorId : Option Uuid
  body : Text
  visibility : Visibility
  createdAt : Time
  deletedAt : Option Time := none
  deriving DecidableEq

structure TicketEvent where
  ticketId : Uuid
  actorId : Option Uuid
  kind : Text
  deriving DecidableEq

structure TicketSenderBlock where
  id : Uuid
  principalId : Option Uuid
  email : Option Text
  createdAt : Time
  hitCount : ℕ := 0
  lastHitAt : Option Time := none
  deriving DecidableEq

structure TodoBoard where
  id : Uuid
  name : Text
  personal : Bool
  ownerId : Option Uuid
  deriving DecidableEq

structure TodoColumn where
  id : Uuid
  boardId : Uuid
  name : Text
  position : ℕ
  isDone : Bool
  deriving DecidableEq

structure TodoCard where
  id : Uuid
  boardId : Uuid
  columnId : Uuid
  title : Text
  description : Text
  dueDate : Option Time
  createdBy : Option Uuid
  createdAt : Time
  deriving DecidableEq

structure TodoAssignee where
  cardId : Uuid
  principalId : Uuid
  deriving DecidableEq

structure TodoComment where
  id : Uuid
  cardId : Uuid
  authorId : Option Uuid
  body : Text
  createdAt : Time
  deletedAt : Option Time := none
  deriving DecidableEq

/-- The tables that hang on the accounts, the applications and the tickets. -/
structure Satellites where
  sessions : List Uuid := []
  magicLinks : List Uuid := []
  applicantSessions : List Uuid := []
  versions : List SubmissionVersion := []
  comments : List Comment := []
  attachments : List Attachment := []
  meetings : List Meeting := []
  attendance : List MeetingAttendance := []
  notes : List TicketNote := []
  events : List TicketEvent := []
  boards : List TodoBoard := []
  columns : List TodoColumn := []
  cards : List TodoCard := []
  assignees : List TodoAssignee := []
  todoComments : List TodoComment := []
  deriving DecidableEq

/-- `next` is where `uuid4` goes on: it never returns an id twice. -/
structure Db where
  principals : List Principal := []
  applicants : List Applicant := []
  applications : List Application := []
  tickets : List Ticket := []
  blocks : List TicketSenderBlock := []
  satellites : Satellites := {}
  next : Uuid := 0
  deriving DecidableEq

/-- The case folding of a `citext` column, `str.lower`, and the fields of an application
that any version of its form marks as personal. -/
structure Env where
  fold : Text → Text
  lower : Text → Text
  piiKeys : Application → List Text

end Rows

section Lookups

variable (env : Env)

/-- A `citext` column compared with an address. -/
def sameAddress (stored : Option Text) (email : Text) : Bool := stored.any fun s => env.fold s = env.fold email

def normalizeEmail (value : Text) : Text := env.lower (strip value)

def Db.getPrincipal (d : Db) (k : Uuid) : Except Problem Principal :=
  ((d.principals.find? fun p => p.id = k).map .ok).getD (.error (.notFound (text "principal")))

def Db.getApplication (d : Db) (k : Uuid) : Except Problem Application :=
  ((d.applications.find? fun a => a.id = k).map .ok).getD (.error (.notFound (text "application")))

def Db.getTicket (d : Db) (k : Uuid) : Except Problem Ticket :=
  ((d.tickets.find? fun t => t.id = k).map .ok).getD (.error (.notFound (text "ticket")))

end Lookups

section Erasure

variable (env : Env) (now : Time)

def Ticket.anonymized (t : Ticket) : Ticket :=
  { t with reporterPrincipalId := none, reporterEmail := none, context := [], anonymizedAt := some now }

/-- `TicketService.anonymize` of a ticket as it was read. -/
def Satellites.withoutReporter (s : Satellites) (t : Ticket) : Satellites :=
  let noteIds := (s.notes.filter fun n => n.ticketId = t.id).map fun n => n.id
  { s with
    attachments := s.attachments.filter fun a =>
      !(a.owner = .ticket t.id || noteIds.any fun k => a.owner = .ticketNote k)
    notes := s.notes.map fun n =>
      if n.ticketId = t.id && t.reporterPrincipalId.isSome && n.authorId = t.reporterPrincipalId &&
          n.visibility = .everyone
      then { n with authorId := none } else n
    events := s.events.map fun e =>
      if e.ticketId = t.id && e.kind = text "created" then { e with actorId := none } else e }

def Db.anonymizeTicket (t : Ticket) (d : Db) : Db :=
  { d with
    tickets := Table.modify Ticket.id t.id (Ticket.anonymized now) d.tickets
    satellites := d.satellites.withoutReporter t }

/-- The tickets of a reporter that are not anonymized, in the order of their ids. An
empty address matches nothing. -/
def Db.reportedBy (d : Db) (principalId : Option Uuid) (email : Option Text) : List Ticket :=
  (d.tickets.filter fun t =>
    ((principalId.isSome && t.reporterPrincipalId = principalId) ||
      (email.any fun e => e ≠ [] && sameAddress env t.reporterEmail e)) &&
      t.anonymizedAt.isNone).insertionSort fun s t => s.id ≤ t.id

def Db.anonymizeReportedTickets (d : Db) (principalId : Option Uuid) (email : Option Text) : Db :=
  (d.reportedBy env principalId email).foldl (fun d t => d.anonymizeTicket now t) d

def Db.eraseSenderBlocks (d : Db) (principalId : Option Uuid) (email : Option Text) : Db :=
  { d with
    blocks := d.blocks.filter fun b =>
      !((principalId.isSome && b.principalId = principalId) ||
        (email.any fun e => e ≠ [] && b.email = some (normalizeEmail env e))) }

/-- `erase_todos`: the assignments, and the personal board with what hangs on it. -/
def Satellites.eraseTodos (s : Satellites) (k : Uuid) : Satellites :=
  let boards := (s.boards.filter fun b => b.personal && b.ownerId = some k).map fun b => b.id
  let cards := (s.cards.filter fun c => boards.contains c.boardId).map fun c => c.id
  let comments := (s.todoComments.filter fun c => cards.contains c.cardId).map fun c => c.id
  { s with
    attachments := s.attachments.filter fun a => !comments.any fun c => a.owner = .todoComment c
    assignees := s.assignees.filter fun a => !(a.principalId = k || cards.contains a.cardId)
    boards := s.boards.filter fun b => !boards.contains b.id
    columns := s.columns.filter fun c => !boards.contains c.boardId
    cards := s.cards.filter fun c => !boards.contains c.boardId
    todoComments := s.todoComments.filter fun c => !cards.contains c.cardId }

def Principal.erased (p : Principal) : Principal :=
  { p with email := none, displayName := none, calendarToken := none, oidcGroups := none, active := false }

def Satellites.withoutExcuses (s : Satellites) (k : Uuid) : Satellites :=
  { s with
    attendance := s.attendance.map fun r => if r.principalId = k && r.note.isSome then { r with note := none } else r }

def erase (k : Uuid) (actor : Text) (d : Db) : Except Problem Db := do
  let p ← d.getPrincipal k
  raiseUnless (p.sub ≠ actor) (.conflict (text "erase_self"))
  raiseUnless p.mergedInto.isNone (.conflict (text "erase_merged"))
  let blank : Db :=
    { d with
      principals := Table.modify Principal.id k Principal.erased d.principals
      satellites := d.satellites.withoutExcuses k }
  let unreported := (blank.anonymizeReportedTickets env now (some k) p.email).eraseSenderBlocks env (some k) p.email
  let s := unreported.satellites.eraseTodos k
  return { unreported with satellites := { s with sessions := s.sessions.filter fun owner => owner ≠ k } }

def Applicant.blank (a : Applicant) : Applicant :=
  { a with email := none, name := none, anonymizedAt := some now }

def ApplicationContent.blank (keys : List Text) (c : ApplicationContent) : ApplicationContent :=
  { c with captureIntake := none, data := c.data.filter fun field => !keys.contains field.1 }

/-- What `AnonymizeOps.anonymize` writes beside the application and its applicant. -/
def Satellites.anonymizeApplication (s : Satellites) (k : Uuid) (keys : List Text) : Satellites :=
  let comments := (s.comments.filter fun c => c.applicationId = k).map fun c => c.id
  { s with
    versions := s.versions.map fun v =>
      if v.applicationId = k then { v with data := v.data.filter fun field => !keys.contains field.1 } else v
    comments := s.comments.map fun c =>
      if c.applicationId = k && c.authorKind = .applicant then { c with body := text "[anonymisiert]" } else c
    magicLinks := s.magicLinks.filter fun a => a ≠ k
    applicantSessions := s.applicantSessions.filter fun a => a ≠ k
    attachments := s.attachments.filter fun a =>
      !(a.owner = .application k || comments.any fun c => a.owner = .comment c) }

def anonymize (k : Uuid) (d : Db) : Except Problem Db := do
  let app ← d.getApplication k
  let keys := env.piiKeys app
  return { d with
    applicants := Table.modify Applicant.applicationId k (Applicant.blank now) d.applicants
    applications := Table.modify Application.id k
      (fun a => { a with content := a.content.blank keys }) d.applications
    satellites := d.satellites.anonymizeApplication k keys }

def eraseEmail (email : Text) (d : Db) : Except Problem Db := do
  let appIds := (d.applicants.filter fun a => sameAddress env a.email email && a.anonymizedAt.isNone).map fun a =>
    a.applicationId
  let d ← appIds.foldlM (fun d k => anonymize env now k d) d
  return (d.anonymizeReportedTickets env now none (some email)).eraseSenderBlocks env none (some email)

end Erasure

section Report

structure AuskunftApplication where
  id : Uuid
  typeName : Text
  status : Text
  createdAt : Time
  applicantName : Option Text
  data : List (Text × Text)
  deriving DecidableEq

structure AuskunftComment where
  applicationId : Uuid
  authorKind : AuthorKind
  visibility : Visibility
  body : Text
  writtenAt : Time
  attachments : List Text
  deriving DecidableEq

/-- A file of an application or of a ticket, which the report names by its number. -/
structure AuskunftFile where
  applicationId : Option Uuid := none
  ticketNumber : Option ℕ := none
  filename : Text
  mime : Text
  size : ℕ
  createdAt : Time
  deriving DecidableEq

structure AuskunftAttendance where
  meetingId : Uuid
  meetingTitle : Text
  meetingDate : Time
  absent : Bool
  source : AttendanceSource
  note : Option Text
  deriving DecidableEq

structure AuskunftTicket where
  number : ℕ
  content : TicketContent
  context : List (Text × Text)
  deriving DecidableEq

structure AuskunftNote where
  ticketNumber : ℕ
  visibility : Visibility
  createdAt : Time
  deletedAt : Option Time
  body : Text
  attachments : List Text
  deriving DecidableEq

structure AuskunftCard where
  board : Text
  title : Text
  column : Text
  dueDate : Option Time
  createdAt : Time
  description : Option Text
  deriving DecidableEq

structure AuskunftTodoComment where
  card : Text
  body : Text
  createdAt : Time
  deletedAt : Option Time
  attachments : List Text
  deriving DecidableEq

structure AuskunftBlock where
  ofAccount : Bool
  createdAt : Time
  hitCount : ℕ
  lastHitAt : Option Time
  deriving DecidableEq

structure AuskunftPrincipal where
  sub : Text
  email : Option Text
  displayName : Option Text
  active : Bool
  lastLogin : Option Time
  deriving DecidableEq

structure Auskunft where
  email : Text
  applications : List AuskunftApplication
  versions : List SubmissionVersion
  comments : List AuskunftComment
  attachments : List AuskunftFile
  attendance : List AuskunftAttendance
  tickets : List AuskunftTicket
  ticketNotes : List AuskunftNote
  todos : List AuskunftCard
  todoComments : List AuskunftTodoComment
  senderBlocks : List AuskunftBlock
  principal : Option AuskunftPrincipal
  deriving DecidableEq

/-- `ORDER BY` on columns of numbers. -/
def orderBy {α : Type} (key : α → List ℕ) (rows : List α) : List α := rows.insertionSort fun a b => key a ≤ key b

def Satellites.fileNames (s : Satellites) (owner : Owner) : List Text :=
  (orderBy (fun a => [a.createdAt, a.id]) (s.attachments.filter fun a => a.owner = owner)).map fun a => a.filename

/-- The live account first: not merged, then active, then the newest login. -/
def Principal.before (p q : Principal) : Bool :=
  if p.mergedInto.isSome ≠ q.mergedInto.isSome then p.mergedInto.isNone
  else if p.active ≠ q.active then p.active
  else match p.lastLogin, q.lastLogin with
    | some a, some b => b ≤ a
    | _, none => true
    | none, some _ => false

variable (env : Env) (d : Db)

def Db.accountOf (email : Text) : Option Principal :=
  ((d.principals.filter fun p => sameAddress env p.email email).insertionSort fun p q => p.before q).head?

def Db.reportApplications (applicants : List Applicant) : List AuskunftApplication :=
  (d.applications.filter fun a => applicants.any fun x => x.applicationId = a.id).map fun a =>
    { id := a.id, typeName := a.content.typeName, status := a.content.status, createdAt := a.content.createdAt
      applicantName := (applicants.find? fun x => x.applicationId = a.id).elim (some []) fun x => x.name
      data := a.content.data }

def Db.reportVersions (appIds : List Uuid) : List SubmissionVersion :=
  orderBy (fun v => [v.applicationId, v.version]) (d.satellites.versions.filter fun v => appIds.contains v.applicationId)

def Db.reportComments (appIds : List Uuid) : List AuskunftComment :=
  let rows := d.satellites.comments.filter fun c =>
    appIds.contains c.applicationId && (c.authorKind = .applicant || c.visibility = .everyone)
  (orderBy (fun c => [c.applicationId, c.writtenAt]) rows).map fun c =>
    { applicationId := c.applicationId, authorKind := c.authorKind, visibility := c.visibility, body := c.body
      writtenAt := c.writtenAt, attachments := d.satellites.fileNames (.comment c.id) }

def Owner.applicationId : Owner → Option Uuid
  | .application k => some k
  | _ => none

def Owner.ticketId : Owner → Option Uuid
  | .ticket k => some k
  | _ => none

def Satellites.filesOf (s : Satellites) (ownerId : Owner → Option Uuid) (ids : List Uuid) : List (Uuid × Attachment) :=
  let rows := s.attachments.filterMap fun a => ((ownerId a.owner).filter ids.contains).map fun k => (k, a)
  orderBy (fun row => [row.1, row.2.createdAt]) rows

def Db.reportApplicationFiles (appIds : List Uuid) : List AuskunftFile :=
  (d.satellites.filesOf Owner.applicationId appIds).map fun row =>
    { applicationId := some row.1, filename := row.2.filename, mime := row.2.mime, size := row.2.size
      createdAt := row.2.createdAt }

def Db.reportTicketFiles (tickets : List Ticket) : List AuskunftFile :=
  (d.satellites.filesOf Owner.ticketId (tickets.map fun t => t.id)).map fun row =>
    { ticketNumber := (tickets.find? fun t => t.id = row.1).map fun t => t.number, filename := row.2.filename
      mime := row.2.mime, size := row.2.size, createdAt := row.2.createdAt }

def Db.reportAttendance (k : Uuid) : List AuskunftAttendance :=
  let rows := (d.satellites.attendance.filter fun r => r.principalId = k).flatMap fun r =>
    (d.satellites.meetings.filter fun m => m.id = r.meetingId).map fun m => (m, r)
  (orderBy (fun row => [row.1.date, row.1.id]) rows).map fun row =>
    { meetingId := row.1.id, meetingTitle := row.1.title, meetingDate := row.1.date, absent := row.2.absent
      source := row.2.source, note := row.2.note }

def Db.reportNotes (k : Uuid) : List AuskunftNote :=
  let rows := (d.satellites.notes.filter fun n => n.authorId = some k).flatMap fun n =>
    (d.tickets.filter fun t => t.id = n.ticketId).map fun t => (t, n)
  (orderBy (fun row => [row.1.number, row.2.createdAt, row.2.id]) rows).map fun row =>
    { ticketNumber := row.1.number, visibility := row.2.visibility, createdAt := row.2.createdAt
      deletedAt := row.2.deletedAt, body := row.2.body, attachments := d.satellites.fileNames (.ticketNote row.2.id) }

/-- `todo_export`, the cards: created by one of the accounts or assigned to one. The
description is the text of the creator. -/
def Satellites.exportCards (s : Satellites) (ids : List Uuid) : List AuskunftCard :=
  let assigned := (s.assignees.filter fun a => ids.contains a.principalId).map fun a => a.cardId
  let own (c : TodoCard) : Bool := c.createdBy.any ids.contains
  let rows := (s.cards.filter fun c => own c || assigned.contains c.id).flatMap fun c =>
    (s.boards.filter fun b => b.id = c.boardId).flatMap fun b =>
      (s.columns.filter fun col => col.id = c.columnId).map fun col => (c, b, col)
  (orderBy (fun row => [row.1.createdAt, row.1.id]) rows).map fun row =>
    { board := row.2.1.name, title := row.1.title, column := row.2.2.name, dueDate := row.1.dueDate
      createdAt := row.1.createdAt, description := if own row.1 then some row.1.description else none }

/-- `todo_export`, the comments. -/
def Satellites.exportComments (s : Satellites) (ids : List Uuid) : List AuskunftTodoComment :=
  let rows := (s.todoComments.filter fun c => c.authorId.any ids.contains).flatMap fun c =>
    (s.cards.filter fun card => card.id = c.cardId).map fun card => (card, c)
  (orderBy (fun row => [row.2.createdAt, row.2.id]) rows).map fun row =>
    { card := row.1.title, body := row.2.body, createdAt := row.2.createdAt, deletedAt := row.2.deletedAt
      attachments := s.fileNames (.todoComment row.2.id) }

def Db.senderBlocksOf (principalId : Option Uuid) (email : Text) : List TicketSenderBlock :=
  orderBy (fun b => [b.createdAt, b.id]) (d.blocks.filter fun b =>
    b.email = some (normalizeEmail env email) || (principalId.isSome && b.principalId = principalId))

def Db.reportTickets (principalId : Option Uuid) (email : Text) : List Ticket :=
  orderBy (fun t => [t.number]) (d.tickets.filter fun t =>
    sameAddress env t.reporterEmail email || (principalId.isSome && t.reporterPrincipalId = principalId))

def collect (email : Text) : Auskunft :=
  let applicants := d.applicants.filter fun a => sameAddress env a.email email
  let appIds := applicants.map fun a => a.applicationId
  let account := d.accountOf env email
  let k := account.map fun p => p.id
  let tickets := d.reportTickets env k email
  { email := email
    applications := d.reportApplications applicants
    versions := d.reportVersions appIds
    comments := d.reportComments appIds
    attachments := d.reportApplicationFiles appIds ++ d.reportTicketFiles tickets
    attendance := k.elim [] d.reportAttendance
    tickets := tickets.map fun t => ⟨t.number, t.content, t.context⟩
    ticketNotes := k.elim [] d.reportNotes
    todos := d.satellites.exportCards k.toList
    todoComments := d.satellites.exportComments k.toList
    senderBlocks := (d.senderBlocksOf env k email).map fun b => ⟨b.principalId.isSome, b.createdAt, b.hitCount, b.lastHitAt⟩
    principal := account.map fun p => ⟨p.sub, p.email, p.displayName, p.active, p.lastLogin⟩ }

structure Auskunft.Empty (r : Auskunft) : Prop where
  applications : r.applications = []
  versions : r.versions = []
  comments : r.comments = []
  attachments : r.attachments = []
  attendance : r.attendance = []
  tickets : r.tickets = []
  ticketNotes : r.ticketNotes = []
  todos : r.todos = []
  todoComments : r.todoComments = []
  senderBlocks : r.senderBlocks = []
  principal : r.principal = none

end Report

section Blocks

variable (env : Env) (d : Db)

inductive BlockTarget where
  | principal (k : Uuid)
  | email (address : Text)
  deriving DecidableEq

/-- `_account_condition` and `_email_condition`: the blocks that hold back a sender. -/
def Db.holdsBack (b : TicketSenderBlock) : BlockTarget → Bool
  | .principal k => b.principalId = some k ||
      ((d.principals.find? fun p => p.id = k).bind fun p => p.email).any fun e => b.email = some (env.fold e)
  | .email address => b.email = some address ||
      b.principalId.any fun k => d.principals.any fun p => p.id = k && sameAddress env p.email address

/-- `block_target`: an anonymized ticket has no sender any more. -/
def Ticket.blockTarget (t : Ticket) : Option BlockTarget :=
  match t.anonymizedAt, t.reporterPrincipalId, t.reporterEmail with
  | none, some k, _ => some (.principal k)
  | none, none, some e => if e ≠ [] then some (.email (normalizeEmail env e)) else none
  | _, _, _ => none

def Db.isSelf (me : Option Uuid) : BlockTarget → Bool
  | .principal k => me = some k
  | .email address =>
    ((me.bind fun k => d.principals.find? fun p => p.id = k).bind fun p => p.email).any fun e =>
      normalizeEmail env e = address

def BlockTarget.row (target : BlockTarget) (id : Uuid) (now : Time) : TicketSenderBlock :=
  match target with
  | .principal k => { id := id, principalId := some k, email := none, createdAt := now }
  | .email address => { id := id, principalId := none, email := some address, createdAt := now }

/-- `block_sender`; the unique indexes let a second block change nothing. -/
def blockSender (ticket : Uuid) (me : Option Uuid) (now : Time) : Except Problem Db := do
  let t ← d.getTicket ticket
  let target ← (t.blockTarget env).elim (.error (.conflict (text "ticket_sender_unknown"))) .ok
  raiseUnless (!d.isSelf env me target) (.validation (text "sender_is_self"))
  let row := target.row d.next now
  let known := d.blocks.any fun b => b.principalId = row.principalId && b.email = row.email
  return { d with blocks := if known then d.blocks else d.blocks ++ [row], next := d.next + 1 }

def unblockSender (ticket : Uuid) : Except Problem Db := do
  let t ← d.getTicket ticket
  let target ← (t.blockTarget env).elim (.error (.conflict (text "ticket_sender_unknown"))) .ok
  return { d with blocks := d.blocks.filter fun b => !d.holdsBack env b target }

def senderOf (reporterId : Option Uuid) (email : Option Text) : Option BlockTarget :=
  match reporterId, email with
  | some k, _ => some (.principal k)
  | none, some e => if e ≠ [] then some (.email (normalizeEmail env e)) else none
  | none, none => none

/-- `TicketService.report` without its files: a block swallows the report, and the check
of the table wants one reporter. -/
def report (reporterId : Option Uuid) (email : Option Text) (number : ℕ) (content : TicketContent)
    (context : List (Text × Text)) (now : Time) : Except Problem Db :=
  match (senderOf env reporterId email).bind fun target => (orderBy (fun b => [b.createdAt]) d.blocks).find? fun b =>
      d.holdsBack env b target with
  | some b =>
    .ok { d with
      blocks := Table.modify TicketSenderBlock.id b.id
        (fun b => { b with hitCount := b.hitCount + 1, lastHitAt := some now }) d.blocks }
  | none => do
      raiseUnless (reporterId.isSome || email.isSome) (.validation (text "email"))
      let t : Ticket :=
        { id := d.next, number := number, content := content, reporterPrincipalId := reporterId
          reporterEmail := if reporterId.isSome then none else email, context := context }
      return { d with
        tickets := d.tickets ++ [t]
        satellites := { d.satellites with events := d.satellites.events ++ [⟨d.next, reporterId, text "created"⟩] }
        next := d.next + 1 }

end Blocks

section Accounts

variable (d : Db)

/-- `upsert_principal`. -/
def login (sub : Text) (email name : Option Text) (groups : List Text) (now : Time) : Except Problem Db :=
  match d.principals.find? fun p => p.sub = sub with
  | none =>
    .ok { d with
      principals := d.principals ++
        [{ id := d.next, sub := sub, email := email, displayName := name, oidcGroups := some groups, lastLogin := some now }]
      next := d.next + 1 }
  | some p => do
      raiseUnless p.mergedInto.isNone (.forbidden (text "account_merged"))
      return { d with
        principals := Table.modify Principal.id p.id
          (fun p => { p with email := email, displayName := name, oidcGroups := some groups, lastLogin := some now })
          d.principals }

/-- A merged account is a locked reference, which is never active again. -/
def setActive (k : Uuid) (active : Bool) (actor : Text) : Except Problem Db := do
  let p ← d.getPrincipal k
  raiseUnless (active || p.sub ≠ actor) (.conflict (text "self_deactivation"))
  raiseUnless (!active || p.mergedInto.isNone) (.conflict (text "principal_merged"))
  return { d with
    principals := Table.modify Principal.id k (fun p => { p with active := active }) d.principals
    satellites := { d.satellites with
      sessions := if active then d.satellites.sessions else d.satellites.sessions.filter fun owner => owner ≠ k } }

def rewrite (old new : Uuid) (k : Option Uuid) : Option Uuid := if k = some old then some new else k

/-- `_combined_tables`: the row of the target wins. A moved own report of an absence is
one of the lead. -/
def combinedAttendance (old new : Uuid) (rows : List MeetingAttendance) : List MeetingAttendance :=
  (rows.filter fun r =>
    !(r.principalId = old && rows.any fun s => s.principalId = new && s.meetingId = r.meetingId)).map fun r =>
      if r.principalId = old then
        { r with principalId := new, source := if r.source = .own && r.absent then .lead else r.source }
      else r

def combinedAssignees (old new : Uuid) (rows : List TodoAssignee) : List TodoAssignee :=
  (rows.filter fun a => !(a.principalId = old && rows.any fun b => b.principalId = new && b.cardId = a.cardId)).map fun a =>
    if a.principalId = old then { a with principalId := new } else a

def combinedBlocks (old new : Uuid) (rows : List TicketSenderBlock) : List TicketSenderBlock :=
  (rows.filter fun b => !(b.principalId = some old && rows.any fun c => c.principalId = some new)).map fun b =>
    { b with principalId := rewrite old new b.principalId }

/-- `fold_personal_board`: a done card goes to the done column, every other one to the
first. -/
def Satellites.foldBoard (s : Satellites) (mine theirs : Uuid) : Satellites :=
  let columns := orderBy (fun c => [c.position, c.id]) (s.columns.filter fun c => c.boardId = theirs)
  match columns.head?, columns.find? fun c => c.isDone with
  | some first, some done =>
    let isDone (c : TodoCard) : Bool := s.columns.any fun col => col.id = c.columnId && col.isDone
    { s with
      cards := s.cards.map fun c =>
        if c.boardId = mine then { c with boardId := theirs, columnId := if isDone c then done.id else first.id } else c
      boards := s.boards.filter fun b => b.id ≠ mine
      columns := s.columns.filter fun c => c.boardId ≠ mine }
  | _, _ => s

/-- `_todos`: the personal board changes its owner, or its cards move. -/
def Satellites.moveBoard (s : Satellites) (old new : Uuid) : Satellites :=
  let boardOf (k : Uuid) : Option TodoBoard := s.boards.find? fun b => b.personal && b.ownerId = some k
  match boardOf old, boardOf new with
  | none, _ => s
  | some mine, none =>
    { s with boards := Table.modify TodoBoard.id mine.id (fun b => { b with ownerId := some new }) s.boards }
  | some mine, some theirs => s.foldBoard mine.id theirs.id

def Satellites.merged (s : Satellites) (source target : Principal) : Satellites :=
  let moved := rewrite source.id target.id
  let rewritten : Satellites :=
    { s with
      sessions := s.sessions.filter fun k => k ≠ source.id
      versions := s.versions.map fun v =>
        if v.changedBy = some source.sub then { v with changedBy := some target.sub } else v
      attendance := combinedAttendance source.id target.id s.attendance
      assignees := combinedAssignees source.id target.id s.assignees
      notes := s.notes.map fun n => { n with authorId := moved n.authorId }
      events := s.events.map fun e => { e with actorId := moved e.actorId }
      cards := s.cards.map fun c => { c with createdBy := moved c.createdBy }
      todoComments := s.todoComments.map fun c => { c with authorId := moved c.authorId } }
  rewritten.moveBoard source.id target.id

/-- `_source_row`: the source is locked as a reference to the target, and earlier merges
into the source move on. Its address and its name stay. -/
def Principal.mergedRow (source target : Uuid) (p : Principal) : Principal :=
  if p.id = source then { p with mergedInto := some target, active := false, calendarToken := none }
  else { p with mergedInto := rewrite source target p.mergedInto }

/-- `PrincipalMergeService.merge`. Whether an account was erased, and the conflicts and
the missing rights, are answers of the request. -/
def merge (sourceId targetId : Uuid) (actor : Text) (erased : Bool) (refused : Option Problem) : Except Problem Db := do
  raiseUnless (sourceId ≠ targetId) (.validation (text "merge_same_principal"))
  let source ← d.getPrincipal sourceId
  let target ← d.getPrincipal targetId
  raiseUnless source.mergedInto.isNone (.conflict (text "principal_already_merged"))
  raiseUnless target.mergedInto.isNone (.conflict (text "merge_target_merged"))
  raiseUnless target.active (.conflict (text "merge_target_inactive"))
  raiseUnless (!erased) (.conflict (text "principal_erased"))
  raiseUnless (source.sub ≠ actor) (.conflict (text "merge_own_account"))
  refused.elim (.ok ()) .error
  return { d with
    principals := d.principals.map (Principal.mergedRow source.id target.id)
    tickets := d.tickets.map fun t => { t with reporterPrincipalId := rewrite source.id target.id t.reporterPrincipalId }
    blocks := combinedBlocks source.id target.id d.blocks
    satellites := d.satellites.merged source target }

end Accounts

section Applications

variable (d : Db)

def submit (email : Text) (name : Option Text) (content : ApplicationContent) (actor : Option Text) : Db :=
  let s := d.satellites
  { d with
    applications := d.applications ++ [⟨d.next, content⟩]
    applicants := d.applicants ++ [{ applicationId := d.next, email := some email, name := name }]
    satellites := { s with versions := s.versions ++ [⟨d.next, 1, actor, content.createdAt, content.data⟩] }
    next := d.next + 1 }

def deleteApplication (k : Uuid) : Db :=
  let s := d.satellites
  let comments := (s.comments.filter fun c => c.applicationId = k).map fun c => c.id
  { d with
    applications := d.applications.filter fun a => a.id ≠ k
    applicants := d.applicants.filter fun a => a.applicationId ≠ k
    satellites :=
      { s with
        versions := s.versions.filter fun v => v.applicationId ≠ k
        comments := s.comments.filter fun c => c.applicationId ≠ k
        magicLinks := s.magicLinks.filter fun a => a ≠ k
        applicantSessions := s.applicantSessions.filter fun a => a ≠ k
        attachments := s.attachments.filter fun a =>
          !(a.owner = .application k || comments.any fun c => a.owner = .comment c) } }

end Applications

/-- The requests. The last one stands for every other write of the tables that hang on
the accounts, the applications and the tickets. -/
inductive Request where
  | login (sub : Text) (email name : Option Text) (groups : List Text) (now : Time)
  | setActive (k : Uuid) (active : Bool) (actor : Text)
  | merge (source target : Uuid) (actor : Text) (erased : Bool) (refused : Option Problem)
  | submit (email : Text) (name : Option Text) (content : ApplicationContent) (actor : Option Text)
  | editApplication (k : Uuid) (content : ApplicationContent)
  | deleteApplication (k : Uuid)
  | anonymize (k : Uuid) (now : Time)
  | report (reporterId : Option Uuid) (email : Option Text) (number : ℕ) (content : TicketContent)
      (context : List (Text × Text)) (now : Time)
  | editTicket (k : Uuid) (content : TicketContent)
  | anonymizeTicket (k : Uuid) (now : Time)
  | blockSender (ticket : Uuid) (me : Option Uuid) (now : Time)
  | unblockSender (ticket : Uuid)
  | deleteBlock (k : Uuid)
  | erase (k : Uuid) (actor : Text) (now : Time)
  | eraseApplicant (k : Uuid) (email : Option Text) (now : Time)
  | eraseEmail (email : Text) (now : Time)
  | others (satellites : Satellites)

def eraseApplicant (env : Env) (now : Time) (k : Uuid) (email : Option Text) (d : Db) : Except Problem Db := do
  let d ← anonymize env now k d
  return (d.anonymizeReportedTickets env now none email).eraseSenderBlocks env none email

def anonymizeTicket (now : Time) (k : Uuid) (d : Db) : Except Problem Db := do
  let t ← d.getTicket k
  return d.anonymizeTicket now t

def Request.handle (env : Env) : Request → Db → Except Problem Db
  | .login sub email name groups now, d => Privacy.login d sub email name groups now
  | .setActive k active actor, d => Privacy.setActive d k active actor
  | .merge source target actor erased refused, d => Privacy.merge d source target actor erased refused
  | .submit email name content actor, d => .ok (Privacy.submit d email name content actor)
  | .editApplication k content, d =>
    .ok { d with applications := Table.modify Application.id k (fun a => { a with content := content }) d.applications }
  | .deleteApplication k, d => .ok (Privacy.deleteApplication d k)
  | .anonymize k now, d => Privacy.anonymize env now k d
  | .report reporterId email number content context now, d => Privacy.report env d reporterId email number content context now
  | .editTicket k content, d =>
    .ok { d with tickets := Table.modify Ticket.id k (fun t => { t with content := content }) d.tickets }
  | .anonymizeTicket k now, d => Privacy.anonymizeTicket now k d
  | .blockSender ticket me now, d => Privacy.blockSender env d ticket me now
  | .unblockSender ticket, d => Privacy.unblockSender env d ticket
  | .deleteBlock k, d => .ok { d with blocks := d.blocks.filter fun b => b.id ≠ k }
  | .erase k actor now, d => Privacy.erase env now k actor d
  | .eraseApplicant k email now, d => Privacy.eraseApplicant env now k email d
  | .eraseEmail email now, d => Privacy.eraseEmail env now email d
  | .others satellites, d => .ok { d with satellites := satellites }

def step (op : Env × Request) (d : Db) : Option Db := (op.2.handle op.1 d).toOption

end Privacy
