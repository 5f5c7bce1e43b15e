import StupaWorkflow.PyText
import StupaWorkflow.Transactions

/-!
The minutes of one closed meeting as transactions: the protocol row, the agenda items with their
bodies, and the operations that edit, freeze, render and thaw them.
-/
namespace Minutes
open Py ReadCommitted
open Prog hiding bind pure

abbrev Time := ℕ

inductive ProtocolStatus where
  | draft
  | rendering
  | final
  deriving DecidableEq

def ProtocolStatus.text : ProtocolStatus → Text
  | .draft => Py.text "draft"
  | .rendering => Py.text "rendering"
  | .final => Py.text "final"

inductive MeetingStatus where
  | planned
  | live
  | closed
  deriving DecidableEq

structure Protocol where
  status : ProtocolStatus
  markdown : Text
  publicWithheld : Bool
  sentAt : Option Time
  deriving DecidableEq

/-- An agenda item; `applicationTitle` is the title of its application, if it has one. -/
structure Item where
  id : ℕ
  title : Option Text
  body : Text
  nonPublic : Bool
  applicationTitle : Option (Option Text)
  deriving DecidableEq

/-- The text that a finalization freezes: the markdown, and the body and the
non-public mark of each item. -/
structure Contents where
  markdown : Text
  items : List (ℕ × Text × Bool)
  deriving DecidableEq

/-- The rows of one meeting. `frozen` is no column: it keeps the contents at the
commit of the last start of a finalization, until a revert. -/
structure Db where
  meeting : MeetingStatus
  protocol : Option Protocol
  items : List Item
  voteRefs : List ℕ
  frozen : Option Contents
  deriving DecidableEq

inductive Key where
  | protocol
  | item (id : ℕ)
  | voteRef (id : ℕ)
  deriving DecidableEq

inductive Problem where
  | notFound (message : Text)
  | conflict (message code : Text)
  | validation (message code : Text)
  | staleData
  deriving DecidableEq

inductive Request where
  | updateMarkdown (markdown : Text)
  | deleteProtocol
  | embedVotes (votes : List ℕ) (snippet : ℕ → Except Problem Text)
  | setBody (item : ℕ) (body title : Option Text) (nonPublic : Option Bool) (guestVote : Bool)
  | startFinalize (publicWithheld : Option Bool)
  | finalize (now : Time)
  | revertToDraft

abbrev P := Prog Db Key Problem

section Rows

def Db.setProtocol (f : Protocol → Protocol) (d : Db) : Db := { d with protocol := d.protocol.map f }

def Db.setItem (id : ℕ) (f : Item → Item) (d : Db) : Db :=
  { d with items := d.items.map fun i => if i.id = id then f i else i }

def Db.item (d : Db) (id : ℕ) : Option Item := d.items.find? (·.id = id)

def Db.contents (d : Db) (p : Protocol) : Contents := ⟨p.markdown, d.items.map fun i => (i.id, i.body, i.nonPublic)⟩

def Db.dropProtocol (d : Db) : Db := { d with protocol := none, voteRefs := [] }

def Db.freeze (publicWithheld : Option Bool) (d : Db) : Db :=
  { d with
    protocol := d.protocol.map fun p =>
      { p with status := .rendering, publicWithheld := publicWithheld.getD p.publicWithheld }
    frozen := d.protocol.map d.contents }

def Db.thaw (d : Db) : Db := { d.setProtocol ({ · with status := .draft }) with frozen := none }

def Db.finish (now : Time) (d : Db) : Db := d.setProtocol ({ · with status := .final, sentAt := some now })

def Db.isDraft (d : Db) : Bool := d.protocol.any (·.status = .draft)

end Rows

section Programs

def protocolNotFound : Problem := .notFound (text "protocol not found")

def ensureDraft (p : Protocol) : Except Problem Unit :=
  match p.status with
  | .final => .error (.conflict (text "Protocol is finalized and read-only.") (text "protocol_finalized"))
  | .rendering => .error (.conflict (text "Protocol is being rendered and is read-only.") (text "protocol_rendering"))
  | .draft => .ok ()

/-- `_get` without a lock. -/
def getProtocol : P Protocol := do
  let db ← query
  ofOption db.protocol protocolNotFound

def writeProtocol (w : Db → Db) : P Unit := do
  let db ← lockRow fun db => db.protocol.map fun _ => .protocol
  require db.protocol.isSome .staleData
  update w

def updateMarkdown (markdown : Text) : P Unit := do
  let p ← getProtocol
  ofExcept (ensureDraft p)
  if p.markdown ≠ markdown then
    writeProtocol (·.setProtocol ({ · with markdown }))
  publish

/-- The DELETE of a row that is gone is no error. -/
def deleteProtocol : P Unit := do
  let p ← getProtocol
  ofExcept (ensureDraft p)
  let db ← lockRow fun db => db.protocol.map fun _ => .protocol
  if db.protocol.isSome then
    update Db.dropProtocol
  publish

/-- `_embed_one`: INSERT .. ON CONFLICT DO NOTHING of the reference. -/
def embedOne (snippet : ℕ → Except Problem Text) (vote : ℕ) : P (Option Text) := do
  let s ← ofExcept (snippet vote)
  let db ← lockRow fun _ => some (.voteRef vote)
  if db.voteRefs.contains vote then return none
  require db.protocol.isSome .staleData
  update fun db => { db with voteRefs := vote :: db.voteRefs }
  return some s

/-- `s.rstrip("\n")`. -/
def rstripNewlines (s : Text) : Text := (s.reverse.dropWhile (· = 10)).reverse

def joinSnippets (snippets : List Text) : Text := List.intercalate (text "\n\n") snippets

def appendSnippets (markdown : Text) (snippets : List Text) : Text :=
  let body := rstripNewlines markdown
  let joined := joinSnippets snippets
  if body = [] then joined ++ text "\n" else body ++ text "\n\n" ++ joined ++ text "\n"

def embedVotes (votes : List ℕ) (snippet : ℕ → Except Problem Text) : P Unit := do
  let p ← getProtocol
  ofExcept (ensureDraft p)
  let db ← query
  let fresh := (votes.filter fun v => !db.voteRefs.contains v).eraseDups
  let snippets ← collect (fun _ => embedOne snippet) fresh []
  if snippets ≠ [] then
    writeProtocol (·.setProtocol ({ · with markdown := appendSnippets p.markdown snippets }))
  publish

def assertMinutesOpen (meeting : MeetingStatus) : P Unit := do
  if meeting = .closed then
    let db ← query
    require db.isDraft (.conflict
      (text "the protocol is no longer a draft — the minutes can no longer change") (text "protocol_locked"))

/-- `_own_title`: an item with the title of its application stores none. -/
def ownTitle (row : Item) (title : Text) : Option Text :=
  match row.applicationTitle with
  | some (some t) => if strip title = t then none else some (strip title)
  | _ => some (strip title)

def itemWrite (row : Item) (body title : Option Text) (nonPublic : Option Bool) (i : Item) : Item :=
  let i := match body with
    | some b => if b ≠ row.body then { i with body := b } else i
    | none => i
  let i := match title with
    | some t => if ownTitle row t ≠ row.title then { i with title := ownTitle row t } else i
    | none => i
  match nonPublic with
  | some n => if n ≠ row.nonPublic then { i with nonPublic := n } else i
  | none => i

/-- The writes of `set_body` after its checks of the meeting. -/
def storeItem (item : ℕ) (row : Item) (body title : Option Text) (nonPublic : Option Bool) (guestVote : Bool) : P Unit := do
  require (!(nonPublic = some true && !row.nonPublic && guestVote)) (.conflict
    (text "Guests voted on this agenda item; it cannot become non-public.") (text "guests_vote_on_item"))
  if itemWrite row body title nonPublic row ≠ row then
    let db ← lockRow fun db => (db.item item).map fun _ => .item item
    require (db.item item).isSome .staleData
    update (·.setItem item (itemWrite row body title nonPublic))
  publish

def setBody (item : ℕ) (body title : Option Text) (nonPublic : Option Bool) (guestVote : Bool) : P Unit := do
  let db ← query
  let meeting := db.meeting
  let db ← query
  let row ← ofOption (db.item item) (.notFound (text "agenda item not found"))
  require (title.isNone || meeting ≠ .closed)
    (.conflict (text "the meeting is closed — its agenda can no longer change") (text "meeting_closed"))
  if body.isSome || nonPublic.isSome then
    assertMinutesOpen meeting
  storeItem item row body title nonPublic guestVote

def startFinalize (publicWithheld : Option Bool) : P Unit := do
  let db ← lockRow fun db => db.protocol.map fun _ => .protocol
  let p ← ofOption db.protocol protocolNotFound
  let db ← query
  require (db.meeting = .closed)
    (.conflict (text "close the meeting before the protocol is finalized") (text "meeting_not_closed"))
  require (p.status = .draft) (.conflict
    (text "the protocol is " ++ p.status.text ++ text " — it is finalized only once") (text "protocol_not_draft"))
  update (·.freeze publicWithheld)
  publish

/-- The database part of `finalize`; the render and the send change no row of these. -/
def finalize (now : Time) : P Unit := do
  let p ← getProtocol
  if p.status = .final then return ()
  writeProtocol (·.finish now)
  publish

def revertToDraft : P Unit := do
  let p ← getProtocol
  if p.status = .rendering then
    writeProtocol Db.thaw
    publish

def script : Request → P Unit
  | .updateMarkdown markdown => updateMarkdown markdown
  | .deleteProtocol => deleteProtocol
  | .embedVotes votes snippet => embedVotes votes snippet
  | .setBody item body title nonPublic guestVote => setBody item body title nonPublic guestVote
  | .startFinalize publicWithheld => startFinalize publicWithheld
  | .finalize now => finalize now
  | .revertToDraft => revertToDraft

end Programs

end Minutes
