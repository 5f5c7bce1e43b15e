import StupaWorkflow.PyTime
import StupaWorkflow.StorageKeys
import StupaWorkflow.YamlHeader

/-!
The YAML header of the minutes: the writer in the backend, which quotes every value by hand, and
the reader of the render service.
-/
namespace ProtocolHeader
open Py Yaml

section Writer

def yamlEscapes : List (ℕ × Text) := [(92, [92, 92]), (34, [92, 34]), (10, [92, 110]), (13, [92, 114]), (9, [92, 116])]

def yamlChar (ch : ℕ) : Text :=
  (yamlEscapes.lookup ch).getD (if ch < 0x20 then 92 :: 120 :: StorageKeys.hexDigits 2 ch else [ch])

def escape (value : Text) : Text := value.flatMap yamlChar

def yamlScalar (value : Text) : Text := 34 :: escape value ++ [34]

def yamlList (key : Text) (items : List Text) : List Text :=
  if items = [] then [] else (key ++ text ":") :: items.map fun i => text "  - " ++ yamlScalar i

def yamlEntry (key : Text) (value : Option Text) : List Text :=
  match value with
  | none => []
  | some v => if v = [] then [] else [key ++ text ": " ++ yamlScalar v]

structure KeeperLine where
  name : Text
  fromTime : Option Text
  toTime : Option Text
  fromTop : Option ℤ
  toTop : Option ℤ
  deriving DecidableEq

def KeeperLine.present (keeper : KeeperLine) : List (Text × Text) :=
  [(text "name", some keeper.name), (text "from", keeper.fromTime), (text "to", keeper.toTime),
   (text "from_top", keeper.fromTop.map intText), (text "to_top", keeper.toTop.map intText)].filterMap fun p =>
    p.2.bind fun v => if v = [] then none else some (p.1, v)

def yamlKeeper (keeper : KeeperLine) : List Text :=
  match keeper.present with
  | [] => []
  | first :: rest =>
    (text "  - " ++ first.1 ++ text ": " ++ yamlScalar first.2) ::
      rest.map fun p => text "    " ++ p.1 ++ text ": " ++ yamlScalar p.2

def yamlKeepers (keepers : List KeeperLine) : List Text :=
  if keepers = [] then [] else text "keepers:" :: keepers.flatMap yamlKeeper

structure ProtocolDoc where
  title : Text
  gremiumName : Option Text
  cdVariant : Option Text
  date : Option Date
  markdown : Text
  startTime : Option Clock := none
  endTime : Option Clock := none
  protokollant : Option Text := none
  keepers : List KeeperLine := []
  present : List Text := []
  excused : List Text := []
  absent : List Text := []
  startedAt : Option Text := none
  datalines : List Text := []
  quorate : Option Bool := none
  deriving DecidableEq

def hhmm (t : Clock) : Text := digits 2 t.hour ++ [58] ++ digits 2 t.minute

def datum (doc : ProtocolDoc) : Option Text :=
  doc.date.map fun day =>
    match doc.startTime with
    | none => day.isoformat
    | some start => day.isoformat ++ [32] ++ hhmm start

def signatures : List Text := [text "Schriftführung", text "Vorstand"]

def quorateText (doc : ProtocolDoc) : Option Text :=
  doc.quorate.map fun q => if q then text "Gegeben" else text "Nicht gegeben"

def fence : Text := text "---"

def frontmatter (doc : ProtocolDoc) : List Text :=
  [fence, text "title: " ++ yamlScalar doc.title, text "typ: protokoll"] ++
    yamlEntry (text "gremium") doc.gremiumName ++
    yamlEntry (text "cd") doc.cdVariant ++
    yamlEntry (text "datum") (datum doc) ++
    yamlEntry (text "date") (doc.date.map Date.isoformat) ++
    yamlEntry (text "beginn") (doc.startTime.map hhmm) ++
    yamlEntry (text "ende") (doc.endTime.map hhmm) ++
    yamlEntry (text "started_at") doc.startedAt ++
    yamlEntry (text "protokoll") doc.protokollant ++
    yamlKeepers doc.keepers ++
    yamlList (text "anwesend") doc.present ++
    yamlList (text "entschuldigt") doc.excused ++
    yamlList (text "abwesend") doc.absent ++
    yamlEntry (text "beschlussfaehigkeit") (quorateText doc) ++
    yamlList (text "datalines") doc.datalines ++
    yamlList (text "unterschriften") signatures ++ [fence]

def isNewline (c : ℕ) : Bool := c == 10

/-- `build_protocol_document`. `sanitize` is the cleaning of the user's Markdown. -/
def buildProtocolDocument (sanitize : Text → Text) (doc : ProtocolDoc) : Text :=
  let body := stripWith isNewline (sanitize doc.markdown)
  rstrip (joinLines (frontmatter doc ++ [[]] ++ (if body = [] then [] else [body]))) ++ [10]

end Writer

section Reader

inductive MetaValue where
  | text (s : Text)
  | list (items : List Text)
  deriving DecidableEq

abbrev Meta := List (Text × MetaValue)

abbrev Records := List (Text × List (List (Text × Text)))

inductive FrontmatterError where
  | invalidYaml
  deriving DecidableEq

/-- `_record`. -/
def recordOf : Item → Option (List (Text × Text))
  | .record fields => some (fields.filterMap fun p => p.2.map fun v => (p.1, v))
  | _ => none

def textOf : Item → Option Text
  | .text s => some s
  | _ => none

/-- `_records`. -/
def rowsOf : Value → List (List (Text × Text))
  | .list items => items.filterMap recordOf
  | _ => []

/-- `_plain`, for a text or a list. -/
def plainOf : Value → Option MetaValue
  | .text s => some (.text s)
  | .list items => some (.list (items.filterMap textOf))
  | .other => none

def coerce : Loaded → Meta × Records
  | .other => ([], [])
  | .mapping pairs =>
    let records := pairs.filterMap fun p => if rowsOf p.2 = [] then none else some (p.1, rowsOf p.2)
    (pairs.filterMap fun p => if p.1 ∈ records.map Prod.fst then none else (plainOf p.2).map fun v => (p.1, v), records)

def splitFence : List Text → Option (List Text × List Text)
  | [] => none
  | l :: ls =>
    if strip l = fence ∨ strip l = text "..." then some ([], ls) else (splitFence ls).map fun p => (l :: p.1, p.2)

def parseFrontmatter (load : Text → Option Loaded) (t : Text) : Except FrontmatterError (Meta × Records × Text) :=
  match splitOn 10 ((t.dropWhile (· == 0xFEFF)).dropWhile isNewline) with
  | [] => .ok ([], [], t)
  | first :: lines =>
    if strip first ≠ fence then .ok ([], [], t)
    else
      match splitFence lines with
      | none => .ok ([], [], t)
      | some (header, rest) =>
        match load (joinLines header) with
        | none => .error .invalidYaml
        | some raw => .ok ((coerce raw).1, (coerce raw).2, (joinLines rest).dropWhile isNewline)

end Reader

section Written

def KeeperLine.others (keeper : KeeperLine) : List (Text × Text) :=
  [(text "from", keeper.fromTime), (text "to", keeper.toTime), (text "from_top", keeper.fromTop.map intText),
   (text "to_top", keeper.toTop.map intText)].filterMap fun p =>
    p.2.bind fun v => if v = [] then none else some (p.1, v)

def KeeperLine.record (keeper : KeeperLine) : Record := ⟨(text "name", keeper.name), keeper.others⟩

def entryOf (key : Text) : Option Text → Block
  | none => []
  | some v => if v = [] then [] else [(key, .quoted v)]

def wordsOf (key : Text) : List Text → Block
  | [] => []
  | first :: rest => [(key, .words first rest)]

def recordsOf (key : Text) : List Record → Block
  | [] => []
  | first :: rest => [(key, .records first rest)]

def ProtocolDoc.values (doc : ProtocolDoc) : Block :=
  [(text "title", .quoted doc.title), (text "typ", .plain (text "protokoll"))] ++
    entryOf (text "gremium") doc.gremiumName ++
    entryOf (text "cd") doc.cdVariant ++
    entryOf (text "datum") (datum doc) ++
    entryOf (text "date") (doc.date.map Date.isoformat) ++
    entryOf (text "beginn") (doc.startTime.map hhmm) ++
    entryOf (text "ende") (doc.endTime.map hhmm) ++
    entryOf (text "started_at") doc.startedAt ++
    entryOf (text "protokoll") doc.protokollant ++
    recordsOf (text "keepers") (doc.keepers.map KeeperLine.record) ++
    wordsOf (text "anwesend") doc.present ++
    wordsOf (text "entschuldigt") doc.excused ++
    wordsOf (text "abwesend") doc.absent ++
    entryOf (text "beschlussfaehigkeit") (quorateText doc) ++
    wordsOf (text "datalines") doc.datalines ++
    wordsOf (text "unterschriften") signatures

def metaOf : Node → Option MetaValue
  | .plain s => some (.text s)
  | .quoted s => some (.text s)
  | .words first rest => some (.list (first :: rest))
  | .records _ _ => none

def listOf : Node → Option (List (List (Text × Text)))
  | .records first rest => some ((first :: rest).map Record.fields)
  | _ => none

def metaValues (b : Block) : Meta := b.filterMap fun e => (metaOf e.2).map fun v => (e.1, v)

def recordValues (b : Block) : Records := b.filterMap fun e => (listOf e.2).map fun v => (e.1, v)

def bodyText (sanitized : Text) : Text :=
  let body := rstrip (stripWith isNewline sanitized)
  if body = [] then [] else body ++ [10]

/-- No line break that the loader folds, and no blank beside a break that it keeps. -/
def unbroken : Text → Bool
  | [] => true
  | c :: rest =>
    c != 0x85 && !(c == 32 && rest.head?.any isBreak) &&
      !(isBreak c && (rest.head? == some 32 || isSeparator rest)) && unbroken rest

def Quotable (s : Text) : Prop := (∀ c ∈ s, c < 32 ∨ printable c = true) ∧ unbroken s = true

instance (s : Text) : Decidable (Quotable s) := inferInstanceAs (Decidable (_ ∧ _))

def ProtocolDoc.Readable (doc : ProtocolDoc) : Prop := ∀ s ∈ doc.values.texts, Quotable s

instance (doc : ProtocolDoc) : Decidable doc.Readable := inferInstanceAs (Decidable (∀ s ∈ doc.values.texts, Quotable s))

end Written

end ProtocolHeader
