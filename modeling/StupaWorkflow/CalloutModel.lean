import Mathlib.Data.List.Sort
import StupaWorkflow.PyPatterns

/-!
The vote callouts of the minutes: the lines that the backend writes for a motion,
an election or a poll, and what the render service reads from the plain text of
such lines. A line holds no line break on either side.
-/
namespace Callout
open Py
open Filenames (splitLast)

/-- The mark `·` between the parts of a line. -/
def dotMark : ℕ := 183

section Writer

def mdEscape : Text → Text
  | [] => []
  | 13 :: 10 :: s => 32 :: mdEscape s
  | c :: s => (if c = 10 ∨ c = 13 then 32 else c) :: mdEscape s

/-- A callout from its head and its other lines: `> [!abstimmung] **head**`, then one `> ` line each. -/
def callout (head : Text) (body : List Text) : Text :=
  joinLines ((text "> [!abstimmung] **" ++ head ++ text "**") :: body.map (text "> " ++ ·))

/-- A name with its number, as in `Anna: 5`. -/
def entry (name : Text) (n : ℕ) : Text := name ++ text ": " ++ decimal n

structure Motion where
  title : Text
  counts : List (Text × ℕ)
  question : Option Text := none
  note : Option Text := none
  conditions : List Text := []

def Motion.head (m : Motion) : Text :=
  match m.question with
  | some question => if strip question ≠ [] then strip question else m.title
  | none => m.title

def tallyText (counts : List (Text × ℕ)) : Text :=
  joined (text ", ") (counts.map fun option => entry (mdEscape option.1) option.2)

def Motion.body (m : Motion) : List Text :=
  (if m.counts.isEmpty then [] else [tallyText m.counts]) ++
    ((m.conditions.zipIdx 1).map fun condition =>
      text "Auflage " ++ decimal condition.2 ++ text ": " ++ mdEscape condition.1) ++
    (m.note.toList.filter (· ≠ [])).map mdEscape

def buildVoteSnippet (m : Motion) : Text := callout (mdEscape m.head) m.body

structure ElectionLine where
  name : Text
  votes : ℕ
  elected : Bool := false
  deriving DecidableEq

structure ElectionSnippet where
  question : Text
  seats : ℕ
  round : ℕ := 1
  candidates : List ElectionLine := []
  abstentions : ℕ := 0
  yes : Option ℕ := none
  no : Option ℕ := none
  byLot : Bool := false
  lotPending : Bool := false
  runoffNames : List Text := []
  runoffSeats : ℕ := 0
  closed : Bool := true
  attempt : ℕ := 1

/-- `(n. Wahlgang)`. -/
def ballotNumber (n : ℕ) : Text := text "(" ++ decimal n ++ text ". Wahlgang)"

def electionHead (view : ElectionSnippet) : Text :=
  let number := view.round + view.attempt - 1
  if number > 1 then mdEscape view.question ++ text " " ++ ballotNumber number else mdEscape view.question

/-- The votes per candidate: `Anna: 5 · Ben: 3 · Enthaltungen: 1`. -/
def votesText (view : ElectionSnippet) : Text :=
  joined (text " · ") (view.candidates.map fun c => entry (mdEscape c.name) c.votes) ++
    text " · Enthaltungen: " ++ decimal view.abstentions

def electionBallot (view : ElectionSnippet) : List Text :=
  match view.yes, view.no with
  | some yes, some no =>
    let name := (view.candidates.head?.map ElectionLine.name).getD []
    [text "Kandidatur: " ++ mdEscape name,
      text "ja: " ++ decimal yes ++ text ", nein: " ++ decimal no ++ text ", enthaltung: " ++ decimal view.abstentions]
  | _, _ => [votesText view]

def electedNames (view : ElectionSnippet) : List Text := (view.candidates.filter (·.elected)).map (·.name)

def electedText (view : ElectionSnippet) : Text :=
  if electedNames view = [] then text "niemand" else joined (text ", ") ((electedNames view).map mdEscape)

def runoffText (view : ElectionSnippet) (isPublic : Bool) : Text :=
  text "Stichwahl " ++ ballotNumber (view.round + 1) ++ text " um " ++ decimal view.runoffSeats ++ text " Posten: " ++
    (if isPublic then decimal view.runoffNames.length ++ text " Kandidierende"
      else joined (text ", ") (view.runoffNames.map mdEscape))

def electionOutcome (view : ElectionSnippet) (isPublic : Bool) : List Text :=
  let others := view.candidates.length - (electedNames view).length
  [text "Gewählt: " ++ electedText view] ++
    (if isPublic ∧ others > 0 then [decimal others ++ text " weitere Kandidierende"] else []) ++
    (if view.byLot then [text "Durch Los entschieden."] else []) ++
    (if view.lotPending then [text "Gleichstand: das Los steht aus."] else []) ++
    (if view.runoffSeats ≠ 0 then [runoffText view isPublic] else [])

def electionMeta (view : ElectionSnippet) : Text :=
  text "Wahl · " ++ decimal view.seats ++ text " Posten" ++
    (if view.round > 1 then text " · Stichwahl " ++ ballotNumber view.round else [])

def electionBody (view : ElectionSnippet) (isPublic : Bool) : List Text :=
  electionMeta view :: ((if view.closed ∧ ¬ isPublic then electionBallot view else []) ++
    (if view.closed then electionOutcome view isPublic else []))

def buildElectionSnippet (view : ElectionSnippet) (isPublic : Bool) : Text :=
  callout (electionHead view) (electionBody view isPublic)

structure PollLine where
  label : Text
  count : ℕ
  maybe : Option ℕ := none
  top : Bool := false
  deriving DecidableEq

structure PollSnippet where
  question : Text
  kindLine : Text
  lines : List PollLine := []
  abstentions : Option ℕ := some 0
  ballots : ℕ := 0
  date : Bool := false
  closed : Bool := true

def optionText (line : PollLine) : Text :=
  mdEscape line.label ++ text ": " ++
    (match line.maybe with
      | some maybe => decimal line.count ++ text " (+" ++ decimal maybe ++ text ")"
      | none => decimal line.count)

def pollLegend : Text := text "Zahl = Ja, (+n) = Vielleicht"

def topTexts (view : PollSnippet) : List Text := (view.lines.filter (·.top)).map fun line => mdEscape line.label

def topText (view : PollSnippet) : Text :=
  (if view.date then text "Bester Termin" else text "Meiste Stimmen") ++ text ": " ++ joined (text ", ") (topTexts view)

def answersText (view : PollSnippet) : Text :=
  decimal view.ballots ++ text " " ++ (if view.ballots = 1 then text "Antwort" else text "Antworten")

def pollResult (view : PollSnippet) : List Text :=
  view.lines.map optionText ++
    (view.abstentions.toList.map fun n => text "Enthaltungen: " ++ decimal n) ++
    (if view.date then [pollLegend] else []) ++
    (if topTexts view ≠ [] then [topText view] else []) ++
    [answersText view]

def pollBody (view : PollSnippet) : List Text := view.kindLine :: (if view.closed then pollResult view else [])

def buildPollSnippet (view : PollSnippet) : Text := callout (mdEscape view.question) (pollBody view)

inductive PollMode where
  | single
  | multi
  | date
  deriving DecidableEq

def pollMeta (mode : PollMode) (maxChoices : Option ℕ) : Text :=
  match mode, maxChoices with
  | .date, _ => text "Terminumfrage"
  | .single, _ => text "Umfrage · Einzelwahl"
  | .multi, none => text "Umfrage · Mehrfachwahl"
  | .multi, some most => text "Umfrage · Mehrfachwahl, höchstens " ++ decimal most

end Writer

section Patterns

/-- The word characters `\w`. Their table is no part of the repository; the patterns need these facts. -/
structure WordTable where
  isWord : ℕ → Bool
  letter : ∀ c, 97 ≤ c → c ≤ 122 → isWord c = true
  space : isWord 32 = false
  bracket : isWord 93 = false

variable (W : WordTable)

/-- `\b` behind a word character. -/
def boundary (s : Text) : Bool := s.head?.all fun c => !W.isWord c

/-- `CALLOUT_RE.sub("", s, count=1)`. -/
def unmark (s : Text) : Text :=
  match s.dropWhile isSpace with
  | 91 :: 33 :: rest =>
    match rest.takeWhile W.isWord, rest.dropWhile W.isWord with
    | _ :: _, 93 :: tail => tail.dropWhile isSpace
    | _, _ => s
  | _ => s

/-- A letter of a pattern under `re.IGNORECASE`; `i` and `s` also match their variants outside ASCII. -/
def sameLetter (k c : ℕ) : Bool :=
  c = k || (97 ≤ k && k ≤ 122 && c + 32 = k) || (k = 105 && (c = 0x130 || c = 0x131)) || (k = 115 && c = 0x17f)

def afterKey : Text → Text → Option Text
  | [], s => some s
  | k :: key, c :: s => if sameLetter k c then afterKey key s else none
  | _ :: _, [] => none

/-- `\s*[:=]?\s*(\d+)`. -/
def countAfter (s : Text) : Option ℕ :=
  let s := s.dropWhile isSpace
  let s := if s.head? = some 58 ∨ s.head? = some 61 then s.tail else s
  (leadingNumber (s.dropWhile isSpace)).map (·.1)

def countAt (keys : List Text) (s : Text) : Option ℕ := keys.findSome? fun key => (afterKey key s).bind countAfter

/-- `re.search` of one of the keys with its count. -/
def searchCount (keys : List Text) : Text → Option ℕ
  | [] => none
  | c :: s => (countAt keys (c :: s)).or (searchCount keys s)

inductive Choice where
  | yes
  | no
  | abstain
  deriving DecidableEq

/-- The alternatives of `_TALLY_RE`; the optional dot of `enth\.?` is one more. -/
def tallyKeys : Choice → List Text
  | .yes => [text "ja", text "yes"]
  | .no => [text "nein", text "no"]
  | .abstain => [text "enthaltung", text "enth.", text "enth", text "abstain"]

def tally (s : Text) (choice : Choice) : ℕ := (searchCount (tallyKeys choice) s).getD 0

def isTallyLine (line : Text) : Bool :=
  2 ≤ ([Choice.yes, .no, .abstain].filter fun choice => (searchCount (tallyKeys choice) line).isSome).length

/-- `·\s*\d+\s+Posten` at the start. -/
def seatsAt (s : Text) : Bool :=
  match s with
  | [] => false
  | c :: rest =>
    c = dotMark && (leadingNumber (rest.dropWhile isSpace)).any fun found =>
      found.2.head?.any isSpace && (text "Posten").isPrefixOf (found.2.dropWhile isSpace)

/-- `.*·\s*\d+\s+Posten`. -/
def seatsLater : Text → Bool
  | [] => false
  | c :: s => seatsAt (c :: s) || (c ≠ 10 && seatsLater s)

/-- `_ELECTION_META_RE`. -/
def isElectionMeta (line : Text) : Bool :=
  ((afterPrefix (text "Wahl") line).or (afterPrefix (text "Stichwahl") line)).any fun rest =>
    boundary W rest && seatsLater rest

/-- `_ELECTION_PART_RE`: the text before the last colon and the number behind it. -/
def electionPart (part : Text) : Option (Text × ℕ) :=
  (splitLast 58 part).bind fun halves =>
    match leadingNumber (halves.2.dropWhile isSpace) with
    | some (n, []) => some (halves.1, n)
    | _ => none

/-- `_ELECTION_VOTES_RE`. Its repeated group adds nothing: the `.+` before it takes any text up to the last colon. -/
def isVotesLine (line : Text) : Bool := (electionPart line).any fun part => part.1 ≠ []

/-- `_ELECTION_OTHERS_RE`. -/
def otherCandidates (line : Text) : Option ℕ :=
  match leadingNumber line with
  | some (n, rest) => if rest = text " weitere Kandidierende" then some n else none
  | none => none

/-- `_POLL_META_RE`. -/
def isPollMeta (line : Text) : Bool :=
  line = text "Terminumfrage" || (afterPrefix (text "Umfrage") line).any fun rest =>
    rest.head?.any isSpace && (afterPrefix [dotMark] (rest.dropWhile isSpace)).any fun rest =>
      rest.head?.any isSpace && rest.tail ≠ []

/-- `(?:\s*\(\+(\d+)\))?$`: the count of Vielleicht, `some none` without one. -/
def maybeAt (s : Text) : Option (Option ℕ) :=
  if s = [] then some none
  else
    match (afterPrefix (text "(+") (s.dropWhile isSpace)).bind leadingNumber with
    | some (m, [41]) => some (some m)
    | _ => none

/-- `_POLL_ROW_RE`: label, count and count of Vielleicht. -/
def pollRow (line : Text) : Option (Text × ℕ × Option ℕ) :=
  (splitLast 58 line).bind fun halves =>
    if halves.1.getLast?.all isSpace then none
    else
      (leadingNumber (halves.2.dropWhile isSpace)).bind fun found =>
        (maybeAt found.2).map fun maybe => (halves.1, found.1, maybe)

/-- `_POLL_TOP_RE`, with its group stripped. -/
def pollTop (line : Text) : Option Text :=
  ((afterPrefix (text "Meiste Stimmen:") line).or (afterPrefix (text "Bester Termin:") line)).map strip

/-- `_POLL_BALLOTS_RE`. -/
def pollBallots (line : Text) : Option ℕ :=
  (leadingNumber line).bind fun found =>
    (afterPrefix (text " Antwort") found.2).bind fun rest =>
      if boundary W ((afterPrefix (text "en") rest).getD rest) then some found.1 else none

end Patterns

section Reader

variable (W : WordTable)

inductive Lot where
  | drawn
  | pending
  deriving DecidableEq

structure ElectionScan where
  rows : List (Text × ℕ) := []
  abstentions : Option ℕ := none
  electedRaw : Option Text := none
  others : ℕ := 0
  lot : Option Lot := none
  notes : List Text := []

def electionVotes (scan : ElectionScan) (line : Text) : ElectionScan :=
  let found := (splitGaps dotMark line).filterMap electionPart
  let abstained := (found.filter fun part => part.1 = text "Enthaltungen").map (·.2)
  { scan with
    rows := found.filter fun part => part.1 ≠ text "Enthaltungen"
    abstentions := abstained.getLast?.or scan.abstentions }

def electionLine (scan : ElectionScan) (line : Text) : ElectionScan :=
  match afterPrefix (text "Gewählt:") line, otherCandidates line with
  | some raw, _ => { scan with electedRaw := some (strip raw) }
  | none, some n => { scan with others := n }
  | none, none =>
    if line = text "Durch Los entschieden." then { scan with lot := some .drawn }
    else if line.rdropWhile (· = 46) = text "Gleichstand: das Los steht aus" then { scan with lot := some .pending }
    else if scan.rows = [] ∧ isVotesLine line then electionVotes scan line
    else { scan with notes := scan.notes ++ [line] }

def longestFirst (names : List Text) : List Text := names.insertionSort fun a b => b.length ≤ a.length

/-- One step of `_pick_elected`: a name found in the rest is picked and cut out of it. -/
def pick (found : List Text × Text) (name : Text) : List Text × Text :=
  if name <:+: found.2 then (found.1 ++ [name], cutOnce name found.2) else found

def pickElected (raw : Text) (names : List Text) : List Text := ((longestFirst names).foldl pick ([], raw)).1

def elected (raw : Option Text) (names : List Text) : List Text :=
  match raw with
  | none => []
  | some raw =>
    if raw = text "niemand" then []
    else if names ≠ [] then pickElected raw names
    else ((splitOn 44 raw).map strip).filter (· ≠ [])

structure ElectionNode where
  kindLine : Text
  rows : List ElectionLine
  abstentions : Option ℕ
  elected : List Text
  others : ℕ
  lot : Option Lot
  notes : List Text
  deriving DecidableEq

def ranksBefore (a b : ElectionLine) : Prop :=
  b.votes < a.votes ∨ (a.votes = b.votes ∧ (a.elected = true ∨ b.elected = false))

instance : DecidableRel ranksBefore := fun a b =>
  inferInstanceAs (Decidable (b.votes < a.votes ∨ (a.votes = b.votes ∧ (a.elected = true ∨ b.elected = false))))

def electionNode (kindLine : Text) (scan : ElectionScan) : ElectionNode :=
  let chosen := elected scan.electedRaw (scan.rows.map (·.1))
  { kindLine := kindLine
    rows := (scan.rows.map fun row => ⟨row.1, row.2, row.1 ∈ chosen⟩).insertionSort ranksBefore
    abstentions := scan.abstentions
    elected := if scan.rows = [] then chosen else []
    others := scan.others
    lot := scan.lot
    notes := scan.notes }

def election (lines : List Text) : Option ElectionNode :=
  match lines.find? (isElectionMeta W) with
  | none => none
  | some kindLine =>
    if lines.any fun line => (text "Kandidatur:").isPrefixOf line then none
    else some (electionNode kindLine ((lines.eraseP (isElectionMeta W)).foldl electionLine {}))

/-- `split` of `_top_labels`, with fuel for the length of the text. -/
def splitTop (ordered : List Text) : ℕ → Text → Option (List Text)
  | 0, _ => none
  | fuel + 1, rest =>
    ordered.findSome? fun label =>
      if rest = label then some [label]
      else (afterPrefix (label ++ text ", ") rest).bind fun tail => (splitTop ordered fuel tail).map (label :: ·)

def topLabels (top : Text) (labels : List Text) : List Text :=
  if top = [] then [] else (splitTop (longestFirst labels.dedup) (top.length + 1) top).getD []

structure PollScan where
  rows : List (Text × ℕ × Option ℕ) := []
  abstentions : Option ℕ := none
  top : Text := []
  footer : Option Text := none
  notes : List Text := []

def footerText (n : ℕ) : Text := decimal n ++ text " " ++ (if n = 1 then text "Antwort" else text "Antworten")

def pollLine (date : Bool) (scan : PollScan) (line : Text) : PollScan :=
  match pollTop line, pollRow line with
  | some top, _ => { scan with top := top }
  | none, some row =>
    if line = pollLegend then scan
    else if row.1 = text "Enthaltungen" ∧ row.2.2 = none then { scan with abstentions := some row.2.1 }
    else if row.2.2.isSome = date then { scan with rows := scan.rows ++ [row] }
    else { scan with notes := scan.notes ++ [line] }
  | none, none =>
    match pollBallots W line with
    | some n => { scan with footer := some (footerText n) }
    | none => if line = pollLegend then scan else { scan with notes := scan.notes ++ [line] }

structure PollNode where
  kind : PollMode
  kindLine : Text
  rows : List PollLine
  abstentions : Option ℕ
  footer : Option Text
  notes : List Text
  deriving DecidableEq

def pollNode (kindLine : Text) (date : Bool) (scan : PollScan) : PollNode :=
  let best := topLabels scan.top (scan.rows.map (·.1))
  { kind := if date then .date else if text "Mehrfachwahl" <:+: kindLine then .multi else .single
    kindLine := kindLine
    rows := scan.rows.map fun row => ⟨row.1, row.2.1, row.2.2, row.1 ∈ best⟩
    abstentions := scan.abstentions
    footer := scan.footer
    notes := scan.notes }

def poll (lines : List Text) : Option PollNode :=
  match lines with
  | [] => none
  | kindLine :: rest =>
    if isPollMeta kindLine then
      let date := decide (kindLine = text "Terminumfrage")
      some (pollNode kindLine date (rest.foldl (pollLine W date) {}))
    else none

inductive Ranking where
  | none
  | election (node : ElectionNode)
  | poll (node : PollNode)
  deriving DecidableEq

structure TallyNode where
  yes : ℕ
  no : ℕ
  abstain : ℕ
  counts : Bool
  lines : List Text
  ranking : Ranking
  deriving DecidableEq

def ranking (tallied : Bool) (rest : List Text) : Ranking :=
  if tallied then .none
  else
    match election W rest, poll W rest with
    | some node, _ => .election node
    | none, some node => .poll node
    | none, none => .none

def unmarked (lines : List Text) : List Text :=
  match lines with
  | [] => []
  | first :: rest => unmark W first :: rest

/-- The tally node of the texts without the marker. -/
def tallyNode (texts : List Text) : TallyNode :=
  let tallyLine := ((texts.find? isTallyLine).map strip).getD []
  let body := (texts.filter fun t => strip t ≠ [] ∧ ¬ isTallyLine t).map strip
  let rest := (texts.tail.map strip).filter (· ≠ [])
  let found := ranking W (tallyLine ≠ []) rest
  { yes := tally tallyLine .yes
    no := tally tallyLine .no
    abstain := tally tallyLine .abstain
    counts := tallyLine ≠ []
    lines := if found = .none then body else body.take 1
    ranking := found }

/-- `_Converter._vote` on the plain texts of the callout lines. -/
def vote (lines : List Text) : TallyNode := tallyNode W (unmarked W lines)

end Reader

end Callout
