import StupaWorkflow.CalloutModel
import StupaWorkflow.ProtocolHeader

/-!
The texts of the minutes: the callout of an election, the callouts in the body of an agenda item,
and the demotion of its headings.
-/
namespace PublicMinutes
open Py Callout ProtocolHeader

abbrev Uuid := ℕ

section Rows

structure ElectionCandidate where
  id : Text
  name : Text
  deriving DecidableEq

structure ElectionConfig where
  seats : ℕ
  candidates : List ElectionCandidate
  deriving DecidableEq

structure ElectionRunoff where
  candidateIds : List Text
  seats : ℕ
  deriving DecidableEq

structure ElectionLot where
  drawn : Option (List Text)
  deriving DecidableEq

structure ElectionResult where
  counts : List (Text × ℕ)
  abstentions : ℕ := 0
  yes : Option ℕ := none
  no : Option ℕ := none
  elected : List Text := []
  runoff : Option ElectionRunoff := none
  lot : Option ElectionLot := none
  deriving DecidableEq

end Rows

section Blocks

def lstrip (s : Text) : Text := s.dropWhile isSpace

def isQuote (line : Text) : Bool := (text ">").isPrefixOf (lstrip line)

/-- A `>` line that is no marker line. -/
def continues (line : Text) : Bool := isQuote line && !(text "> [!").isPrefixOf (lstrip line)

def blockEnd (lines : List Text) (start : ℕ) : ℕ :=
  start + 1 + ((lines.drop (start + 1)).takeWhile continues).length

def startsBlock (lines : List Text) (k : ℕ) : Bool :=
  isQuote (lines.getD k []) && !(k > 0 && isQuote (lines.getD (k - 1) []) && continues (lines.getD k []))

/-- `_quote_blocks`: the start and the stop of every `>` block. -/
def quoteBlocks (lines : List Text) : List (ℕ × ℕ) :=
  ((List.range lines.length).filter (startsBlock lines)).map fun start => (start, blockEnd lines start)

def strippedLines (t : Text) : List Text := (splitOn 10 t).map strip

/-- `_claim`: the vote gets the first free block with its key. A block goes with the number
of the vote. -/
def claim {Key : Type} [DecidableEq Key] (key : List Text → Key) (texts : List (List Text))
    (assigned : List (ℕ × ℕ)) (item : Text × ℕ) : List (ℕ × ℕ) :=
  match texts.zipIdx.find? fun block =>
      (assigned.lookup block.2).isNone && key block.1 = key (strippedLines item.1) with
  | none => assigned
  | some block => assigned ++ [(block.2, item.2)]

def assignExact (texts : List (List Text)) (snippets : List Text) : List (ℕ × ℕ) :=
  snippets.zipIdx.foldl (claim id texts) []

/-- `_assign_blocks`: the exact text first, then the head line. -/
def assignBlocks (texts : List (List Text)) (snippets : List Text) : List (ℕ × ℕ) :=
  let exact := assignExact texts snippets
  let pending := snippets.zipIdx.filter fun item => item.2 ∉ exact.map Prod.snd
  pending.foldl (claim List.head? texts) exact

def blockText (lines : List Text) (block : ℕ × ℕ) : List Text := ((lines.take block.2).drop block.1).map strip

def assignedBlocks (lines : List Text) (snippets : List Text) : List ((ℕ × ℕ) × ℕ) :=
  let blocks := quoteBlocks lines
  (assignBlocks (blocks.map (blockText lines)) snippets).filterMap fun pair => blocks[pair.1]?.map fun b => (b, pair.2)

def lineOutput (lines : List Text) (pairs : List (Text × Text)) (i : ℕ) : List Text :=
  let assigned := assignedBlocks lines (pairs.map Prod.fst)
  if assigned.any fun x => x.1.1 < i && i < x.1.2 then []
  else match assigned.find? fun x => x.1.1 = i with
    | some x => splitOn 10 ((pairs[x.2]?.map Prod.snd).getD [])
    | none => [lines.getD i []]

def replaceVoteBlocks (body : Text) (pairs : List (Text × Text)) : Text :=
  let lines := splitOn 10 body
  joinLines ((List.range lines.length).flatMap (lineOutput lines pairs))

def headLine (snippet : Text) : Text := strip ((splitOn 10 snippet).headD [])

/-- `str.count` of a text that is not empty; `skip` characters belong to the last find. -/
def countFrom (needle : Text) : ℕ → Text → ℕ
  | _, [] => 0
  | 0, c :: s => if needle.isPrefixOf (c :: s) then countFrom needle (needle.length - 1) s + 1 else countFrom needle 0 s
  | skip + 1, _ :: s => countFrom needle skip s

structure Found where
  heads : Text → ℕ
  exact : Text → ℕ
  found : List Bool := []

def less (counts : Text → ℕ) (key : Text) : Text → ℕ := fun t => if t = key then counts key - 1 else counts t

def foundExact (state : Found) (snippet : Text) : Found :=
  let head := headLine snippet
  if state.exact snippet > 0 ∧ state.heads head > 0 then
    ⟨less state.heads head, less state.exact snippet, state.found ++ [true]⟩
  else { state with found := state.found ++ [false] }

def foundHead (state : Found) (item : Text × Bool) : Found :=
  let head := headLine item.1
  let hit := !item.2 && state.heads head > 0
  { state with
    heads := if hit then less state.heads head else state.heads
    found := state.found ++ [item.2 || hit] }

def votesInBody (body : Text) (snippets : List Text) : List Bool :=
  let lines := (splitOn 10 body).map strip
  let first := snippets.foldl foundExact ⟨fun t => lines.count t, fun t => countFrom t 0 body, []⟩
  ((snippets.zip first.found).foldl foundHead ⟨first.heads, first.exact, []⟩).found

def demoted (line : Text) : Text :=
  let stripped := lstrip line
  let hashes := (stripped.takeWhile fun c => c = 35).length
  let heading := 1 ≤ hashes ∧ hashes ≤ 5 ∧ ((stripped.drop hashes).head? = some 32 ∨ (stripped.drop hashes).head? = some 9)
  if heading then (line.takeWhile fun c => c ≠ 35) ++ 35 :: line.dropWhile fun c => c ≠ 35 else line

def isFence (line : Text) : Bool :=
  (List.replicate 3 96).isPrefixOf (lstrip line) || (List.replicate 3 126).isPrefixOf (lstrip line)

def demoteLines : Bool → List Text → List Text
  | _, [] => []
  | inside, line :: lines =>
    (if isFence line || inside then line else demoted line) :: demoteLines (inside ^^ isFence line) lines

def demoteHeadings (markdown : Text) : Text := joinLines (demoteLines false (splitOn 10 markdown))

end Blocks

section Snippets

/-- `value or fallback`. -/
def orElse (value : Option Text) (fallback : Text) : Text := (value.filter (· ≠ [])).getD fallback

def numberOr (n fallback : ℕ) : ℕ := if n = 0 then fallback else n

def ElectionConfig.nameOf (election : ElectionConfig) (id : Text) : Text :=
  ((election.candidates.reverse.find? fun c => c.id = id).map ElectionCandidate.name).getD id

def electionSnippetOf (election : ElectionConfig) (result : Option ElectionResult) (question : Option Text)
    (round attempt : ℕ) : ElectionSnippet :=
  let listed : List ElectionLine := election.candidates.map fun c =>
    { name := c.name
      votes := ((result.bind fun r => r.counts.lookup c.id)).getD 0
      elected := result.any fun r => r.elected.contains c.id }
  let byVotes := result.any fun r => r.yes.isNone
  let question := strip (orElse question (text "Wahlgang"))
  { question := if question = [] then text "Wahlgang" else question
    seats := election.seats
    round := round
    candidates := if byVotes then listed.insertionSort fun a b => b.votes ≤ a.votes else listed
    abstentions := (result.map ElectionResult.abstentions).getD 0
    yes := result.bind ElectionResult.yes
    no := result.bind ElectionResult.no
    byLot := (result.bind ElectionResult.lot).any fun lot => lot.drawn.isSome
    lotPending := (result.bind ElectionResult.lot).any fun lot => lot.drawn.isNone
    runoffNames := ((result.bind ElectionResult.runoff).map fun r => r.candidateIds.map election.nameOf).getD []
    runoffSeats := ((result.bind ElectionResult.runoff).map ElectionRunoff.seats).getD 0
    closed := result.isSome
    attempt := attempt }

end Snippets

end PublicMinutes
