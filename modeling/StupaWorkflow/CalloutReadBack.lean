import StupaWorkflow.CalloutPolls

/-!
The callouts of motions, elections and polls from the writer through the reader:
exactly which titles, names and labels come back as they were written.
-/
namespace Callout
open Py
open List hiding splitOn count

/-- Motions, elections and polls are read back exactly if their texts are clear. -/
theorem callouts_read_back (W : WordTable) (P : LineParser) :
    (∀ (m : Motion) (counts : Choice → ℕ), m.Counted counts →
      (MotionRead (vote W (P.lines (buildVoteSnippet m))) counts ↔
        (isTallyLine (mdEscape m.head) = false ∨ ∀ choice, tally (strip (mdEscape m.head)) choice = counts choice))) ∧
    (∀ view : ElectionSnippet, view.Valid →
      (ElectionRead (vote W (P.lines (buildElectionSnippet view false))) view ↔ view.Clear)) ∧
    (∀ view : PollSnippet, view.Valid →
      (PollRead (vote W (P.lines (buildPollSnippet view))) view ↔ view.Clear W)) :=
  ⟨fun _ _ hm => motion_read_iff W P hm, fun _ h => election_read_iff W P h, fun _ h => poll_read_iff W P h⟩

def asciiWords : WordTable where
  isWord c := isDigit c || (65 ≤ c && c ≤ 90) || (97 ≤ c && c ≤ 122) || c = 95
  letter c hlow hhigh := by simp [hlow, hhigh]
  space := rfl
  bracket := rfl

/-- The lines of a callout without quote marks and emphasis. -/
def plainLines (snippet : Text) : List Text :=
  match splitOn 10 snippet with
  | [] => []
  | first :: rest => (text "[!abstimmung] " ++ (first.drop 18).dropLast.dropLast) :: rest.map (·.drop 2)

theorem plainLines_callout {head : Text} {body : List Text} (hhead : OneLine head) (hbody : ∀ s ∈ body, OneLine s) :
    plainLines (callout head body) = (text "[!abstimmung] " ++ head) :: body := by
  have hlines : ∀ s ∈ (text "> [!abstimmung] **" ++ head ++ text "**") :: body.map (text "> " ++ ·), 10 ∉ s := by
    intro s hs
    rcases mem_cons.mp hs with rfl | hs
    · exact ((OneLine.append (by decide) hhead).append (by decide)).1
    · obtain ⟨t, ht, rfl⟩ := mem_map.mp hs
      exact (OneLine.append (by decide) (hbody t ht)).1
  have hfirst : ((text "> [!abstimmung] **" ++ head ++ text "**").drop 18).dropLast.dropLast = head := by
    have hdrop : (text "> [!abstimmung] **" ++ (head ++ text "**")).drop 18 = head ++ [42] ++ [42] := by
      rw [drop_left' (by decide)]
      simp [text]
    rw [append_assoc, hdrop, dropLast_concat, dropLast_concat]
  have hrest : (body.map (text "> " ++ ·)).map (·.drop 2) = body := by
    rw [map_map]
    conv_rhs => rw [← map_id body]
    rfl
  rw [plainLines, callout, splitOn_joinLines (cons_ne_nil _ _) hlines]
  dsimp only
  rw [hfirst, hrest]

def plainParser : LineParser where
  lines := plainLines
  plain _ _ hhead hbody := plainLines_callout hhead hbody

def haushalt : Motion where
  title := text "Haushalt"
  counts := [(text "yes", 7), (text "no", 2), (text "abstain", 1)]

def vorsitz : ElectionSnippet where
  question := text "Vorsitz"
  seats := 1
  candidates := [⟨text "Anna", 5, true⟩, ⟨text "Ben", 3, false⟩]
  abstentions := 1

def ausflug : PollSnippet where
  question := text "Wohin?"
  kindLine := pollMeta .single none
  lines := [⟨text "See", 4, none, true⟩, ⟨text "Wald", 2, none, false⟩]
  ballots := 6

theorem callouts_read_back_examples :
    MotionRead (vote asciiWords (plainParser.lines (buildVoteSnippet haushalt)))
        (fun choice => match choice with | .yes => 7 | .no => 2 | .abstain => 1) ∧
      ElectionRead (vote asciiWords (plainParser.lines (buildElectionSnippet vorsitz false))) vorsitz ∧
      PollRead (vote asciiWords (plainParser.lines (buildPollSnippet ausflug))) ausflug := by
  obtain ⟨hmotion, helection, hpoll⟩ := callouts_read_back asciiWords plainParser
  refine ⟨(hmotion haushalt _ ⟨.english, [.yes, .no, .abstain], .refl _, rfl⟩).mpr (.inl (by decide)),
    (helection vorsitz ⟨by decide, .inl rfl, ?_, by decide⟩).mpr ?_,
    (hpoll ausflug ⟨⟨.single, none, rfl, by decide⟩, ?_, by decide, rfl⟩).mpr ?_⟩
  · intro c hc
    simp only [vorsitz, mem_cons, not_mem_nil, or_false] at hc
    rcases hc with rfl | rfl <;> exact ⟨by decide, by decide, by decide⟩
  · refine ⟨by decide +kernel, fun _ => by decide, fun _ => by decide, fun _ => by decide, fun _ c hc => ?_,
      fun _ => by decide, fun _ => .inr ⟨by decide, ?_⟩⟩
    · simp only [vorsitz, mem_cons, not_mem_nil, or_false] at hc
      rcases hc with rfl | rfl <;> exact noGap_of_not_mem (by decide)
    · intro c hc
      simp only [vorsitz, mem_cons, not_mem_nil, or_false] at hc
      rcases hc with rfl | rfl
      · exact iff_of_true rfl ⟨[], [text "Ben"], by decide, by decide⟩
      · refine iff_of_false (by decide) ?_
        rintro ⟨before, after, horder, hin⟩
        have hsorted : longestFirst vorsitz.names = [text "Anna", text "Ben"] := by decide
        rw [hsorted] at horder
        have hbefore : before = [text "Anna"] := by
          cases before with
          | nil => exact absurd (cons_eq_cons.mp horder).1 (by decide)
          | cons first before =>
            obtain ⟨rfl, htail⟩ := cons_eq_cons.mp horder
            cases before with
            | nil => rfl
            | cons second before => simp at htail
        rw [hbefore] at hin
        exact absurd hin (by decide)
  · intro line hline
    simp only [ausflug, mem_cons, not_mem_nil, or_false] at hline
    rcases hline with rfl | rfl <;> exact ⟨by decide, by decide, by decide⟩
  · refine ⟨by decide +kernel, .inl (by decide +kernel), fun _ => by decide, fun _ line hline => ?_, fun _ => .inr ⟨[text "See"], ?_, by decide⟩⟩
    · simp only [ausflug, mem_cons, not_mem_nil, or_false] at hline
      rcases hline with rfl | rfl <;> exact ⟨by decide, by decide, fun _ => by decide⟩
    · have htop : joined (text ", ") ausflug.topLabels = text "See" := by decide
      rw [htop, show [text "See"] = topLabels (text "See") ausflug.labels from by decide]
      have hread : Reads ausflug.labels (text "See") [text "See"] := ⟨by decide, by decide, rfl⟩
      exact topLabels_longest (by decide) hread

/-- Two candidates whose names end like the answers of a motion: `Maja: 5 · Bruno: 3` has a count for ja and for no. -/
def majaBruno : ElectionSnippet where
  question := text "Vorsitz"
  seats := 1
  candidates := [⟨text "Maja", 5, true⟩, ⟨text "Bruno", 3, false⟩]
  abstentions := 1

theorem majaBruno_not_read :
    majaBruno.Valid ∧
      ¬ ElectionRead (vote asciiWords (plainParser.lines (buildElectionSnippet majaBruno false))) majaBruno := by
  refine ⟨⟨by decide, .inl rfl, ?_, by decide⟩, fun h => ?_⟩
  · intro c hc
    simp only [majaBruno, mem_cons, not_mem_nil, or_false] at hc
    rcases hc with rfl | rfl <;> exact ⟨by decide, by decide, by decide⟩
  · have htally : (vote asciiWords (plainParser.lines (buildElectionSnippet majaBruno false))).counts = true := by
      decide +kernel
    rw [h.untallied] at htally
    cases htally

end Callout
