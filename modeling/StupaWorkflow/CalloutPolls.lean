import Mathlib.Data.List.Dedup
import StupaWorkflow.CalloutElections

/-!
When the callout of a poll is read back: which option lines are read as rows, and
how the list of the top options is cut into labels.
-/
namespace Callout
open Py List
open Filenames (splitLast splitLast_append splitLast_eq)

section Top

structure Reads (labels : List Text) (top : Text) (read : List Text) : Prop where
  nonempty : read ≠ []
  known : ∀ label ∈ read, label ∈ labels
  text : joined (Py.text ", ") read = top

def LongerFirst : List Text → List Text → Prop
  | x :: s, y :: t => y.length < x.length ∨ (x = y ∧ LongerFirst s t)
  | _, _ => False

def ReadsLongest (labels : List Text) (top : Text) (read : List Text) : Prop :=
  Reads labels top read ∧ ∀ other, Reads labels top other → other = read ∨ LongerFirst read other

variable {s t read : List Text} {top label rest : Text}

theorem LongerFirst.asymm (h : LongerFirst s t) : ¬ LongerFirst t s := by
  induction s generalizing t with
  | nil => exact h.elim
  | cons x s ih =>
    cases t with
    | nil => exact h.elim
    | cons y t =>
      intro h'
      rcases h with h | ⟨rfl, h⟩
      · rcases h' with h' | ⟨rfl, -⟩ <;> omega
      · rcases h' with h' | ⟨-, h'⟩
        · omega
        · exact ih h h'

theorem ReadsLongest.unique {labels : List Text} (hs : ReadsLongest labels top s) (ht : ReadsLongest labels top t) : s = t := by
  rcases hs.2 t ht.1 with rfl | hst
  · rfl
  · rcases ht.2 s hs.1 with rfl | hts
    · rfl
    · exact (hst.asymm hts).elim

variable {labels : List Text}

theorem reads_cons {rest : List Text} (h : Reads labels top (label :: rest)) (hrest : rest ≠ []) :
    ∃ tail, top = label ++ text ", " ++ tail ∧ Reads labels tail rest := by
  refine ⟨joined (text ", ") rest, ?_, hrest, fun l hl => h.known l (mem_cons_of_mem label hl), rfl⟩
  rw [← h.text, joined_cons label hrest]

theorem mem_longestFirst : label ∈ longestFirst labels.dedup ↔ label ∈ labels :=
  (perm_insertionSort _ _).mem_iff.trans mem_dedup

theorem longestFirst_sorted (names : List Text) : (longestFirst names).Pairwise fun a b => b.length ≤ a.length := by
  have : Std.Total fun a b : Text => b.length ≤ a.length := ⟨fun a b => Nat.le_total b.length a.length⟩
  have : IsTrans Text fun a b => b.length ≤ a.length := ⟨fun a b c hab hbc => hbc.trans hab⟩
  exact pairwise_insertionSort _ _

/-- One attempt of `split`: the label takes the whole text, or a comma follows and the rest is split. -/
def attempt (ordered : List Text) (fuel : ℕ) (rest label : Text) : Option (List Text) :=
  if rest = label then some [label]
  else (afterPrefix (label ++ text ", ") rest).bind fun tail => (splitTop ordered fuel tail).map (label :: ·)

theorem splitTop_succ (ordered : List Text) (fuel : ℕ) (rest : Text) :
    splitTop ordered (fuel + 1) rest = ordered.findSome? (attempt ordered fuel rest) := rfl

theorem attempt_some {ordered : List Text} {fuel : ℕ} (h : attempt ordered fuel rest label = some read) :
    (read = [label] ∧ rest = label) ∨
      ∃ tail read', read = label :: read' ∧ rest = label ++ text ", " ++ tail ∧ splitTop ordered fuel tail = some read' := by
  unfold attempt at h
  split at h
  next heq => exact .inl ⟨(Option.some.inj h).symm, heq⟩
  next =>
    obtain ⟨tail, htail, hread⟩ := Option.bind_eq_some_iff.mp h
    obtain ⟨read', hsplit, rfl⟩ := Option.map_eq_some_iff.mp hread
    refine .inr ⟨tail, read', rfl, ?_, hsplit⟩
    unfold afterPrefix at htail
    split at htail
    next hprefix =>
      obtain ⟨t, rfl⟩ := isPrefixOf_iff_prefix.mp hprefix
      rw [drop_left] at htail
      rw [Option.some.inj htail]
    next => cases htail

theorem attempt_whole (ordered : List Text) (fuel : ℕ) (label : Text) : attempt ordered fuel label label = some [label] :=
  if_pos rfl

theorem attempt_comma (ordered : List Text) (fuel : ℕ) (label tail : Text) :
    attempt ordered fuel (label ++ text ", " ++ tail) label = (splitTop ordered fuel tail).map (label :: ·) := by
  have hne : label ++ text ", " ++ tail ≠ label := by
    intro h
    have := congrArg List.length h
    simp [text] at this
  rw [attempt, if_neg hne, afterPrefix_append, Option.bind_some]

/-- With fuel for the text, `split` finds the way to read it that takes the longer label first, if there is one. -/
theorem splitTop_spec (labels : List Text) {fuel : ℕ} (hfuel : rest.length < fuel) :
    match splitTop (longestFirst labels.dedup) fuel rest with
    | some read => ReadsLongest labels rest read
    | none => ∀ other, ¬ Reads labels rest other := by
  induction fuel generalizing rest with
  | zero => omega
  | succ fuel ih =>
    rw [splitTop_succ]
    -- an attempt with a label that some way to read the text starts with succeeds
    have hcomplete : ∀ label other, Reads labels rest (label :: other) →
        attempt (longestFirst labels.dedup) fuel rest label ≠ none := by
      intro label other hreads hnone
      by_cases hother : other = []
      · subst hother
        have hrest : rest = label := hreads.text.symm
        rw [hrest, attempt_whole] at hnone
        cases hnone
      · obtain ⟨tail, htop, htail⟩ := reads_cons hreads hother
        rw [htop, attempt_comma, Option.map_eq_none_iff] at hnone
        have := @ih tail (by rw [htop] at hfuel; simp [text] at hfuel; omega)
        rw [hnone] at this
        exact this other htail
    cases hfound : (longestFirst labels.dedup).findSome? (attempt (longestFirst labels.dedup) fuel rest) with
    | none =>
      intro other hreads
      cases other with
      | nil => exact hreads.nonempty rfl
      | cons label other =>
        exact hcomplete label other hreads (findSome?_eq_none_iff.mp hfound label
          (mem_longestFirst.mpr (hreads.known label (by simp))))
    | some read =>
      obtain ⟨before, label, after, horder, hlabel, hbefore⟩ := findSome?_eq_some_iff.mp hfound
      have hknown : label ∈ labels := mem_longestFirst.mp (by rw [horder]; simp)
      have hsorted := longestFirst_sorted labels.dedup
      rw [horder, pairwise_append] at hsorted
      -- a way to read the text starts with this label or with a shorter one
      have hfirst : ∀ y other, Reads labels rest (y :: other) → y = label ∨ y.length < label.length := by
        intro y other hreads
        have hy : y ∈ before ++ label :: after := horder ▸ mem_longestFirst.mpr (hreads.known y (by simp))
        rcases mem_append.mp hy with hy | hy
        · exact (hcomplete y other hreads (hbefore y hy)).elim
        · rcases mem_cons.mp hy with rfl | hy
          · exact .inl rfl
          · have hle := (pairwise_cons.mp hsorted.2.1).1 y hy
            rcases Nat.lt_or_eq_of_le hle with hlt | heq
            · exact .inr hlt
            · refine .inl ?_
              have hyp : y <+: rest := by
                by_cases hother : other = []
                · subst hother
                  exact ⟨[], by rw [← hreads.text]; simp [joined]⟩
                · obtain ⟨tail, htop, -⟩ := reads_cons hreads hother
                  exact ⟨text ", " ++ tail, by rw [htop]; simp⟩
              have hlp : label <+: rest := by
                rcases attempt_some hlabel with ⟨-, hrest⟩ | ⟨tail, read', -, hrest, -⟩
                · exact ⟨[], by rw [hrest]; simp⟩
                · exact ⟨text ", " ++ tail, by rw [hrest]; simp⟩
              exact (prefix_of_prefix_length_le hyp hlp heq.le).eq_of_length heq
      rcases attempt_some hlabel with ⟨rfl, hrest⟩ | ⟨tail, read', rfl, hrest, hsplit⟩
      · refine ⟨⟨by simp, by simpa using hknown, hrest.symm⟩, fun other hother => ?_⟩
        cases other with
        | nil => exact (hother.nonempty rfl).elim
        | cons y other =>
          rcases hfirst y other hother with rfl | hlt
          · by_cases hnil : other = []
            · exact .inl (by rw [hnil])
            · obtain ⟨tail, htop, -⟩ := reads_cons hother hnil
              have := congrArg List.length (hrest.symm.trans htop)
              simp [text] at this
          · exact .inr (.inl hlt)
      · have hspec := @ih tail (by rw [hrest] at hfuel; simp [text] at hfuel; omega)
        rw [hsplit] at hspec
        have hne := hspec.1.nonempty
        refine ⟨⟨by simp, ?_, ?_⟩, fun other hother => ?_⟩
        · intro l hl
          rcases mem_cons.mp hl with rfl | hl
          · exact hknown
          · exact hspec.1.known l hl
        · rw [joined_cons _ hne, hspec.1.text, hrest]
        · cases other with
          | nil => exact (hother.nonempty rfl).elim
          | cons y other =>
            rcases hfirst y other hother with rfl | hlt
            · by_cases hnil : other = []
              · subst hnil
                have := congrArg List.length (hrest.symm.trans hother.text.symm)
                simp [text, joined] at this
              · obtain ⟨tail', htop, hreads⟩ := reads_cons hother hnil
                have htail : tail' = tail := append_cancel_left (htop.symm.trans hrest)
                subst htail
                rcases hspec.2 other hreads with rfl | hlonger
                · exact .inl rfl
                · exact .inr (.inr ⟨rfl, hlonger⟩)
            · exact .inr (.inl hlt)

theorem topLabels_longest (htop : top ≠ []) (h : Reads labels top read) : ReadsLongest labels top (topLabels top labels) := by
  have hspec := splitTop_spec labels (Nat.lt_succ_self top.length)
  rw [topLabels, if_neg htop]
  cases hsplit : splitTop (longestFirst labels.dedup) (top.length + 1) top with
  | none =>
    rw [hsplit] at hspec
    exact (hspec read h).elim
  | some found =>
    rw [hsplit] at hspec
    exact hspec

end Top

section Rows

variable (W : WordTable)

/-- `(+n)` behind the count of a date option. -/
def maybeText (maybe : Option ℕ) : Text :=
  match maybe with
  | some n => text " (+" ++ decimal n ++ text ")"
  | none => []

structure LinedName (s : Text) : Prop extends IsName s where
  oneLine : OneLine s

theorem optionText_eq {line : PollLine} (h : LinedName line.label) :
    optionText line = entry line.label line.count ++ maybeText line.maybe := by
  unfold optionText maybeText entry
  rw [h.oneLine.mdEscape]
  cases line.maybe <;> simp

theorem maybeAt_maybeText (maybe : Option ℕ) : maybeAt (maybeText maybe) = some maybe := by
  cases maybe with
  | none => rfl
  | some n =>
    have hdrop : (text " (+" ++ decimal n ++ text ")").dropWhile isSpace = text "(+" ++ (decimal n ++ text ")") := by
      rw [show text " (+" = 32 :: text "(+" from by decide, append_assoc, cons_append,
        dropWhile_cons_of_pos (by decide)]
      exact dropWhile_cons_of_neg (by decide)
    have hnumber := leadingNumber_decimal n (text ")") (by decide)
    rw [maybeText, maybeAt, if_neg (by simp [text]), hdrop, afterPrefix_append, Option.bind_some, hnumber]
    rfl

theorem pollRow_entry (name : Text) (hne : name ≠ []) (htrim : Trimmed name) (n : ℕ) (maybe : Option ℕ) :
    pollRow (entry name n ++ maybeText maybe) = some (name, n, maybe) := by
  have hcolon : 58 ∉ maybeText maybe := by
    cases maybe with
    | none => simp [maybeText]
    | some m =>
      simp only [maybeText, mem_append, not_or]
      exact ⟨⟨by decide, not_mem_decimal (by decide) m⟩, by decide⟩
  have hlast : name.getLast?.all isSpace = false := by
    have hl := getLast?_eq_some_getLast hne
    rw [hl, Option.all_some]
    exact htrim.last _ hl
  have hhead : ∀ c ∈ (maybeText maybe).head?, isDecimal c = false := by
    cases maybe with
    | none => simp [maybeText]
    | some m =>
      intro c hc
      rw [← Option.some.inj (show some 32 = some c from hc)]
      decide
  rw [pollRow, splitLast_entry name n _ hcolon, Option.bind_some, hlast, dropWhile_space_decimal, leadingNumber_decimal n _ hhead,
    if_neg (by simp), Option.bind_some, maybeAt_maybeText]
  rfl

/-- An option line that the reader takes neither for the list of the top options nor for the abstentions. -/
structure PlainOption (date : Bool) (line : PollLine) : Prop where
  most : ¬ text "Meiste Stimmen:" <+: optionText line
  best : ¬ text "Bester Termin:" <+: optionText line
  reserved : date = false → line.label ≠ text "Enthaltungen"

variable {W} {date : Bool} {scan : PollScan} {line : PollLine}

theorem pollTop_none {s : Text} (hmost : ¬ text "Meiste Stimmen:" <+: s) (hbest : ¬ text "Bester Termin:" <+: s) :
    pollTop s = none := by
  rw [pollTop, afterPrefix_none hmost, afterPrefix_none hbest]
  rfl

theorem pollLine_row {s : Text} {row : Text × ℕ × Option ℕ} (hmost : ¬ text "Meiste Stimmen:" <+: s)
    (hbest : ¬ text "Bester Termin:" <+: s) (hrow : pollRow s = some row) :
    pollLine W date scan s =
      if row.1 = text "Enthaltungen" ∧ row.2.2 = none then { scan with abstentions := some row.2.1 }
      else if row.2.2.isSome = date then { scan with rows := scan.rows ++ [row] }
      else { scan with notes := scan.notes ++ [s] } := by
  have hlegend : s ≠ pollLegend := by
    rintro rfl
    rw [show pollRow pollLegend = none from by decide] at hrow
    cases hrow
  unfold pollLine
  rw [pollTop_none hmost hbest, hrow]
  dsimp only
  rw [if_neg hlegend]

theorem pollLine_plain (hname : LinedName line.label) (hmaybe : line.maybe.isSome = date) (h : PlainOption date line) :
    pollLine W date scan (optionText line) = { scan with rows := scan.rows ++ [(line.label, line.count, line.maybe)] } := by
  have hrow := pollRow_entry line.label hname.nonempty hname.trimmed line.count line.maybe
  rw [← optionText_eq hname] at hrow
  rw [pollLine_row h.most h.best hrow]
  have hreserved : ¬ (line.label = text "Enthaltungen" ∧ line.maybe = none) := by
    rintro ⟨hlabel, hnone⟩
    refine h.reserved ?_ hlabel
    rw [← hmaybe, hnone]
    rfl
  rw [if_neg hreserved, if_pos hmaybe]

theorem pollLine_other (hname : LinedName line.label) (hmaybe : line.maybe.isSome = date) (h : ¬ PlainOption date line) :
    (pollLine W date scan (optionText line)).rows = scan.rows := by
  have hrow := pollRow_entry line.label hname.nonempty hname.trimmed line.count line.maybe
  rw [← optionText_eq hname] at hrow
  by_cases hmost : text "Meiste Stimmen:" <+: optionText line
  · obtain ⟨rest, hrest⟩ := hmost
    rw [← hrest]
    unfold pollLine
    rw [pollTop, afterPrefix_append, Option.some_or]
    rfl
  · by_cases hbest : text "Bester Termin:" <+: optionText line
    · unfold pollLine
      rw [pollTop, afterPrefix_none hmost, Option.none_or]
      obtain ⟨rest, hrest⟩ := hbest
      rw [← hrest, afterPrefix_append]
      rfl
    · rw [pollLine_row hmost hbest hrow]
      have hreserved : line.label = text "Enthaltungen" ∧ line.maybe = none := by
        by_contra hnot
        refine h ⟨hmost, hbest, fun hd hlabel => hnot ⟨hlabel, ?_⟩⟩
        rw [hd] at hmaybe
        exact Option.isNone_iff_eq_none.mp (Option.isSome_eq_false_iff.mp hmaybe)
      rw [if_pos hreserved]

variable {lines : List PollLine}

theorem foldl_plain (scan : PollScan) (hname : ∀ line ∈ lines, LinedName line.label) (hmaybe : ∀ line ∈ lines, line.maybe.isSome = date)
    (h : ∀ line ∈ lines, PlainOption date line) :
    (lines.map optionText).foldl (pollLine W date) scan =
      { scan with rows := scan.rows ++ lines.map fun line => (line.label, line.count, line.maybe) } := by
  induction lines generalizing scan with
  | nil => simp
  | cons line lines ih =>
    have htail : ∀ l ∈ lines, l ∈ line :: lines := fun l hl => mem_cons_of_mem line hl
    rw [map_cons, foldl_cons, pollLine_plain (hname line (by simp)) (hmaybe line (by simp)) (h line (by simp)),
      ih _ (fun l hl => hname l (htail l hl)) (fun l hl => hmaybe l (htail l hl)) fun l hl => h l (htail l hl)]
    simp

/-- Each option line gives at most one row, and only a plain one gives it. -/
theorem foldl_rows_length (scan : PollScan) (hname : ∀ line ∈ lines, LinedName line.label)
    (hmaybe : ∀ line ∈ lines, line.maybe.isSome = date) :
    ((lines.map optionText).foldl (pollLine W date) scan).rows.length ≤ scan.rows.length + lines.length ∧
      (((lines.map optionText).foldl (pollLine W date) scan).rows.length = scan.rows.length + lines.length →
        ∀ line ∈ lines, PlainOption date line) := by
  induction lines generalizing scan with
  | nil => simp
  | cons line lines ih =>
    have htail : ∀ l ∈ lines, l ∈ line :: lines := fun l hl => mem_cons_of_mem line hl
    obtain ⟨hle, heq⟩ := ih (pollLine W date scan (optionText line)) (fun l hl => hname l (htail l hl))
      fun l hl => hmaybe l (htail l hl)
    rw [map_cons, foldl_cons, length_cons]
    by_cases hplain : PlainOption date line
    · have hone : (pollLine W date scan (optionText line)).rows.length = scan.rows.length + 1 := by
        rw [pollLine_plain (hname line (by simp)) (hmaybe line (by simp)) hplain]
        simp
      rw [hone] at hle heq
      refine ⟨by omega, fun hall => forall_mem_cons.mpr ⟨hplain, heq (by omega)⟩⟩
    · rw [pollLine_other (hname line (by simp)) (hmaybe line (by simp)) hplain] at hle
      exact ⟨by omega, fun hall => by omega⟩

theorem pollRow_within {s : Text} {row : Text × ℕ × Option ℕ} (h : pollRow s = some row) : row.1 <:+: s := by
  obtain ⟨halves, hsplit, h⟩ := Option.bind_eq_some_iff.mp h
  split at h
  next => cases h
  next =>
    obtain ⟨found, -, h⟩ := Option.bind_eq_some_iff.mp h
    obtain ⟨maybe, -, rfl⟩ := Option.map_eq_some_iff.mp h
    exact ⟨[], 58 :: halves.2, by simp [(splitLast_eq hsplit).1]⟩

theorem pollLine_rows {s : Text} (hs : OneLine s) (h : ∀ row ∈ scan.rows, OneLine row.1) :
    ∀ row ∈ (pollLine W date scan s).rows, OneLine row.1 := by
  unfold pollLine
  split
  · exact h
  next row _ hrow =>
    split
    · exact h
    · split
      · exact h
      · split
        · exact forall_mem_append.mpr ⟨h, forall_mem_singleton.mpr (hs.of_subset (pollRow_within hrow).subset)⟩
        · exact h
  · split
    · exact h
    · split <;> exact h

theorem foldl_pollRows (scan : PollScan) {texts : List Text} (htexts : ∀ s ∈ texts, OneLine s)
    (h : ∀ row ∈ scan.rows, OneLine row.1) : ∀ row ∈ (texts.foldl (pollLine W date) scan).rows, OneLine row.1 := by
  induction texts generalizing scan with
  | nil => exact h
  | cons s texts ih =>
    obtain ⟨hs, htexts⟩ := forall_mem_cons.mp htexts
    exact ih _ htexts (pollLine_rows hs h)

theorem poll_rows {texts : List Text} {found : PollNode} (htexts : ∀ s ∈ texts, OneLine s) (h : poll W texts = some found) :
    ∀ row ∈ found.rows, OneLine row.label := by
  cases texts with
  | nil => cases h
  | cons kindLine rest =>
    rw [poll] at h
    split at h
    next =>
      cases h
      intro row hrow
      obtain ⟨raw, hraw, rfl⟩ := mem_map.mp hrow
      exact foldl_pollRows {} (forall_mem_cons.mp htexts).2 (by simp) raw hraw
    next => cases h

end Rows

section Poll

/-- A poll as the minutes build it: the kind line fits the mode, and only a date poll counts Vielleicht. -/
structure PollSnippet.Valid (view : PollSnippet) : Prop where
  kind : ∃ mode most, view.kindLine = pollMeta mode most ∧ (view.date = true ↔ mode = .date)
  labels : ∀ line ∈ view.lines, IsName line.label
  maybe : ∀ line ∈ view.lines, line.maybe.isSome = view.date
  abstentions : view.abstentions.isSome = !view.date

structure PollSnippet.Lined (view : PollSnippet) : Prop extends view.Valid where
  oneLine : ∀ line ∈ view.lines, OneLine line.label

theorem PollSnippet.Lined.names {view : PollSnippet} (h : view.Lined) : ∀ line ∈ view.lines, LinedName line.label :=
  fun line hline => ⟨h.labels line hline, h.oneLine line hline⟩

def PollSnippet.labels (view : PollSnippet) : List Text := view.lines.map (·.label)

def PollSnippet.topLabels (view : PollSnippet) : List Text := (view.lines.filter (·.top)).map (·.label)

/-- What the reader makes of a poll: each written option with its counts and mark, and the abstentions. -/
structure PollRead (node : TallyNode) (view : PollSnippet) : Prop where
  untallied : node.counts = false
  ranked : ∃ found, node.ranking = .poll found ∧ found.rows = (if view.closed then view.lines else []) ∧
    found.abstentions = if view.closed then view.abstentions else none

/-- The list of the top options, read with the longer label first, names exactly the top options. -/
def TopReadable (view : PollSnippet) : Prop :=
  view.topLabels = [] ∨ ∃ read, ReadsLongest view.labels (joined (text ", ") view.topLabels) read ∧
    ∀ line ∈ view.lines, line.top = true ↔ line.label ∈ read

/-- The question and the labels of a poll that turn no line into another kind of line. -/
structure PollSnippet.Clear (W : WordTable) (view : PollSnippet) : Prop where
  tally : ∀ line ∈ mdEscape view.question :: pollBody view, isTallyLine line = false
  seats : (∀ line ∈ pollBody view, isElectionMeta W line = false) ∨ ∃ line ∈ pollBody view, text "Kandidatur:" <+: line
  oneLine : view.closed → ∀ line ∈ view.lines, OneLine line.label
  options : view.closed → ∀ line ∈ view.lines, PlainOption view.date line
  marks : view.closed → TopReadable view

variable {W : WordTable} {view : PollSnippet} {date : Bool} {scan : PollScan}

theorem ranking_poll {lines : List Text} {node : PollNode} :
    ranking W false lines = .poll node ↔ election W lines = none ∧ poll W lines = some node := by
  unfold ranking
  rw [if_neg (by simp)]
  cases election W lines with
  | some found => simp
  | none => cases poll W lines <;> simp

theorem election_none {lines : List Text} :
    election W lines = none ↔
      (∀ line ∈ lines, isElectionMeta W line = false) ∨ ∃ line ∈ lines, text "Kandidatur:" <+: line := by
  unfold election
  split
  next hnone =>
    simp only [true_iff]
    exact .inl fun line hline => by simpa using find?_eq_none.mp hnone line hline
  next kindLine hfound =>
    have hmeta : ¬ ∀ line ∈ lines, isElectionMeta W line = false := by
      intro hall
      have hline := hall kindLine (mem_of_find?_eq_some hfound)
      rw [find?_some hfound] at hline
      cases hline
    rw [or_iff_right hmeta]
    simp only [ite_eq_left_iff, reduceCtorEq, imp_false, not_not, any_eq_true, isPrefixOf_iff_prefix]

structure KindLine (line : Text) : Prop where
  trimmed : Trimmed line
  nonempty : line ≠ []
  oneLine : OneLine line
  isMeta : isPollMeta line = true

theorem kindLine_pollMeta (mode : PollMode) (most : Option ℕ) : KindLine (pollMeta mode most) := by
  have hmulti : ∀ n, KindLine (text "Umfrage · Mehrfachwahl, höchstens " ++ decimal n) := by
    intro n
    have hlead : text "Umfrage · Mehrfachwahl, höchstens " = text "Umfrage" ++ text " · Mehrfachwahl, höchstens " := by decide
    refine ⟨?_, by simp [text], OneLine.append (by decide) (oneLine_decimal n), ?_⟩
    · rw [hlead]
      exact Trimmed.append ⟨by decide, by decide⟩ (trimmed_decimal n) _ (by decide) (decimal_ne_nil n)
    · have hrest : text " · Mehrfachwahl, höchstens " ++ decimal n =
          32 :: ([dotMark] ++ (32 :: (text "Mehrfachwahl, höchstens " ++ decimal n))) := by
        rw [show text " · Mehrfachwahl, höchstens " = 32 :: dotMark :: 32 :: text "Mehrfachwahl, höchstens " from by decide]
        rfl
      have hdrop : (32 :: ([dotMark] ++ (32 :: (text "Mehrfachwahl, höchstens " ++ decimal n)))).dropWhile isSpace =
          [dotMark] ++ (32 :: (text "Mehrfachwahl, höchstens " ++ decimal n)) := by
        rw [dropWhile_cons_of_pos (by decide)]
        exact dropWhile_cons_of_neg (by decide)
      rw [isPollMeta, hlead, append_assoc, afterPrefix_append, hrest, Option.any_some, hdrop, afterPrefix_append]
      simp [isSpace, decimal_ne_nil]
  cases mode with
  | date =>
    have hdate : KindLine (text "Terminumfrage") := ⟨⟨by decide, by decide⟩, by decide, by decide, by decide⟩
    exact hdate
  | single =>
    have hsingle : KindLine (text "Umfrage · Einzelwahl") := ⟨⟨by decide, by decide⟩, by decide, by decide, by decide⟩
    exact hsingle
  | multi =>
    cases most with
    | none => exact ⟨⟨by decide, by decide⟩, by decide, by decide, by decide⟩
    | some n => exact hmulti n

theorem kindLine_date (h : view.Valid) : decide (view.kindLine = text "Terminumfrage") = view.date := by
  obtain ⟨mode, most, hkind, hdate⟩ := h.kind
  have hother : ∀ s, text "Umfrage" <+: s → ¬ s = text "Terminumfrage" := by
    rintro s hs rfl
    exact absurd hs (by decide)
  rw [hkind]
  cases mode with
  | date => rw [hdate.mpr rfl]; exact decide_eq_true rfl
  | single =>
    have : view.date = false := by
      rw [Bool.eq_false_iff]
      exact fun hd => by cases hdate.mp hd
    rw [this, decide_eq_false_iff_not]
    exact hother _ (by simp only [pollMeta]; decide)
  | multi =>
    have : view.date = false := by
      rw [Bool.eq_false_iff]
      exact fun hd => by cases hdate.mp hd
    rw [this, decide_eq_false_iff_not]
    cases most with
    | none => exact hother _ (by decide)
    | some n =>
      refine hother _ ⟨text " · Mehrfachwahl, höchstens " ++ decimal n, ?_⟩
      rw [pollMeta, ← append_assoc]
      exact congrArg (· ++ decimal n) (by decide)

theorem topTexts_eq (h : view.Lined) : topTexts view = view.topLabels := by
  refine map_congr_left fun line hline => ?_
  exact (h.oneLine line (mem_of_mem_filter hline)).mdEscape

theorem topLabels_name (h : view.Valid) : ∀ label ∈ view.topLabels, IsName label := by
  intro label hlabel
  obtain ⟨line, hline, rfl⟩ := mem_map.mp hlabel
  exact h.labels line (mem_of_mem_filter hline)

def topLead (date : Bool) : Text := if date then text "Bester Termin:" else text "Meiste Stimmen:"

theorem topText_eq (h : view.Lined) : topText view = topLead view.date ++ 32 :: joined (text ", ") view.topLabels := by
  rw [topText, topTexts_eq h, topLead]
  cases view.date with
  | true => exact congrArg (· ++ joined (text ", ") view.topLabels) (show text "Bester Termin" ++ text ": " = text "Bester Termin:" ++ [32] by decide) |>.trans (by simp)
  | false => exact congrArg (· ++ joined (text ", ") view.topLabels) (show text "Meiste Stimmen" ++ text ": " = text "Meiste Stimmen:" ++ [32] by decide) |>.trans (by simp)

theorem trimmed_tops (h : view.Valid) : Trimmed (joined (text ", ") view.topLabels) :=
  trimmed_joined (fun l hl => (topLabels_name h l hl).nonempty) fun l hl => (topLabels_name h l hl).trimmed

theorem pollLine_top (h : view.Lined) :
    pollLine W date scan (topText view) = { scan with top := joined (text ", ") view.topLabels } := by
  have htop : pollTop (topText view) = some (joined (text ", ") view.topLabels) := by
    rw [topText_eq h, topLead, pollTop]
    cases view.date with
    | false => rw [if_neg (by simp), afterPrefix_append, Option.some_or, Option.map_some, (trimmed_tops h.toValid).strip_space]
    | true =>
      have hmost : ¬ text "Meiste Stimmen:" <+: text "Bester Termin:" ++ 32 :: joined (text ", ") view.topLabels :=
        not_prefix_of_head (c := 66) (d := 77) rfl rfl (by decide)
      rw [if_pos rfl, afterPrefix_none hmost, Option.none_or, afterPrefix_append, Option.map_some,
        (trimmed_tops h.toValid).strip_space]
  unfold pollLine
  rw [htop]

theorem pollLine_abstentions (n : ℕ) :
    pollLine W date scan (text "Enthaltungen: " ++ decimal n) = { scan with abstentions := some n } := by
  have hentry : text "Enthaltungen: " ++ decimal n = entry (text "Enthaltungen") n := by
    rw [entry, show text "Enthaltungen: " = text "Enthaltungen" ++ text ": " from by decide]
  have hhead : (text "Enthaltungen: " ++ decimal n).head? = some 69 := by simp [text]
  have hrow : pollRow (text "Enthaltungen: " ++ decimal n) = some (text "Enthaltungen", n, none) := by
    have := pollRow_entry (text "Enthaltungen") (by decide) ⟨by decide, by decide⟩ n none
    rwa [maybeText, append_nil, ← hentry] at this
  rw [pollLine_row (not_prefix_of_head hhead (d := 77) rfl (by decide)) (not_prefix_of_head hhead (d := 66) rfl (by decide)) hrow,
    if_pos ⟨rfl, rfl⟩]

theorem pollLine_legend (W : WordTable) (date : Bool) (scan : PollScan) : pollLine W date scan pollLegend = scan := by
  have htop : pollTop pollLegend = none := by decide
  have hrow : pollRow pollLegend = none := by decide
  have hballots : pollBallots W pollLegend = none := by
    rw [pollBallots, show leadingNumber pollLegend = none from by decide]
    rfl
  unfold pollLine
  rw [htop, hrow]
  dsimp only
  rw [hballots]
  exact if_pos rfl

theorem pollLine_answers : pollLine W date scan (answersText view) = { scan with footer := some (footerText view.ballots) } := by
  have htext : ∃ tail, (tail = [] ∨ tail = text "en") ∧ answersText view = decimal view.ballots ++ (text " Antwort" ++ tail) := by
    unfold answersText
    by_cases hone : view.ballots = 1
    · exact ⟨[], .inl rfl, by rw [if_pos hone, show text " Antwort" = text " " ++ text "Antwort" from by decide]; simp⟩
    · exact ⟨text "en", .inr rfl, by
        rw [if_neg hone, show text "Antworten" = text "Antwort" ++ text "en" from by decide,
          show text " Antwort" = text " " ++ text "Antwort" from by decide]
        simp⟩
  obtain ⟨tail, htail, htext⟩ := htext
  have hdigit : ∀ c ∈ (answersText view).head?, isDecimal c = true := fun c hc => by
    rw [htext] at hc
    exact decimal_head?_isDecimal _ hc
  have hnot : ∀ p d, p.head? = some d → isDecimal d = false → ¬ p <+: answersText view := by
    intro p d hp hd hprefix
    obtain ⟨t, ht⟩ := hprefix
    obtain ⟨q, rfl⟩ := head?_eq_some_iff.mp hp
    have := hdigit d (by rw [← ht]; rfl)
    rw [hd] at this
    cases this
  have hrow : pollRow (answersText view) = none := by
    have hcolon : 58 ∉ answersText view := by
      rw [htext, mem_append, mem_append, not_or, not_or]
      refine ⟨not_mem_decimal (by decide) _, by decide, ?_⟩
      rcases htail with rfl | rfl <;> decide
    have hsplit : splitLast 58 (answersText view) = none := by
      rw [splitLast, if_neg hcolon]
    rw [pollRow, hsplit]
    rfl
  have hballots : pollBallots W (answersText view) = some view.ballots := by
    have hnumber := leadingNumber_decimal view.ballots (text " Antwort" ++ tail) fun c hc => by
      rw [← Option.some.inj (show some 32 = some c from hc)]
      decide
    rw [pollBallots, htext, hnumber, Option.bind_some, afterPrefix_append, Option.bind_some, if_pos]
    rcases htail with rfl | rfl <;> rfl
  unfold pollLine
  rw [pollTop_none (hnot _ 77 rfl (by decide)) (hnot _ 66 rfl (by decide)), hrow]
  dsimp only
  rw [hballots]

theorem foldl_result (h : view.Lined) (scan : PollScan) :
    (pollResult view).foldl (pollLine W date) scan =
      let options := (view.lines.map optionText).foldl (pollLine W date) scan
      { options with
        abstentions := view.abstentions.or options.abstentions
        top := if view.topLabels = [] then options.top else joined (text ", ") view.topLabels
        footer := some (footerText view.ballots) } := by
  unfold pollResult
  rw [foldl_append, foldl_append, foldl_append, foldl_append, topTexts_eq h]
  generalize (view.lines.map optionText).foldl (pollLine W date) scan = options
  have habst : (view.abstentions.toList.map fun n => text "Enthaltungen: " ++ decimal n).foldl (pollLine W date) options =
      { options with abstentions := view.abstentions.or options.abstentions } := by
    cases view.abstentions with
    | none => rfl
    | some n => exact pollLine_abstentions (W := W) n
  have hlegend : ∀ s : PollScan, (if view.date then [pollLegend] else []).foldl (pollLine W date) s = s := by
    intro s
    split
    · exact pollLine_legend W date s
    · rfl
  rw [habst, hlegend, foldl_cons, foldl_nil, pollLine_answers]
  dsimp only
  by_cases htops : view.topLabels = []
  · simp only [if_pos htops, if_neg (not_not.mpr htops), foldl_nil]
  · simp only [if_neg htops, if_pos (show view.topLabels ≠ [] from htops), foldl_cons, foldl_nil, pollLine_top h]

theorem pollBody_stripped (h : view.Valid) (hone : view.closed → ∀ line ∈ view.lines, OneLine line.label) :
    ((pollBody view).map strip).filter (· ≠ []) = pollBody view := by
  have hlines : ∀ line ∈ pollBody view, Trimmed line ∧ line ≠ [] := by
    intro line hline
    rcases mem_cons.mp hline with rfl | hline
    · obtain ⟨mode, most, hkind, -⟩ := h.kind
      rw [hkind]
      exact ⟨(kindLine_pollMeta mode most).trimmed, (kindLine_pollMeta mode most).nonempty⟩
    · split at hline
      next hclosed =>
        have hlined : view.Lined := ⟨h, hone hclosed⟩
        simp only [pollResult, mem_append] at hline
        obtain (((hline | hline) | hline) | hline) | hline := hline
        · obtain ⟨option, hoption, rfl⟩ := mem_map.mp hline
          have hname := hlined.names option hoption
          rw [optionText_eq hname]
          refine ⟨?_, by simp [entry_ne_nil]⟩
          cases option.maybe with
          | none => simpa [maybeText] using trimmed_entry hname.nonempty hname.trimmed option.count
          | some m =>
            rw [maybeText, ← append_assoc]
            exact (trimmed_entry hname.nonempty hname.trimmed _).append ⟨by decide, by decide⟩ _ (entry_ne_nil _ _)
              (by decide)
        · obtain ⟨n, -, rfl⟩ := mem_map.mp hline
          refine ⟨?_, by simp [text]⟩
          have hword : Trimmed (text "Enthaltungen") := ⟨by decide, by decide⟩
          have := trimmed_entry (by decide) hword n
          rwa [entry, show text "Enthaltungen" ++ text ": " = text "Enthaltungen: " from by decide] at this
        · split at hline
          · rw [mem_singleton.mp hline]
            exact ⟨⟨by decide, by decide⟩, by decide⟩
          · cases hline
        · split at hline
          next htops =>
            rw [topTexts_eq hlined] at htops
            rw [mem_singleton.mp hline, topText_eq hlined]
            have hlead : Trimmed (topLead view.date) ∧ topLead view.date ≠ [] := by
              rw [topLead]
              cases view.date <;> exact ⟨⟨by decide, by decide⟩, by decide⟩
            refine ⟨?_, by simp⟩
            have := hlead.1.append (trimmed_tops h) [32] hlead.2
              (joined_ne_nil htops fun l hl => (topLabels_name h l hl).nonempty)
            simpa using this
          next => cases hline
        · rw [mem_singleton.mp hline, answersText]
          refine ⟨?_, by simp [decimal_ne_nil]⟩
          by_cases hone : view.ballots = 1
          · rw [if_pos hone]
            exact (trimmed_decimal _).append ⟨by decide, by decide⟩ _ (decimal_ne_nil _) (by decide)
          · rw [if_neg hone]
            exact (trimmed_decimal _).append ⟨by decide, by decide⟩ _ (decimal_ne_nil _) (by decide)
      next => cases hline
  have hmap : (pollBody view).map strip = pollBody view := by
    conv_rhs => rw [← map_id (pollBody view)]
    exact map_congr_left fun line hline => (hlines line hline).1.strip
  rw [hmap, filter_eq_self]
  exact fun line hline => decide_eq_true (hlines line hline).2

theorem oneLine_pollBody (h : view.Valid) : ∀ s ∈ pollBody view, OneLine s := by
  intro s hs
  rcases mem_cons.mp hs with rfl | hs
  · obtain ⟨mode, most, hkind, -⟩ := h.kind
    rw [hkind]
    exact (kindLine_pollMeta mode most).oneLine
  · split at hs
    next =>
      simp only [pollResult, mem_append] at hs
      obtain (((hs | hs) | hs) | hs) | hs := hs
      · obtain ⟨option, -, rfl⟩ := mem_map.mp hs
        refine OneLine.append (OneLine.append (oneLine_mdEscape _) (by decide)) ?_
        cases option.maybe with
        | none => exact oneLine_decimal _
        | some m => exact (((oneLine_decimal _).append (by decide)).append (oneLine_decimal _)).append (by decide)
      · obtain ⟨n, -, rfl⟩ := mem_map.mp hs
        exact OneLine.append (by decide) (oneLine_decimal n)
      · split at hs
        · rw [mem_singleton.mp hs]
          decide
        · cases hs
      · split at hs
        · rw [mem_singleton.mp hs, topText]
          refine OneLine.append (OneLine.append (by split <;> decide) (by decide)) (oneLine_joined (by decide) fun p hp => ?_)
          obtain ⟨line, -, rfl⟩ := mem_map.mp hp
          exact oneLine_mdEscape _
        · cases hs
      · rw [mem_singleton.mp hs, answersText]
        exact ((oneLine_decimal _).append (by decide)).append (by split <;> decide)
    next => cases hs

theorem top_iff (h : view.Valid) :
    (∀ line ∈ view.lines, line.top = decide (line.label ∈ topLabels
        (if view.topLabels = [] then [] else joined (text ", ") view.topLabels) view.labels)) ↔ TopReadable view := by
  have htop : ∀ line ∈ view.lines, line.top = true → line.label ∈ view.topLabels := fun line hline ht =>
    mem_map_of_mem (mem_filter.mpr ⟨hline, ht⟩)
  have hmark : ∀ (line : PollLine) (read : List Text), line.top = decide (line.label ∈ read) ↔
      (line.top = true ↔ line.label ∈ read) := fun line read => by rw [Bool.eq_iff_iff, decide_eq_true_iff]
  by_cases htops : view.topLabels = []
  · refine iff_of_true (fun line hline => (hmark line _).mpr ⟨fun ht => ?_, fun hread => ?_⟩) (.inl htops)
    · exact absurd (htop line hline ht) (by simp [htops])
    · rw [if_pos htops, topLabels, if_pos rfl] at hread
      cases hread
  · have hreads : Reads view.labels (joined (text ", ") view.topLabels) view.topLabels := by
      refine ⟨htops, fun label hlabel => ?_, rfl⟩
      obtain ⟨line, hline, rfl⟩ := mem_map.mp hlabel
      exact mem_map_of_mem (mem_of_mem_filter hline)
    have hlongest := topLabels_longest (joined_ne_nil htops fun l hl => (topLabels_name h l hl).nonempty) hreads
    rw [if_neg htops, TopReadable, or_iff_right htops]
    constructor
    · exact fun hall => ⟨_, hlongest, fun line hline => (hmark line _).mp (hall line hline)⟩
    · rintro ⟨read, hread, hall⟩ line hline
      rw [hlongest.unique hread, hmark]
      exact hall line hline

theorem poll_read_iff (W : WordTable) (P : LineParser) (h : view.Valid) :
    PollRead (vote W (P.lines (buildPollSnippet view))) view ↔ view.Clear W := by
  rw [buildPollSnippet, vote_callout W P (oneLine_mdEscape _) (oneLine_pollBody h)]
  have htally : (∀ line ∈ (mdEscape view.question).dropWhile isSpace :: pollBody view, isTallyLine line = false) ↔
      ∀ line ∈ mdEscape view.question :: pollBody view, isTallyLine line = false := by
    simp only [forall_mem_cons, isTallyLine_dropWhile]
  have hranking : (∀ line ∈ mdEscape view.question :: pollBody view, isTallyLine line = false) →
      (tallyNode W ((mdEscape view.question).dropWhile isSpace :: pollBody view)).ranking =
        ranking W false (((pollBody view).map strip).filter (· ≠ [])) := by
    intro hnone
    rw [(tallyNode_none (W := W) (htally.mpr hnone)).2, tail_cons]
  have hpoll : poll W (pollBody view) = some (pollNode view.kindLine view.date
      ((if view.closed then pollResult view else []).foldl (pollLine W view.date) {})) := by
    have hmeta : isPollMeta view.kindLine = true := by
      obtain ⟨mode, most, hkind, -⟩ := h.kind
      rw [hkind]
      exact (kindLine_pollMeta mode most).isMeta
    rw [pollBody, poll, if_pos hmeta, kindLine_date h]
  have hinitial : view.abstentions.or none = view.abstentions := by cases view.abstentions <;> rfl
  -- with plain options, the rows of the node are the written options up to the marks
  have hnode : view.closed = true → view.Lined → (∀ line ∈ view.lines, PlainOption view.date line) →
      let found := pollNode view.kindLine view.date
        ((if view.closed then pollResult view else []).foldl (pollLine W view.date) {})
      found.abstentions = view.abstentions ∧ found.rows = view.lines.map fun line =>
        ⟨line.label, line.count, line.maybe, decide (line.label ∈ topLabels
          (if view.topLabels = [] then [] else joined (text ", ") view.topLabels) view.labels)⟩ := by
    intro hclosed hlined hplain found
    have hfold := foldl_plain (W := W) {} hlined.names h.maybe hplain
    have hlabels : (view.lines.map fun line => (line.label, line.count, line.maybe)).map (·.1) = view.labels := by
      rw [map_map]
      rfl
    have hfound : found = pollNode view.kindLine view.date
        ((pollResult view).foldl (pollLine W view.date) {}) := by
      show pollNode _ _ _ = _
      rw [if_pos hclosed]
    rw [hfound, foldl_result hlined, hfold]
    refine ⟨hinitial, ?_⟩
    unfold pollNode
    dsimp only
    rw [nil_append, hlabels, map_map]
    rfl
  constructor
  · rintro ⟨huntallied, found, hfound, hrows, habst⟩
    have hnone := htally.mp (tallyNode_counts.mp huntallied)
    rw [hranking hnone, ranking_poll] at hfound
    have hone : view.closed → ∀ line ∈ view.lines, OneLine line.label := by
      intro hclosed line hline
      rw [if_pos hclosed] at hrows
      exact poll_rows (oneLine_stripped (oneLine_pollBody h)) hfound.2 line (hrows ▸ hline)
    rw [pollBody_stripped h hone, hpoll] at hfound
    obtain ⟨helection, hfound⟩ := hfound
    have hfound := Option.some.inj hfound
    cases hclosed : view.closed with
    | false => exact ⟨hnone, election_none.mp helection, by simp [hclosed], by simp [hclosed], by simp [hclosed]⟩
    | true =>
      have hlined : view.Lined := ⟨h, hone hclosed⟩
      have hplain : ∀ line ∈ view.lines, PlainOption view.date line := by
        refine (foldl_rows_length (W := W) {} hlined.names h.maybe).2 ?_
        have hlen := congrArg List.length hrows
        rw [← hfound, hclosed, if_pos rfl, if_pos rfl, foldl_result hlined] at hlen
        simpa [pollNode] using hlen
      have hmarks := (hnode hclosed hlined hplain).2
      rw [hfound, hrows, hclosed, if_pos rfl] at hmarks
      refine ⟨hnone, election_none.mp helection, hone, fun _ => hplain, fun _ => (top_iff h).mp fun line hline => ?_⟩
      have hline' := hmarks ▸ hline
      obtain ⟨other, -, hother⟩ := mem_map.mp hline'
      rw [← hother]
  · intro hclear
    have hread := ranking_poll.mpr ⟨election_none.mpr hclear.seats, hpoll⟩
    rw [← pollBody_stripped h hclear.oneLine] at hread
    refine ⟨tallyNode_counts.mpr (htally.mpr hclear.tally), _, (hranking hclear.tally).trans hread, ?_⟩
    cases hclosed : view.closed with
    | false => exact ⟨rfl, rfl⟩
    | true =>
      obtain ⟨habst, hrows⟩ := hnode hclosed ⟨h, hclear.oneLine hclosed⟩ (hclear.options hclosed)
      rw [hclosed] at habst hrows
      refine ⟨hrows.trans ?_, habst⟩
      rw [if_pos rfl]
      conv_rhs => rw [← map_id view.lines]
      exact map_congr_left fun line hline => by
        rw [← (top_iff h).mpr (hclear.marks hclosed) line hline]
        rfl

end Poll

end Callout
