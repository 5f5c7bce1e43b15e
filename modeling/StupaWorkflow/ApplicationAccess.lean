import StupaWorkflow.Tables
import StupaWorkflow.VoteAccess

/-!
Read access to the applications: the check of one application, the clause of the application list
and the set of the reading Gremien.
-/
namespace Auth
open Py StorageKeys
open List hiding splitOn splitOn_ne_nil set

section Paths

def pathSep : ℕ := 45

/-- `sep.join(segments)`. -/
def joinOn (sep : ℕ) : List Text → Text
  | [] => []
  | [s] => s
  | s :: rest => s ++ sep :: joinOn sep rest

/-- SQL `LIKE` with the default escape; a subject matches as a whole. -/
def like : Text → Text → Bool
  | [], s => s.isEmpty
  | 37 :: pattern, s => s.tails.any (like pattern)
  | 95 :: pattern, s => match s with
      | [] => false
      | _ :: rest => like pattern rest
  | 92 :: c :: pattern, s => match s with
      | [] => false
      | d :: rest => d = c && like pattern rest
  | c :: pattern, s => match s with
      | [] => false
      | d :: rest => d = c && like pattern rest

def isAlnum (c : ℕ) : Bool := isDigit c || (65 ≤ c && c ≤ 90) || (97 ≤ c && c ≤ 122)

/-- `is_valid_key`: at most 64 characters that match `^[A-Za-z0-9]+$`. The dollar sign
also stands before one newline at the end. -/
def isValidKey (key : Text) : Bool :=
  key.length ≤ 64 &&
    ((key ≠ [] && key.all isAlnum) ||
      (key.getLast? = some 10 && key.dropLast ≠ [] && key.dropLast.all isAlnum))

def composePathKey (parentPath : Option Text) (key : Text) : Text :=
  match parentPath with
  | none => key
  | some path => path ++ pathSep :: key

def pathPrefixes (path : Text) : List Text :=
  let segments := splitOn pathSep path
  (List.range segments.length).map fun i => joinOn pathSep (segments.take (i + 1))

end Paths

structure BudgetRow where
  id : Uuid
  parent : Option Uuid
  key : Text
  pathKey : Text
  viewGremium : Option Uuid

structure ApplicationRow where
  id : Uuid
  createdBy : Option Text
  budget : Option Uuid
  /-- The deciding Gremium while the application is in a vote state. -/
  voteGremium : Option Uuid

/-- The tables of the access rules with their primary and foreign keys. -/
structure Registry extends Assembly where
  budgets : List BudgetRow
  applications : List ApplicationRow
  budgets_nodup : (budgets.map (·.id)).Nodup
  applications_nodup : (applications.map (·.id)).Nodup
  budget_exists : ∀ a ∈ applications, ∀ id ∈ a.budget, ∃ b ∈ budgets, b.id = id

def PathKeys (budgets : List BudgetRow) : Prop :=
  ∀ b ∈ budgets, isValidKey b.key = true ∧
    match b.parent with
    | none => b.pathKey = composePathKey none b.key
    | some parent => ∃ a ∈ budgets, a.id = parent ∧ b.pathKey = composePathKey (some a.pathKey) b.key

section Single

variable (s : Registry)

def Registry.application (id : Uuid) : Option ApplicationRow := s.applications.find? (·.id = id)

def Registry.node (id : Uuid) : Option BudgetRow := s.budgets.find? (·.id = id)

def pathViews (path : Text) : List Uuid :=
  (s.budgets.filter fun b => (pathPrefixes path).contains b.pathKey).filterMap (·.viewGremium)

def canViewNode (budget : Uuid) (gremien : List Uuid) : Except Problem Bool :=
  if gremien.isEmpty then .ok false
  else match s.node budget with
    | none => .error (.notFound (text "budget " ++ Uuid.text budget ++ text " not found"))
    | some node => .ok ((pathViews s node.pathKey).any gremien.contains)

def votedGremien (application : Uuid) : List Uuid :=
  (s.votes.filter (·.application = some application)).filterMap fun v =>
    (v.meeting.bind s.meetingRow).map (·.gremium)

def committeeCanRead (application : Uuid) (p : Principal) : Except Problem Bool := do
  let gremien := gremiumReaderIds s.people p.sub
  if gremien.isEmpty then return false
  let row := s.application application
  if (row.bind (·.voteGremium)).any gremien.contains then return true
  match row.bind (·.budget) with
  | some budget => if ← canViewNode s budget gremien then return true
  | none => pure ()
  return (votedGremien s application).any gremien.contains

def committeeGremiumIds (application : Uuid) : List Uuid :=
  match s.application application with
  | none => []
  | some row =>
    let path := (row.budget.bind s.node).map (·.pathKey)
    row.voteGremium.toList ++ (path.elim [] (pathViews s)) ++ votedGremien s application

def isCreator (application : Uuid) (p : Principal) : Bool :=
  ((s.application application).bind (·.createdBy)).any (· = p.sub)

inductive AccessVia where
  | permission
  | applicant
  | owner
  | committee
  deriving DecidableEq

structure Applicant where
  application : Text

structure Access where
  application : Uuid
  principal : Option Principal
  applicant : Option Applicant
  via : AccessVia

def Permission.key : Permission → Text
  | .applicationRead => text "application.read"
  | .applicationReadAll => text "application.read_all"
  | .meetingViewAll => text "meeting.view_all"
  | .sessionManage => text "session.manage"
  | .voteManage => text "vote.manage"
  | .voteCast => text "vote.cast"
  | .other key => key

def resolveAccess (application : Uuid) (principal : Option Principal) (applicant : Option Applicant)
    (perm : Permission) : Except Problem Access :=
  match principal, applicant with
  | some p, _ =>
    if p.has perm then .ok ⟨application, some p, none, .permission⟩
    else .error (.forbidden (text "Missing permission: " ++ perm.key))
  | none, some a =>
    if a.application = Uuid.text application then .ok ⟨application, none, some a, .applicant⟩
    else .error (.forbidden (text "Magic-link does not grant access to this application."))
  | none, none => .error (.unauthorized (text "Authentication required."))

/-- `resolve_app_read`: the committee scope comes before the creator. -/
def resolveAppRead (application : Uuid) (principal : Option Principal) (applicant : Option Applicant) :
    Except Problem Access :=
  if principal.any (·.has .applicationReadAll) then .ok ⟨application, principal, none, .permission⟩
  else match resolveAccess application principal applicant .applicationRead, principal with
    | .error (.forbidden detail), some p => do
        if ← committeeCanRead s application p then return ⟨application, some p, none, .committee⟩
        if isCreator s application p then return ⟨application, some p, none, .owner⟩
        throw (.forbidden detail)
    | result, _ => result

end Single

section List

variable (s : Registry)

/-- `_view_subtrees`: the ids of the cost centers below one of the paths. -/
def viewSubtrees (rootPaths : List Text) (a : ApplicationRow) : Bool :=
  a.budget.any fun id => s.budgets.any fun b => b.id = id &&
    rootPaths.any fun rp => b.pathKey = rp || like (rp ++ [pathSep, 37]) b.pathKey

/-- `_committee_read_clauses`; a row of the list meets one of them. -/
def committeeReadClauses (sub : Text) (a : ApplicationRow) : List Bool :=
  let memberIds := gremiumReaderIds s.people sub
  if memberIds.isEmpty then []
  else
    let rootPaths := (s.budgets.filter fun b => b.viewGremium.any memberIds.contains).map (·.pathKey)
    (if rootPaths.isEmpty then [] else [viewSubtrees s rootPaths a]) ++
      [a.voteGremium.any memberIds.contains,
       s.votes.any fun v => v.application = some a.id &&
        (v.meeting.bind s.meetingRow).any fun m => memberIds.contains m.gremium]

def principalReadsAll (p : Principal) : Bool := p.has .applicationRead || p.has .applicationReadAll

def readScopeFor (p : Principal) : Option (ApplicationRow → Bool) :=
  if principalReadsAll p then none
  else some fun a => (decide (a.createdBy = some p.sub) :: committeeReadClauses s p.sub a).any id

def Listed (p : Principal) (a : ApplicationRow) : Prop := ∀ clause ∈ readScopeFor s p, clause a = true

end List

section PathLemmas

theorem joinOn_cons (sep : ℕ) (s : Text) {rest : List Text} (h : rest ≠ []) :
    joinOn sep (s :: rest) = s ++ sep :: joinOn sep rest := by
  cases rest with
  | nil => exact absurd rfl h
  | cons t rest => rfl

theorem joinOn_cons_head (sep c : ℕ) (part : Text) (parts : List Text) :
    joinOn sep ((c :: part) :: parts) = c :: joinOn sep (part :: parts) := by
  cases parts <;> rfl

theorem mem_pathPrefixes_iff {path rp : Text} : rp ∈ pathPrefixes path ↔
    ∃ i < (splitOn pathSep path).length, joinOn pathSep ((splitOn pathSep path).take (i + 1)) = rp := by
  simp [pathPrefixes]

theorem mem_pathPrefixes (path rp : Text) : rp ∈ pathPrefixes path ↔ rp = path ∨ rp ++ [pathSep] <+: path := by
  induction path generalizing rp with
  | nil =>
    have hnil : rp ++ [pathSep] <+: [] ↔ False := by simp
    rw [hnil, or_false]
    simp [pathPrefixes, splitOn, joinOn]
  | cons c rest ih =>
    by_cases hc : c = pathSep
    · -- a separator in front: the empty first segment, or a prefix of the rest behind it
      have hsplit : splitOn pathSep (c :: rest) = [] :: splitOn pathSep rest := by rw [splitOn, if_pos hc]
      have hstep : rp ∈ pathPrefixes (c :: rest) ↔ rp = [] ∨ ∃ q ∈ pathPrefixes rest, rp = c :: q := by
        rw [mem_pathPrefixes_iff, hsplit]
        constructor
        · rintro ⟨i, hi, rfl⟩
          cases i with
          | zero => exact .inl rfl
          | succ i =>
            rw [length_cons, Nat.succ_lt_succ_iff] at hi
            refine .inr ⟨_, mem_pathPrefixes_iff.mpr ⟨i, hi, rfl⟩, ?_⟩
            have hne : (splitOn pathSep rest).take (i + 1) ≠ [] := by
              simpa using splitOn_ne_nil pathSep rest
            rw [take_succ_cons, joinOn_cons _ _ hne, hc]
            rfl
        · rintro (rfl | ⟨q, hq, rfl⟩)
          · exact ⟨0, by simp, rfl⟩
          · obtain ⟨i, hi, rfl⟩ := mem_pathPrefixes_iff.mp hq
            refine ⟨i + 1, by simpa using hi, ?_⟩
            have hne : (splitOn pathSep rest).take (i + 1) ≠ [] := by
              simpa using splitOn_ne_nil pathSep rest
            rw [take_succ_cons, joinOn_cons _ _ hne, hc]
            rfl
      rw [hstep]
      cases rp with
      | nil => simp [hc]
      | cons d q =>
        simp only [List.cons.injEq, reduceCtorEq, false_or, cons_append, cons_prefix_cons]
        constructor
        · rintro ⟨q', hq', rfl, rfl⟩
          exact ((ih q).mp hq').imp (fun h => ⟨rfl, h⟩) fun h => ⟨rfl, h⟩
        · rintro (⟨rfl, h⟩ | ⟨rfl, h⟩)
          · exact ⟨q, (ih q).mpr (.inl h), rfl, rfl⟩
          · exact ⟨q, (ih q).mpr (.inr h), rfl, rfl⟩
    · -- any other character stays in front of every prefix of the rest
      obtain ⟨part, parts, hrest⟩ := exists_cons_of_ne_nil (splitOn_ne_nil pathSep rest)
      have hsplit : splitOn pathSep (c :: rest) = (c :: part) :: parts := by rw [splitOn, if_neg hc, hrest]
      have hstep : rp ∈ pathPrefixes (c :: rest) ↔ ∃ q ∈ pathPrefixes rest, rp = c :: q := by
        rw [mem_pathPrefixes_iff, hsplit]
        simp only [mem_pathPrefixes_iff, hrest, take_succ_cons, joinOn_cons_head, length_cons]
        constructor
        · rintro ⟨i, hi, rfl⟩
          exact ⟨_, ⟨i, hi, rfl⟩, rfl⟩
        · rintro ⟨q, ⟨i, hi, rfl⟩, rfl⟩
          exact ⟨i, hi, rfl⟩
      rw [hstep]
      cases rp with
      | nil => simp [Ne.symm hc]
      | cons d q =>
        simp only [List.cons.injEq, cons_append, cons_prefix_cons]
        constructor
        · rintro ⟨q', hq', rfl, rfl⟩
          exact ((ih q).mp hq').imp (fun h => ⟨rfl, h⟩) fun h => ⟨rfl, h⟩
        · rintro (⟨rfl, h⟩ | ⟨rfl, h⟩)
          · exact ⟨q, (ih q).mpr (.inl h), rfl, rfl⟩
          · exact ⟨q, (ih q).mpr (.inr h), rfl, rfl⟩

/-- A character that `LIKE` takes as it is. -/
def Literal (c : ℕ) : Prop := c ≠ 37 ∧ c ≠ 95 ∧ c ≠ 92

theorem like_any (s : Text) : like [37] s = true := by
  rw [like, any_eq_true]
  exact ⟨[], (mem_tails _ _).mpr nil_suffix, rfl⟩

/-- `LIKE 'path-%'` on a literal path is the test for a prefix. -/
theorem like_prefix {path : Text} (h : ∀ c ∈ path, Literal c) (s : Text) :
    like (path ++ [37]) s = true ↔ path <+: s := by
  induction path generalizing s with
  | nil => simpa using like_any s
  | cons c path ih =>
    obtain ⟨h1, h2, h3⟩ := h c mem_cons_self
    have hstep : ∀ s, like (c :: (path ++ [37])) s = match s with
        | [] => false
        | d :: rest => decide (d = c) && like (path ++ [37]) rest := by
      intro s
      rw [like.eq_def]
      split <;> simp_all
    rw [cons_append, hstep]
    cases s with
    | nil => simp
    | cons d rest =>
      rw [Bool.and_eq_true, decide_eq_true_eq, ih fun c' hc' => h c' (mem_cons_of_mem c hc'),
        cons_prefix_cons, eq_comm]

theorem isAlnum_literal {c : ℕ} (h : isAlnum c = true) : Literal c := by
  simp only [isAlnum, isDigit, Bool.or_eq_true, Bool.and_eq_true, decide_eq_true_eq] at h
  unfold Literal
  omega

theorem isValidKey_literal {key : Text} (h : isValidKey key = true) : ∀ c ∈ key, Literal c := by
  simp only [isValidKey, Bool.and_eq_true, Bool.or_eq_true, all_eq_true, decide_eq_true_eq] at h
  rcases h.2 with ⟨-, hall⟩ | ⟨⟨hlast, -⟩, hall⟩
  · exact fun c hc => isAlnum_literal (hall c hc)
  · intro c hc
    rw [← dropLast_append_getLast? 10 hlast, mem_append] at hc
    rcases hc with hc | hc
    · exact isAlnum_literal (hall c hc)
    · rw [mem_singleton.mp hc]
      exact ⟨by decide, by decide, by decide⟩

variable {budgets : List BudgetRow}

/-- No path key holds a character that `LIKE` reads as a pattern. The path of the
parent is shorter, so the induction is on the length of the path. -/
theorem pathKeys_literal (h : PathKeys budgets) : ∀ b ∈ budgets, ∀ c ∈ b.pathKey, Literal c := by
  suffices hlen : ∀ n, ∀ b ∈ budgets, b.pathKey.length < n → ∀ c ∈ b.pathKey, Literal c from
    fun b hb => hlen _ b hb (Nat.lt_succ_self _)
  intro n
  induction n with
  | zero => exact fun b _ hlt => absurd hlt (Nat.not_lt_zero _)
  | succ n ih =>
    intro b hb hlt c hc
    obtain ⟨hkey, hpath⟩ := h b hb
    have hliteral := isValidKey_literal hkey
    cases hparent : b.parent with
    | none =>
      rw [hparent] at hpath
      exact hliteral c (by simpa only [hpath, composePathKey] using hc)
    | some parent =>
      rw [hparent] at hpath
      obtain ⟨a, ha, -, hpath⟩ := hpath
      rw [composePathKey] at hpath
      rw [hpath, length_append, length_cons] at hlt
      rw [hpath, mem_append, mem_cons] at hc
      rcases hc with hc | rfl | hc
      · exact ih a ha (by omega) c hc
      · exact ⟨by decide, by decide, by decide⟩
      · exact hliteral c hc

theorem subtree_iff_start (h : PathKeys budgets) {root : BudgetRow} (hroot : root ∈ budgets) (path : Text) :
    (path = root.pathKey ∨ like (root.pathKey ++ [pathSep, 37]) path = true) ↔ root.pathKey ∈ pathPrefixes path := by
  have hliteral : ∀ c ∈ root.pathKey ++ [pathSep], Literal c := by
    intro c hc
    rcases mem_append.mp hc with hc | hc
    · exact pathKeys_literal h root hroot c hc
    · rw [mem_singleton.mp hc]
      exact ⟨by decide, by decide, by decide⟩
  have hlike := like_prefix hliteral path
  rw [append_assoc, singleton_append] at hlike
  rw [hlike, mem_pathPrefixes, eq_comm]

end PathLemmas

section Agreement

variable {s : Registry} {a : ApplicationRow} {p : Principal}

def ReadsFor (s : Registry) (a : ApplicationRow) (g : Uuid) : Prop :=
  a.voteGremium = some g ∨ (∃ b ∈ s.budgets, a.budget = some b.id ∧ g ∈ pathViews s b.pathKey) ∨
    g ∈ votedGremien s a.id

theorem application_of_mem (ha : a ∈ s.applications) : s.application a.id = some a :=
  Table.find_of_mem s.applications_nodup ha rfl

theorem node_of_mem {b : BudgetRow} (hb : b ∈ s.budgets) : s.node b.id = some b :=
  Table.find_of_mem s.budgets_nodup hb rfl

theorem budget_cases (ha : a ∈ s.applications) :
    a.budget = none ∨ ∃ b ∈ s.budgets, a.budget = some b.id ∧ s.node b.id = some b := by
  cases hbudget : a.budget with
  | none => exact .inl rfl
  | some id =>
    obtain ⟨b, hb, rfl⟩ := s.budget_exists a ha id hbudget
    exact .inr ⟨b, hb, rfl, node_of_mem hb⟩

theorem viewsOf_iff {b : BudgetRow} (hb : b ∈ s.budgets) (hbudget : a.budget = some b.id)
    {g : Uuid} : (∃ b' ∈ s.budgets, a.budget = some b'.id ∧ g ∈ pathViews s b'.pathKey) ↔ g ∈ pathViews s b.pathKey := by
  constructor
  · rintro ⟨b', hb', hid, hg⟩
    have hsame : b' = b := by
      have hnode := node_of_mem hb'
      rw [← Option.some_inj.mp (hbudget.symm.trans hid), node_of_mem hb] at hnode
      exact (Option.some_inj.mp hnode).symm
    exact hsame ▸ hg
  · exact fun hg => ⟨b, hb, hbudget, hg⟩

theorem committeeGremiumIds_iff (ha : a ∈ s.applications) {g : Uuid} :
    g ∈ committeeGremiumIds s a.id ↔ ReadsFor s a g := by
  simp only [committeeGremiumIds, application_of_mem ha, ReadsFor]
  rcases budget_cases ha with hbudget | ⟨b, hb, hbudget, hnode⟩
  · simp [hbudget]
  · rw [viewsOf_iff hb hbudget]
    simp [hbudget, hnode]

theorem committeeCanRead_eq (ha : a ∈ s.applications) : committeeCanRead s a.id p =
    .ok ((committeeGremiumIds s a.id).any (gremiumReaderIds s.people p.sub).contains) := by
  simp only [committeeCanRead, committeeGremiumIds, application_of_mem ha, Option.bind_some]
  generalize gremiumReaderIds s.people p.sub = gremien
  by_cases hempty : gremien = []
  · simp [hempty, pure, Except.pure]
  by_cases hvote : a.voteGremium.any gremien.contains = true
  · cases hg : a.voteGremium with
    | none => simp [hg] at hvote
    | some g => simp_all [pure, Except.pure]
  have hnone : a.voteGremium.toList.any gremien.contains = false := by
    cases hg : a.voteGremium with
    | none => rfl
    | some g => simpa [hg] using hvote
  rcases budget_cases ha with hbudget | ⟨b, hb, hbudget, hnode⟩
  · simp [hempty, hvote, hnone, hbudget, pure, Except.pure]
  · by_cases hview : (pathViews s b.pathKey).any gremien.contains = true
    · simp [hempty, hvote, hnone, hbudget, hnode, canViewNode, hview, pure, Except.pure, bind, Except.bind]
    · simp [hempty, hvote, hnone, hbudget, hnode, canViewNode, hview, pure, Except.pure, bind, Except.bind]

theorem committeeCanRead_iff (ha : a ∈ s.applications) :
    committeeCanRead s a.id p = .ok true ↔ ∃ g ∈ gremiumReaderIds s.people p.sub, ReadsFor s a g := by
  rw [committeeCanRead_eq ha, Except.ok.injEq, any_eq_true]
  constructor
  · rintro ⟨g, hg, hmem⟩
    exact ⟨g, contains_iff_mem.mp hmem, (committeeGremiumIds_iff ha).mp hg⟩
  · rintro ⟨g, hmem, hg⟩
    exact ⟨g, (committeeGremiumIds_iff ha).mpr hg, contains_iff_mem.mpr hmem⟩

theorem mem_pathViews {path : Text} {g : Uuid} : g ∈ pathViews s path ↔
    ∃ root ∈ s.budgets, root.viewGremium = some g ∧ root.pathKey ∈ pathPrefixes path := by
  simp only [pathViews, mem_filterMap, mem_filter, contains_iff_mem]
  exact ⟨fun ⟨r, ⟨hr, hpath⟩, hg⟩ => ⟨r, hr, hg, hpath⟩, fun ⟨r, hr, hg, hpath⟩ => ⟨r, ⟨hr, hpath⟩, hg⟩⟩

theorem viewSubtrees_iff (h : PathKeys s.budgets) (gremien : List Uuid) :
    viewSubtrees s ((s.budgets.filter fun b => b.viewGremium.any gremien.contains).map (·.pathKey)) a = true ↔
      ∃ g ∈ gremien, ∃ b ∈ s.budgets, a.budget = some b.id ∧ g ∈ pathViews s b.pathKey := by
  simp only [viewSubtrees, Option.any_eq_true, any_eq_true, Bool.and_eq_true, Bool.or_eq_true,
    decide_eq_true_eq, mem_map, mem_filter, contains_iff_mem, mem_pathViews]
  constructor
  · rintro ⟨id, hid, b, hb, hbid, rp, ⟨root, ⟨hroot, g, hview, hg⟩, rfl⟩, hpath⟩
    exact ⟨g, hg, b, hb, hbid ▸ hid, root, hroot, hview, (subtree_iff_start h hroot b.pathKey).mp hpath⟩
  · rintro ⟨g, hg, b, hb, hid, root, hroot, hview, hpath⟩
    exact ⟨b.id, hid, b, hb, rfl, root.pathKey, ⟨root, ⟨hroot, g, hview, hg⟩, rfl⟩,
      (subtree_iff_start h hroot b.pathKey).mpr hpath⟩

theorem mem_votedGremien {application g : Uuid} : g ∈ votedGremien s application ↔
    ∃ v ∈ s.votes, v.application = some application ∧ ∃ m, v.meeting.bind s.meetingRow = some m ∧ m.gremium = g := by
  simp only [votedGremien, mem_filterMap, mem_filter, decide_eq_true_eq, Option.map_eq_some_iff, and_assoc]

theorem committeeReadClauses_iff (h : PathKeys s.budgets) (sub : Text) :
    (committeeReadClauses s sub a).any id = true ↔ ∃ g ∈ gremiumReaderIds s.people sub, ReadsFor s a g := by
  unfold committeeReadClauses ReadsFor
  generalize gremiumReaderIds s.people sub = gremien
  by_cases hempty : gremien = []
  · simp [hempty]
  have hroots : (if ((s.budgets.filter fun b => b.viewGremium.any gremien.contains).map (·.pathKey)).isEmpty then []
      else [viewSubtrees s ((s.budgets.filter fun b => b.viewGremium.any gremien.contains).map (·.pathKey)) a]).any id =
        true ↔ ∃ g ∈ gremien, ∃ b ∈ s.budgets, a.budget = some b.id ∧ g ∈ pathViews s b.pathKey := by
    rw [← viewSubtrees_iff h]
    split
    next hnone => cases hbudget : a.budget <;> simp [isEmpty_iff.mp hnone, viewSubtrees, hbudget]
    next => simp
  have hvoted : (s.votes.any fun v => decide (v.application = some a.id) &&
      (v.meeting.bind s.meetingRow).any fun m => gremien.contains m.gremium) = true ↔
        ∃ g ∈ gremien, g ∈ votedGremien s a.id := by
    simp only [any_eq_true, Bool.and_eq_true, decide_eq_true_eq, Option.any_eq_true, contains_iff_mem,
      mem_votedGremien]
    constructor
    · rintro ⟨v, hv, happ, m, hm, hg⟩
      exact ⟨m.gremium, hg, v, hv, happ, m, hm, rfl⟩
    · rintro ⟨g, hg, v, hv, happ, m, hm, rfl⟩
      exact ⟨v, hv, happ, m, hm, hg⟩
  have hvote : a.voteGremium.any gremien.contains = true ↔ ∃ g ∈ gremien, a.voteGremium = some g := by
    simp only [Option.any_eq_true, contains_iff_mem]
    constructor
    · rintro ⟨g, hg, hmem⟩
      exact ⟨g, hmem, hg⟩
    · rintro ⟨g, hmem, hg⟩
      exact ⟨g, hg, hmem⟩
  rw [if_neg (by simpa using hempty), any_append, Bool.or_eq_true, hroots]
  simp only [any_cons, any_nil, id, Bool.or_false, Bool.or_eq_true, hvote, hvoted, and_or_left, exists_or]
  exact or_left_comm

theorem resolveAppRead_iff (ha : a ∈ s.applications) :
    (∃ access, resolveAppRead s a.id (some p) none = .ok access) ↔
      principalReadsAll p = true ∨ committeeCanRead s a.id p = .ok true ∨ a.createdBy = some p.sub := by
  have hcreator : isCreator s a.id p = true ↔ a.createdBy = some p.sub := by
    cases hby : a.createdBy <;> simp [isCreator, application_of_mem ha, hby]
  unfold resolveAppRead resolveAccess principalReadsAll
  rw [← hcreator]
  by_cases hall : p.has .applicationReadAll = true
  · simp [hall]
  by_cases hread : p.has .applicationRead = true
  · simp [hall, hread]
  by_cases hcommittee : (committeeGremiumIds s a.id).any (gremiumReaderIds s.people p.sub).contains = true
  · simp [hall, hread, committeeCanRead_eq ha, hcommittee, bind, Except.bind, pure, Except.pure]
  · by_cases hown : isCreator s a.id p = true
    · simp [hall, hread, committeeCanRead_eq ha, hcommittee, hown, bind, Except.bind, pure, Except.pure]
    · simp [hall, hread, committeeCanRead_eq ha, hcommittee, hown, bind, Except.bind, throw, throwThe, MonadExceptOf.throw]

theorem listed_iff : Listed s p a ↔
    principalReadsAll p = true ∨ a.createdBy = some p.sub ∨ (committeeReadClauses s p.sub a).any id = true := by
  unfold Listed readScopeFor
  by_cases hall : principalReadsAll p = true
  · simp [hall]
  · simp [hall]

/-- The check of one application, the list and the set of the reading Gremien agree. -/
theorem applicationAccess_agrees (s : Registry) (h : PathKeys s.budgets) (p : Principal) (a : ApplicationRow)
    (ha : a ∈ s.applications) :
    ((∃ access, resolveAppRead s a.id (some p) none = .ok access) ↔ Listed s p a) ∧
    ∀ g : Uuid, (∀ g', g' ∈ gremiumReaderIds s.people p.sub ↔ g' = g) →
      (g ∈ committeeGremiumIds s a.id ↔ committeeCanRead s a.id p = .ok true) := by
  constructor
  · rw [resolveAppRead_iff ha, listed_iff, committeeReadClauses_iff h, committeeCanRead_iff ha]
    exact or_congr_right or_comm
  · intro g honly
    rw [committeeGremiumIds_iff ha, committeeCanRead_iff ha]
    simp [honly]

/-- A cost center of the board with one below it, and an application in the lower one. -/
def boardRegistry : Registry where
  toAssembly := boardAssembly (Uuid.text boardId)
  budgets := [⟨10, none, text "VS", text "VS", some boardId⟩, ⟨11, some 10, text "800", text "VS-800", none⟩]
  applications := [⟨20, none, some 11, none⟩]
  budgets_nodup := by decide
  applications_nodup := by decide
  budget_exists := by simp

/-- The chair is a member of the board only: the application is listed and opens. -/
theorem chair_reads_subtree :
    Listed boardRegistry (requestPrincipal chairPeople chairRow none) ⟨20, none, some 11, none⟩ ∧
      boardId ∈ committeeGremiumIds boardRegistry 20 := by
  have hkeys : PathKeys boardRegistry.budgets := by
    intro b hb
    rcases mem_pair.mp hb with rfl | rfl
    · exact ⟨by decide, rfl⟩
    · exact ⟨by decide, ⟨10, none, text "VS", text "VS", some boardId⟩, mem_cons_self, rfl, rfl⟩
  have hmem : (⟨20, none, some 11, none⟩ : ApplicationRow) ∈ boardRegistry.applications := mem_singleton.mpr rfl
  have honly : ∀ g', g' ∈ gremiumReaderIds chairPeople (text "chair") ↔ g' = boardId := by
    have hids : gremiumReaderIds chairPeople (text "chair") = [boardId] := by decide +kernel
    simp [hids]
  have hread : committeeCanRead boardRegistry 20 (requestPrincipal chairPeople chairRow none) = .ok true := by
    decide +kernel
  have h := applicationAccess_agrees boardRegistry hkeys (requestPrincipal chairPeople chairRow none) _ hmem
  exact ⟨h.1.mp ((resolveAppRead_iff hmem).mpr (.inr (.inl hread))), (h.2 boardId honly).mpr hread⟩

end Agreement

end Auth
