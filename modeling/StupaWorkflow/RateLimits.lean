import Mathlib.Data.List.Perm.Subperm
import Mathlib.Data.List.TakeWhile
import Mathlib.Tactic.Linarith
import StupaWorkflow.Runs

/-!
The sliding-window rate limit of one key. The workers share a sorted set in Redis: a hit trims it,
adds itself, counts and renews the expiry in one transaction; a blocked hit removes its entry again.
-/
namespace RateLimit
open List

/-- Seconds of the wall clock. -/
abbrev Time := ℚ

section Limiters

/-- The sorted set as members with their scores in the order of the scores, and its expiry. -/
structure Redis where
  members : List (ℕ × Time) := []
  expiresAt : Option Time := none

def Redis.live (s : Redis) (now : Time) : List (ℕ × Time) := if s.expiresAt.any (· < now) then [] else s.members

def Redis.trimmed (s : Redis) (window now : Time) : List (ℕ × Time) :=
  (s.live now).filter fun x => !(decide (0 ≤ x.2) && decide (x.2 ≤ now - window))

/-- The pipeline: the count and the set after it. An expiry that is not positive deletes the key. -/
def Redis.pipeline (s : Redis) (window now : Time) (member : ℕ) : ℕ × Redis :=
  let added := (s.trimmed window now).filter (·.1 ≠ member) ++ [(member, now)]
  (added.length, if window ≤ 0 then {} else ⟨added, some (now + window)⟩)

def Redis.zrem (s : Redis) (member : ℕ) : Redis := { s with members := s.members.filter (·.1 ≠ member) }

/-- `RedisRateLimiter.hit`, without another hit between its two calls. -/
def Redis.hit (s : Redis) (limit : ℕ) (window now : Time) (member : ℕ) : Bool × Redis :=
  let (count, after) := s.pipeline window now member
  if limit < count then (false, after.zrem member) else (true, after)

/-- `InMemoryRateLimiter.hit`. -/
def memoryHit (hits : List Time) (limit : ℕ) (window now : Time) : Bool × List Time :=
  let recent := hits.dropWhile fun t => t ≤ now - window
  if limit ≤ recent.length then (false, recent) else (true, recent ++ [now])

def Redis.decisions (limit : ℕ) (window : Time) : Redis → ℕ → List Time → List Bool
  | _, _, [] => []
  | s, member, now :: times =>
    (s.hit limit window now member).1 :: decisions limit window (s.hit limit window now member).2 (member + 1) times

def memoryDecisions (limit : ℕ) (window : Time) : List Time → List Time → List Bool
  | _, [] => []
  | hits, now :: times =>
    (memoryHit hits limit window now).1 :: memoryDecisions limit window (memoryHit hits limit window now).2 times

end Limiters

section Workers

/-- The set with the clock, the next member, the blocked hits whose entry is still to be removed, and
the allowed hits. -/
structure Sys where
  redis : Redis := {}
  clock : Time := 0
  next : ℕ := 0
  blocked : List ℕ := []
  allowed : List (ℕ × Time) := []

inductive Event where
  | hit (now : Time)
  | remove (member : ℕ)

def step (limit : ℕ) (window : Time) : Event → Sys → Option Sys
  | .hit now, s =>
    let (count, redis) := s.redis.pipeline window now s.next
    let s' := { s with redis, clock := now, next := s.next + 1 }
    if now < s.clock then none
    else if limit < count then some { s' with blocked := s.next :: s.blocked }
    else some { s' with allowed := s.allowed ++ [(s.next, now)] }
  | .remove member, s =>
    if member ∈ s.blocked then some { s with redis := s.redis.zrem member, blocked := s.blocked.erase member } else none

def Narrow (window : Time) (p : Time → Bool) : Prop := ∀ t u, p t = true → p u = true → u < t + window

/-- An allowed hit stays in the set as long as it counts. -/
structure Inv (limit : ℕ) (window : Time) (s : Sys) : Prop where
  past : ∀ x ∈ s.allowed, x.2 ≤ s.clock
  nodup : s.allowed.Nodup
  fresh : ∀ x ∈ s.allowed, x.1 < s.next
  drawn : ∀ m ∈ s.blocked, m < s.next
  apart : ∀ x ∈ s.allowed, x.1 ∉ s.blocked
  kept : ∀ x ∈ s.allowed, s.clock < x.2 + window → x ∈ s.redis.members ∧ ∀ e ∈ s.redis.expiresAt, x.2 + window ≤ e
  bound : ∀ p, Narrow window p → (s.allowed.filter fun x => p x.2).length ≤ limit

variable {limit : ℕ} {window now : Time} {s s' : Sys} {x : ℕ × Time}

theorem Inv.trimmed (h : Inv limit window s) (hx : x ∈ s.allowed) (hclock : s.clock ≤ now) (hnow : now < x.2 + window) :
    x ∈ s.redis.trimmed window now := by
  obtain ⟨hmem, hexpires⟩ := h.kept x hx (hclock.trans_lt hnow)
  have hlive : s.redis.expiresAt.any (· < now) = false := by
    cases he : s.redis.expiresAt with
    | none => rfl
    | some e => exact decide_eq_false (not_lt.mpr (hnow.le.trans (hexpires e he)))
  rw [Redis.trimmed, Redis.live, hlive, mem_filter]
  exact ⟨hmem, by simp [show ¬ x.2 ≤ now - window by linarith]⟩

/-- The entries of the hits that count stand in the set of the pipeline before the new one. -/
theorem Inv.counted (h : Inv limit window s) (hx : x ∈ s.allowed) (hclock : s.clock ≤ now) (hnow : now < x.2 + window) :
    x ∈ (s.redis.trimmed window now).filter (·.1 ≠ s.next) :=
  mem_filter.mpr ⟨h.trimmed hx hclock hnow, decide_eq_true (h.fresh x hx).ne⟩

theorem Inv.renewed (h : Inv limit window s) (hx : x ∈ s.allowed) (hclock : s.clock ≤ now) (hnow : now < x.2 + window) :
    x ∈ (s.redis.pipeline window now s.next).2.members ∧
      ∀ e ∈ (s.redis.pipeline window now s.next).2.expiresAt, x.2 + window ≤ e := by
  have hpast := (h.past x hx).trans hclock
  have hwindow : ¬ window ≤ 0 := by
    intro hle
    linarith
  rw [Redis.pipeline]
  simp only [if_neg hwindow, Option.mem_some_iff, forall_eq']
  exact ⟨mem_append_left _ (h.counted hx hclock hnow), by linarith⟩

theorem pipeline_new (s : Redis) (member : ℕ) (hwindow : 0 < window) :
    (member, now) ∈ (s.pipeline window now member).2.members ∧
      ∀ e ∈ (s.pipeline window now member).2.expiresAt, now + window ≤ e := by
  rw [Redis.pipeline]
  simp [if_neg (not_le.mpr hwindow)]

theorem Inv.hit_blocked (h : Inv limit window s) (hclock : s.clock ≤ now) :
    Inv limit window { s with
      redis := (s.redis.pipeline window now s.next).2, clock := now, next := s.next + 1, blocked := s.next :: s.blocked } where
  past x hx := (h.past x hx).trans hclock
  nodup := h.nodup
  fresh x hx := (h.fresh x hx).trans (Nat.lt_succ_self _)
  drawn m hm := by
    rcases mem_cons.mp hm with rfl | hm
    · exact Nat.lt_succ_self _
    · exact (h.drawn m hm).trans (Nat.lt_succ_self _)
  apart x hx hmem := by
    rcases mem_cons.mp hmem with heq | hmem
    · exact (h.fresh x hx).ne heq
    · exact h.apart x hx hmem
  kept x hx hnow := h.renewed hx hclock hnow
  bound := h.bound

theorem Inv.hit_allowed (h : Inv limit window s) (hclock : s.clock ≤ now)
    (hcount : (s.redis.pipeline window now s.next).1 ≤ limit) :
    Inv limit window { s with
      redis := (s.redis.pipeline window now s.next).2, clock := now, next := s.next + 1,
      allowed := s.allowed ++ [(s.next, now)] } := by
  have hnew : (s.next, now) ∉ s.allowed := fun hmem => (h.fresh _ hmem).ne rfl
  have hnodup : (s.allowed ++ [(s.next, now)]).Nodup := by
    rw [nodup_append]
    refine ⟨h.nodup, by simp, fun x hx y hy heq => hnew ?_⟩
    rwa [← mem_singleton.mp hy, ← heq]
  refine ⟨?_, hnodup, ?_, fun m hm => (h.drawn m hm).trans (Nat.lt_succ_self _), ?_, ?_, ?_⟩
  · refine forall_mem_append.mpr ⟨fun x hx => (h.past x hx).trans hclock, ?_⟩
    simp
  · refine forall_mem_append.mpr ⟨fun x hx => (h.fresh x hx).trans (Nat.lt_succ_self _), ?_⟩
    simp
  · refine forall_mem_append.mpr ⟨h.apart, ?_⟩
    simpa using fun hmem => (h.drawn _ hmem).ne rfl
  · refine forall_mem_append.mpr ⟨fun x hx hnow => h.renewed hx hclock hnow, ?_⟩
    simp only [mem_singleton, forall_eq]
    exact fun hnow => pipeline_new s.redis s.next (by linarith)
  · intro p hp
    cases hpnow : p now with
    | false => simpa [filter_append, hpnow] using h.bound p hp
    | true =>
      -- the hits in the window of the new one stand in the set that it counted
      have hsub : (s.allowed ++ [(s.next, now)]).filter (fun x => p x.2) ⊆
          (s.redis.trimmed window now).filter (·.1 ≠ s.next) ++ [(s.next, now)] := by
        intro x hx
        obtain ⟨hx, hpx⟩ := mem_filter.mp hx
        rcases mem_append.mp hx with hold | hlast
        · exact mem_append_left _ (h.counted hold hclock (hp x.2 now hpx hpnow))
        · exact mem_append_right _ hlast
      exact (List.Nodup.subperm (hnodup.filter _) hsub).length_le.trans hcount

theorem Inv.remove (h : Inv limit window s) {member : ℕ} (hm : member ∈ s.blocked) :
    Inv limit window { s with redis := s.redis.zrem member, blocked := s.blocked.erase member } where
  past := h.past
  nodup := h.nodup
  fresh := h.fresh
  drawn m hmem := h.drawn m (mem_of_mem_erase hmem)
  apart x hx hmem := h.apart x hx (mem_of_mem_erase hmem)
  kept x hx hnow := by
    obtain ⟨hmem, hexpires⟩ := h.kept x hx hnow
    exact ⟨mem_filter.mpr ⟨hmem, decide_eq_true fun heq => h.apart x hx (heq ▸ hm)⟩, hexpires⟩
  bound := h.bound

theorem inv_step {e : Event} (h : Inv limit window s) (hstep : step limit window e s = some s') : Inv limit window s' := by
  cases e with
  | hit now =>
    simp only [step] at hstep
    split at hstep
    · cases hstep
    · next hclock =>
        split at hstep
        · cases hstep
          exact h.hit_blocked (not_lt.mp hclock)
        · next hcount =>
            cases hstep
            exact h.hit_allowed (not_lt.mp hclock) (not_lt.mp hcount)
  | remove member =>
    simp only [step] at hstep
    split at hstep
    · next hm =>
        cases hstep
        exact h.remove hm
    · cases hstep

theorem inv_start : Inv limit window {} := by
  constructor <;> simp

end Workers

section Sequential

variable {window clock now : Time} {s : Redis} {hits : List Time} {member : ℕ}

/-- Between two calls both limiters hold the same times, or none of them counts any more. -/
structure Agrees (window clock : Time) (s : Redis) (member : ℕ) (hits : List Time) : Prop where
  scores : s.members.map Prod.snd = hits ∨ window ≤ 0 ∧ s.members = []
  sorted : hits.Pairwise (· ≤ ·)
  past : ∀ t ∈ hits, 0 ≤ t ∧ t ≤ clock
  expires : ∀ e ∈ s.expiresAt, ∀ t ∈ hits, t + window ≤ e
  fresh : ∀ x ∈ s.members, x.1 < member

theorem dropWhile_eq_filter (h : hits.Pairwise (· ≤ ·)) (bound : Time) :
    hits.dropWhile (fun t => t ≤ bound) = hits.filter fun t => !decide (t ≤ bound) := by
  induction hits with
  | nil => rfl
  | cons t hits ih =>
    obtain ⟨hle, hrest⟩ := pairwise_cons.mp h
    by_cases ht : t ≤ bound
    · simp [ht, ih hrest]
    · rw [dropWhile_cons_of_neg (by simpa using ht)]
      refine (filter_eq_self.mpr fun u hu => ?_).symm
      rcases mem_cons.mp hu with rfl | hu
      · simpa using ht
      · simpa using (not_le.mp ht).trans_le (hle u hu)

theorem dropWhile_all {bound : Time} (hall : ∀ t ∈ hits, t ≤ bound) : hits.dropWhile (fun t => t ≤ bound) = [] := by
  rw [dropWhile_eq_nil_iff]
  simpa using hall

theorem Agrees.recent (h : Agrees window clock s member hits) (hnow : clock ≤ now) :
    (s.trimmed window now).map Prod.snd = hits.dropWhile fun t => t ≤ now - window := by
  rw [Redis.trimmed, Redis.live]
  split
  · next hexpired =>
      obtain ⟨e, he, hlt⟩ : ∃ e ∈ s.expiresAt, e < now := by simpa [Option.any_eq_true] using hexpired
      rw [dropWhile_all fun t ht => by linarith [h.expires e he t ht]]
      rfl
  · rcases h.scores with hscores | ⟨hwindow, hnone⟩
    · rw [dropWhile_eq_filter h.sorted, ← hscores, filter_map]
      refine congrArg (List.map Prod.snd) (filter_congr fun x hx => ?_)
      have hpos := (h.past x.2 (hscores ▸ mem_map_of_mem hx)).1
      simp [hpos]
    · rw [hnone, dropWhile_all fun t ht => by linarith [(h.past t ht).2]]
      rfl

/-- The set after a hit, with the entries that it keeps. -/
def renewed (window now : Time) (members : List (ℕ × Time)) : Redis :=
  if window ≤ 0 then {} else ⟨members, some (now + window)⟩

theorem agrees_renewed {members : List (ℕ × Time)} (hsorted : (members.map Prod.snd).Pairwise (· ≤ ·))
    (hpast : ∀ t ∈ members.map Prod.snd, 0 ≤ t ∧ t ≤ now) (hfresh : ∀ x ∈ members, x.1 < member) :
    Agrees window now (renewed window now members) member (members.map Prod.snd) := by
  by_cases hwindow : window ≤ 0
  · rw [renewed, if_pos hwindow]
    exact ⟨.inr ⟨hwindow, rfl⟩, hsorted, hpast, by simp, by simp⟩
  · rw [renewed, if_neg hwindow]
    refine ⟨.inl rfl, hsorted, hpast, ?_, hfresh⟩
    simp only [Option.mem_some_iff, forall_eq']
    exact fun t ht => by linarith [(hpast t ht).2]

theorem Agrees.hit (limit : ℕ) (h : Agrees window clock s member hits) (hclock : 0 ≤ clock) (hnow : clock ≤ now) :
    (s.hit limit window now member).1 = (memoryHit hits limit window now).1 ∧
      Agrees window now (s.hit limit window now member).2 (member + 1) (memoryHit hits limit window now).2 := by
  have hrecent := h.recent hnow
  have hold : ∀ x ∈ s.trimmed window now, x.1 < member := by
    intro x hx
    have hlive := mem_of_mem_filter hx
    unfold Redis.live at hlive
    split at hlive
    · cases hlive
    · exact h.fresh x hlive
  have hsub : ((s.trimmed window now).map Prod.snd).Sublist hits := hrecent ▸ dropWhile_sublist _
  have hsorted := h.sorted.sublist hsub
  have hpast : ∀ t ∈ (s.trimmed window now).map Prod.snd, 0 ≤ t ∧ t ≤ now := fun t ht =>
    ⟨(h.past t (hsub.subset ht)).1, (h.past t (hsub.subset ht)).2.trans hnow⟩
  have hothers : (s.trimmed window now).filter (·.1 ≠ member) = s.trimmed window now :=
    filter_eq_self.mpr fun x hx => decide_eq_true (hold x hx).ne
  have hpipeline : s.pipeline window now member =
      ((s.trimmed window now).length + 1, renewed window now (s.trimmed window now ++ [(member, now)])) := by
    rw [Redis.pipeline, hothers, length_append]
    rfl
  have hremoved : (renewed window now (s.trimmed window now ++ [(member, now)])).zrem member =
      renewed window now (s.trimmed window now) := by
    unfold renewed
    split
    · rfl
    · rw [Redis.zrem, filter_append, hothers]
      simp
  have hhit : s.hit limit window now member =
      if limit < (s.trimmed window now).length + 1 then (false, renewed window now (s.trimmed window now))
      else (true, renewed window now (s.trimmed window now ++ [(member, now)])) := by
    rw [Redis.hit, hpipeline, ← hremoved]
  rw [hhit, memoryHit, ← hrecent, length_map]
  by_cases hblocked : limit ≤ (s.trimmed window now).length
  · rw [if_pos hblocked, if_pos (Nat.lt_succ_of_le hblocked)]
    exact ⟨rfl, agrees_renewed hsorted hpast fun x hx => (hold x hx).trans (Nat.lt_succ_self _)⟩
  · rw [if_neg hblocked, if_neg (by omega)]
    have hscores : (s.trimmed window now).map Prod.snd ++ [now] =
        (s.trimmed window now ++ [(member, now)]).map Prod.snd := by simp
    refine ⟨rfl, hscores ▸ agrees_renewed ?_ ?_ ?_⟩
    · rw [← hscores, pairwise_append]
      exact ⟨hsorted, pairwise_singleton _ _, by simpa using fun t m ht => (hpast t (mem_map_of_mem ht)).2⟩
    · rw [← hscores]
      exact forall_mem_append.mpr ⟨hpast, by simpa using hclock.trans hnow⟩
    · refine forall_mem_append.mpr ⟨fun x hx => (hold x hx).trans (Nat.lt_succ_self _), ?_⟩
      simp

theorem decisions_agree {limit : ℕ} {times : List Time} (h : Agrees window clock s member hits) (hclock : 0 ≤ clock)
    (htimes : (clock :: times).Pairwise (· ≤ ·)) :
    s.decisions limit window member times = memoryDecisions limit window hits times := by
  induction times generalizing s hits clock member with
  | nil => rfl
  | cons now times ih =>
    obtain ⟨hle, hrest⟩ := pairwise_cons.mp htimes
    have hnow := hle now mem_cons_self
    obtain ⟨hsame, hnext⟩ := h.hit limit hclock hnow
    rw [Redis.decisions, memoryDecisions, hsame, ih hnext (hclock.trans hnow) hrest]

end Sequential

/-- The hits that any workers are allowed in a window, and the two limiters on one sequence of hits. -/
theorem window_limited (limit : ℕ) (window : Time) :
    (∀ events s, Runs.run (step limit window) {} events = some s → ∀ a,
      (s.allowed.filter fun x => a ≤ x.2 ∧ x.2 < a + window).length ≤ limit ∧
        (s.allowed.filter fun x => a < x.2 ∧ x.2 ≤ a + window).length ≤ limit) ∧
    ∀ times : List Time, (0 :: times).Pairwise (· ≤ ·) →
      ({} : Redis).decisions limit window 0 times = memoryDecisions limit window [] times := by
  refine ⟨fun events s hrun a => ?_, fun times htimes => ?_⟩
  · have h : Inv limit window s := Runs.run_keeps inv_step inv_start hrun
    refine ⟨h.bound (fun t => a ≤ t ∧ t < a + window) ?_, h.bound (fun t => a < t ∧ t ≤ a + window) ?_⟩
    · intro t u ht hu
      simp only [decide_eq_true_eq] at ht hu
      linarith
    · intro t u ht hu
      simp only [decide_eq_true_eq] at ht hu
      linarith
  · exact decisions_agree ⟨.inl rfl, by simp, by simp, by simp, by simp⟩ (le_refl 0) htimes

end RateLimit
