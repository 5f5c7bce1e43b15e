import Mathlib.Data.List.TakeWhile
import StupaWorkflow.Tables

/-!
Trees kept as rows that carry the path from their root beside the link to their parent. A path
joins the keys of a chain of parents with a separator that no key contains.
-/
namespace PathTree
open List

section Joined

variable {Sym : Type*} {sep : Sym} {a b k l : List Sym}

theorem joined_inj (hk : sep ∉ k) (hl : sep ∉ l) : a ++ sep :: k = b ++ sep :: l ↔ a = b ∧ k = l := by
  constructor
  · intro h
    rcases append_eq_append_iff.mp h with ⟨c, rfl, hc⟩ | ⟨c, rfl, hc⟩
    · cases c with
      | nil => simpa using hc
      | cons x c =>
        have hsep : sep ∈ k := by
          rw [cons_append, List.cons.injEq] at hc
          simp [hc.2]
        exact absurd hsep hk
    · cases c with
      | nil => simpa [eq_comm] using hc
      | cons x c =>
        have hsep : sep ∈ l := by
          rw [cons_append, List.cons.injEq] at hc
          simp [hc.2]
        exact absurd hsep hl
  · rintro ⟨rfl, rfl⟩
    rfl

theorem prefix_joined (hk : sep ∉ k) : a ++ [sep] <+: b ++ sep :: k ↔ a = b ∨ a ++ [sep] <+: b := by
  constructor
  · rintro ⟨t, ht⟩
    rw [append_assoc, singleton_append] at ht
    rcases append_eq_append_iff.mp ht with ⟨c, rfl, hc⟩ | ⟨c, rfl, hc⟩
    · cases c with
      | nil => exact .inl (append_nil a).symm
      | cons x c =>
        rw [cons_append, List.cons.injEq] at hc
        obtain ⟨rfl, _⟩ := hc
        exact .inr ⟨c, by simp⟩
    · cases c with
      | nil => exact .inl (append_nil b)
      | cons x c =>
        rw [cons_append, List.cons.injEq] at hc
        exact absurd (by simp [hc.2]) hk
  · rintro (rfl | ⟨t, rfl⟩)
    · exact ⟨k, by simp⟩
    · exact ⟨t ++ sep :: k, by simp⟩

theorem not_prefix_key (hk : sep ∉ k) : ¬ a ++ [sep] <+: k := by
  rintro ⟨t, rfl⟩
  exact hk (by simp)

theorem first_joined [DecidableEq Sym] (a k : List Sym) :
    (a ++ sep :: k).takeWhile (· ≠ sep) = a.takeWhile (· ≠ sep) := by
  induction a with
  | nil => simp
  | cons x a ih =>
    by_cases hx : x = sep
    · simp [hx]
    · simpa [takeWhile_cons, hx] using ih

theorem first_key [DecidableEq Sym] (hk : sep ∉ k) : k.takeWhile (· ≠ sep) = k := by
  rw [takeWhile_eq_self_iff]
  intro x hx
  exact decide_eq_true fun h => hk (h ▸ hx)

end Joined

variable {Row Id Sym : Type*} {id : Row → Id} {parent : Row → Option Id} {key path : Row → List Sym} {sep : Sym}
  {rows : List Row}

structure Keyed (id : Row → Id) (parent : Row → Option Id) (key path : Row → List Sym) (sep : Sym)
    (rows : List Row) : Prop where
  ids : (rows.map id).Nodup
  plain : ∀ r ∈ rows, sep ∉ key r
  top : ∀ r ∈ rows, parent r = none → path r = key r
  below : ∀ r ∈ rows, ∀ p, parent r = some p → ∃ q ∈ rows, id q = p ∧ path r = path q ++ sep :: key r
  siblings : ∀ r ∈ rows, ∀ s ∈ rows, parent r = parent s → key r = key s → id r = id s

def Child (id : Row → Id) (parent : Row → Option Id) (rows : List Row) (p c : Id) : Prop :=
  ∃ r ∈ rows, id r = c ∧ parent r = some p

/-- The path that the keys along the chain of parents make. -/
inductive Composed (id : Row → Id) (parent : Row → Option Id) (key : Row → List Sym) (sep : Sym) (rows : List Row) :
    Row → List Sym → Prop
  | top {r : Row} : r ∈ rows → parent r = none → Composed id parent key sep rows r (key r)
  | child {r q : Row} {base : List Sym} : r ∈ rows → q ∈ rows → parent r = some (id q) →
      Composed id parent key sep rows q base → Composed id parent key sep rows r (base ++ sep :: key r)

section Reading

theorem Keyed.unique (h : Keyed id parent key path sep rows) {r s : Row} (hr : r ∈ rows) (hs : s ∈ rows)
    (hid : id r = id s) : r = s := inj_on_of_nodup_map h.ids hr hs hid

theorem Keyed.induction (h : Keyed id parent key path sep rows) {P : Row → Prop}
    (htop : ∀ r ∈ rows, parent r = none → P r)
    (hbelow : ∀ r ∈ rows, ∀ q ∈ rows, parent r = some (id q) → path r = path q ++ sep :: key r → P q → P r) :
    ∀ r ∈ rows, P r := by
  intro r hr
  generalize hn : (path r).length = n
  induction n using Nat.strong_induction_on generalizing r with
  | _ n ih =>
    cases hp : parent r with
    | none => exact htop r hr hp
    | some p =>
      obtain ⟨q, hq, rfl, hpath⟩ := h.below r hr p hp
      refine hbelow r hr q hq hp hpath (ih (path q).length ?_ q hq rfl)
      rw [← hn, hpath, length_append, length_cons]
      omega

theorem Keyed.composed (h : Keyed id parent key path sep rows) : ∀ r ∈ rows, Composed id parent key sep rows r (path r) := by
  refine h.induction ?_ ?_
  · intro r hr hp
    rw [h.top r hr hp]
    exact .top hr hp
  · intro r hr q hq hp hpath ih
    rw [hpath]
    exact .child hr hq hp ih

theorem Keyed.composed_iff (h : Keyed id parent key path sep rows) {r : Row} (hr : r ∈ rows) {p : List Sym} :
    Composed id parent key sep rows r p ↔ p = path r := by
  constructor
  · intro hc
    induction hc with
    | top hr hp => exact (h.top _ hr hp).symm
    | child hr hq hp _ ih =>
      obtain ⟨q', hq', hid, hpath⟩ := h.below _ hr _ hp
      rw [h.unique hq' hq hid] at hpath
      rw [hpath, ih hq]
  · rintro rfl
    exact h.composed r hr

theorem Keyed.path_inj (h : Keyed id parent key path sep rows) :
    ∀ r ∈ rows, ∀ s ∈ rows, path r = path s → r = s := by
  refine h.induction ?_ ?_
  · intro r hr hp s hs hpath
    rw [h.top r hr hp] at hpath
    cases hps : parent s with
    | none =>
      rw [h.top s hs hps] at hpath
      exact h.unique hr hs (h.siblings r hr s hs (hp.trans hps.symm) hpath)
    | some p =>
      obtain ⟨q, _, _, hq⟩ := h.below s hs p hps
      exact absurd (hpath ▸ hq ▸ by simp) (h.plain r hr)
  · intro r hr q hq hp hrpath ih s hs hpath
    rw [hrpath] at hpath
    cases hps : parent s with
    | none =>
      rw [h.top s hs hps] at hpath
      exact absurd (hpath ▸ by simp) (h.plain s hs)
    | some p =>
      obtain ⟨q', hq', rfl, hspath⟩ := h.below s hs p hps
      rw [hspath] at hpath
      obtain ⟨hparents, hkeys⟩ := (joined_inj (h.plain r hr) (h.plain s hs)).mp hpath
      have hqq := ih q' hq' hparents
      exact h.unique hr hs (h.siblings r hr s hs (by rw [hp, hps, hqq]) hkeys)

theorem Keyed.path_eq (h : Keyed id parent key path sep rows) {g : Row → Row}
    (h' : Keyed id parent key path sep (rows.map g)) (hid : ∀ r ∈ rows, id (g r) = id r)
    (hparent : ∀ r ∈ rows, parent (g r) = parent r) (hkey : ∀ r ∈ rows, key (g r) = key r) :
    ∀ r ∈ rows, path (g r) = path r := by
  refine h.induction ?_ ?_
  · intro r hr hp
    rw [h'.top (g r) (mem_map_of_mem hr) ((hparent r hr).trans hp), hkey r hr, h.top r hr hp]
  · intro r hr q hq hp hpath ih
    obtain ⟨q', hq', hid', hpath'⟩ := h'.below (g r) (mem_map_of_mem hr) (id q) ((hparent r hr).trans hp)
    have hsame : q' = g q := h'.unique hq' (mem_map_of_mem hq) (hid'.trans (hid q hq).symm)
    rw [hpath', hpath, hsame, ih, hkey r hr]

theorem Keyed.prefix_iff (h : Keyed id parent key path sep rows) {a : Row} (ha : a ∈ rows) :
    ∀ b ∈ rows, path a ++ [sep] <+: path b ↔ Relation.TransGen (Child id parent rows) (id a) (id b) := by
  refine h.induction ?_ ?_
  · intro b hb hp
    rw [h.top b hb hp]
    refine iff_of_false (not_prefix_key (h.plain b hb)) fun hanc => ?_
    obtain ⟨c, _, b', hb', hid, hpar⟩ := Relation.TransGen.tail'_iff.mp hanc
    rw [h.unique hb' hb hid, hp] at hpar
    cases hpar
  · intro b hb q hq hp hpath ih
    rw [hpath, prefix_joined (h.plain b hb)]
    have hchild : Child id parent rows (id q) (id b) := ⟨b, hb, rfl, hp⟩
    constructor
    · rintro (heq | hpre)
      · rw [h.path_inj a ha q hq heq]
        exact .single hchild
      · exact (ih.mp hpre).tail hchild
    · intro hanc
      obtain ⟨c, hac, b', hb', hid, hpar⟩ := Relation.TransGen.tail'_iff.mp hanc
      rw [h.unique hb' hb hid, hp, Option.some.injEq] at hpar
      rw [← hpar] at hac
      rcases Relation.reflTransGen_iff_eq_or_transGen.mp hac with heq | hanc
      · exact .inl (congrArg path (h.unique hq ha heq)).symm
      · exact .inr (ih.mpr hanc)

theorem Keyed.self_or_prefix_iff (h : Keyed id parent key path sep rows) {a b : Row} (ha : a ∈ rows) (hb : b ∈ rows) :
    (path a = path b ∨ path a ++ [sep] <+: path b) ↔ Relation.ReflTransGen (Child id parent rows) (id a) (id b) := by
  rw [Relation.reflTransGen_iff_eq_or_transGen, h.prefix_iff ha b hb]
  constructor
  · rintro (heq | hanc)
    · exact .inl (congrArg id (h.path_inj a ha b hb heq)).symm
    · exact .inr hanc
  · rintro (heq | hanc)
    · exact .inl (congrArg path (h.unique hb ha heq)).symm
    · exact .inr hanc

theorem Keyed.root [DecidableEq Sym] (h : Keyed id parent key path sep rows) :
    ∀ r ∈ rows, ∃ t ∈ rows, parent t = none ∧ path t = (path r).takeWhile (· ≠ sep) ∧
      Relation.ReflTransGen (Child id parent rows) (id t) (id r) := by
  refine h.induction ?_ ?_
  · intro r hr hp
    refine ⟨r, hr, hp, ?_, .refl⟩
    rw [h.top r hr hp, first_key (h.plain r hr)]
  · rintro r hr q hq hp hpath ⟨t, ht, htop, htpath, hanc⟩
    refine ⟨t, ht, htop, ?_, hanc.tail ⟨r, hr, rfl, hp⟩⟩
    rw [htpath, hpath, first_joined]

theorem Keyed.root_path [DecidableEq Sym] (h : Keyed id parent key path sep rows) {t : Row} (ht : t ∈ rows)
    (htop : parent t = none) : ∀ r ∈ rows, Relation.ReflTransGen (Child id parent rows) (id t) (id r) →
      path t = (path r).takeWhile (· ≠ sep) := by
  have hself : path t = (path t).takeWhile (· ≠ sep) := by
    rw [h.top t ht htop, first_key (h.plain t ht)]
  refine h.induction ?_ ?_
  · intro r hr hp hanc
    rcases Relation.ReflTransGen.cases_tail hanc with heq | ⟨c, _, r', hr', hid, hpar⟩
    · rw [h.unique hr ht heq]
      exact hself
    · rw [h.unique hr' hr hid, hp] at hpar
      cases hpar
  · intro r hr q hq hp hpath ih hanc
    rcases Relation.ReflTransGen.cases_tail hanc with heq | ⟨c, hc, r', hr', hid, hpar⟩
    · rw [h.unique hr ht heq]
      exact hself
    · rw [h.unique hr' hr hid, hp, Option.some.injEq] at hpar
      rw [hpath, first_joined]
      exact ih (hpar ▸ hc)

theorem Keyed.acyclic (h : Keyed id parent key path sep rows) {r : Row} (hr : r ∈ rows) :
    ¬ Relation.TransGen (Child id parent rows) (id r) (id r) := by
  rw [← h.prefix_iff hr r hr]
  rintro ⟨t, ht⟩
  have := congrArg List.length ht
  simp only [length_append, length_singleton] at this
  omega

end Reading

section Reach

variable {rows' : List Row} {a b : Id}

theorem reach_mono (h : ∀ r ∈ rows, ∃ r' ∈ rows', id r' = id r ∧ parent r' = parent r)
    (hanc : Relation.ReflTransGen (Child id parent rows) a b) : Relation.ReflTransGen (Child id parent rows') a b := by
  refine Relation.ReflTransGen.mono ?_ a b hanc
  rintro p c ⟨r, hr, hid, hp⟩
  obtain ⟨r', hr', hid', hp'⟩ := h r hr
  exact ⟨r', hr', hid'.trans hid, hp'.trans hp⟩

theorem reach_without [DecidableEq Id] {k : Id} (hleaf : ∀ r ∈ rows, parent r ≠ some k)
    (hanc : Relation.ReflTransGen (Child id parent rows) a b) (hb : b ≠ k) :
    a ≠ k ∧ Relation.ReflTransGen (Child id parent (rows.filter fun r => id r ≠ k)) a b := by
  induction hanc with
  | refl => exact ⟨hb, .refl⟩
  | tail _ hstep ih =>
    obtain ⟨r, hr, rfl, hp⟩ := hstep
    obtain ⟨ha, hreach⟩ := ih fun heq => hleaf r hr (heq ▸ hp)
    exact ⟨ha, hreach.tail ⟨r, mem_filter.mpr ⟨hr, by simpa using hb⟩, rfl, hp⟩⟩

end Reach

section Writing

variable {row : Row}

/-- A new row under a parent that is there, with a key that no sibling has. -/
theorem Keyed.insert (h : Keyed id parent key path sep rows) (hid : ∀ r ∈ rows, id r ≠ id row) (hkey : sep ∉ key row)
    (htop : parent row = none → path row = key row)
    (hbelow : ∀ p, parent row = some p → ∃ q ∈ rows, id q = p ∧ path row = path q ++ sep :: key row)
    (hsib : ∀ r ∈ rows, parent r = parent row → key r ≠ key row) :
    Keyed id parent key path sep (rows ++ [row]) := by
  have hmem : ∀ {r}, r ∈ rows ++ [row] → r ∈ rows ∨ r = row := by simp
  have hold : ∀ {r}, r ∈ rows → r ∈ rows ++ [row] := mem_append_left _
  constructor
  case ids => exact Table.nodup_insert h.ids hid
  case plain =>
    intro r hr
    rcases hmem hr with hr | rfl
    · exact h.plain r hr
    · exact hkey
  case top =>
    intro r hr
    rcases hmem hr with hr | rfl
    · exact h.top r hr
    · exact htop
  case below =>
    intro r hr p hp
    rcases hmem hr with hr | rfl
    · obtain ⟨q, hq, hqp, hpath⟩ := h.below r hr p hp
      exact ⟨q, hold hq, hqp, hpath⟩
    · obtain ⟨q, hq, hqp, hpath⟩ := hbelow p hp
      exact ⟨q, hold hq, hqp, hpath⟩
  case siblings =>
    intro r hr s hs hp hk
    rcases hmem hr with hr' | rfl <;> rcases hmem hs with hs' | rfl
    · exact h.siblings r hr' s hs' hp hk
    · exact absurd hk (hsib r hr' hp)
    · exact absurd hk.symm (hsib s hs' hp.symm)
    · rfl

theorem Keyed.filter (h : Keyed id parent key path sep rows) {keep : Row → Bool}
    (hkeep : ∀ r ∈ rows, keep r → ∀ q ∈ rows, parent r = some (id q) → keep q) :
    Keyed id parent key path sep (rows.filter keep) where
  ids := h.ids.sublist (List.Sublist.map _ filter_sublist)
  plain r hr := h.plain r (mem_of_mem_filter hr)
  top r hr := h.top r (mem_of_mem_filter hr)
  below r hr p hp := by
    obtain ⟨hr, hkr⟩ := mem_filter.mp hr
    obtain ⟨q, hq, rfl, hpath⟩ := h.below r hr p hp
    exact ⟨q, mem_filter.mpr ⟨hq, hkeep r hr hkr q hq hp⟩, rfl, hpath⟩
  siblings r hr s hs := h.siblings r (mem_of_mem_filter hr) s (mem_of_mem_filter hs)

theorem Keyed.map (h : Keyed id parent key path sep rows) {f : Row → Row} (hid : ∀ r ∈ rows, id (f r) = id r)
    (hparent : ∀ r ∈ rows, parent (f r) = parent r) (hkey : ∀ r ∈ rows, key (f r) = key r)
    (hpath : ∀ r ∈ rows, path (f r) = path r) : Keyed id parent key path sep (rows.map f) where
  ids := by
    have hids : (rows.map f).map id = rows.map id := by
      rw [map_map]
      exact map_congr_left hid
    rw [hids]
    exact h.ids
  plain := forall_mem_map.mpr fun r hr => hkey r hr ▸ h.plain r hr
  top := forall_mem_map.mpr fun r hr hp => by
    rw [hpath r hr, hkey r hr]
    exact h.top r hr (hparent r hr ▸ hp)
  below := forall_mem_map.mpr fun r hr p hp => by
    obtain ⟨q, hq, hqp, hq'⟩ := h.below r hr p (hparent r hr ▸ hp)
    exact ⟨f q, mem_map_of_mem hq, (hid q hq).trans hqp, by rw [hpath r hr, hpath q hq, hkey r hr, hq']⟩
  siblings := forall_mem_map.mpr fun r hr => forall_mem_map.mpr fun s hs hp hk => by
    rw [hid r hr, hid s hs]
    exact h.siblings r hr s hs (by rw [← hparent r hr, ← hparent s hs, hp]) (by rw [← hkey r hr, ← hkey s hs, hk])

def renamed [DecidableEq Sym] (sep : Sym) (old new p : List Sym) : List Sym :=
  if (old ++ [sep]).isPrefixOf p then new ++ p.drop old.length else p

theorem Keyed.rename [DecidableEq Sym] (h : Keyed id parent key path sep rows) (hrow : row ∈ rows) {newKey : List Sym}
    {newPath : List Sym} {f : Row → Row} (hkey : sep ∉ newKey)
    (htop : parent row = none → newPath = newKey)
    (hbelow : ∀ q ∈ rows, parent row = some (id q) → newPath = path q ++ sep :: newKey)
    (hsib : ∀ r ∈ rows, parent r = parent row → key r ≠ newKey)
    (hid : ∀ r ∈ rows, id (f r) = id r) (hparent : ∀ r ∈ rows, parent (f r) = parent r)
    (hself : key (f row) = newKey ∧ path (f row) = newPath)
    (hother : ∀ r ∈ rows, id r ≠ id row → key (f r) = key r ∧ path (f r) = renamed sep (path row) newPath (path r)) :
    Keyed id parent key path sep (rows.map f) := by
  have hcases : ∀ r ∈ rows, r = row ∨ id r ≠ id row := by
    intro r hr
    by_cases heq : id r = id row
    · exact .inl (h.unique hr hrow heq)
    · exact .inr heq
  have hkeys : ∀ r ∈ rows, sep ∉ key (f r) := by
    intro r hr
    rcases hcases r hr with rfl | hne
    · rw [hself.1]
      exact hkey
    · rw [(hother r hr hne).1]
      exact h.plain r hr
  constructor
  case ids =>
    have hids : (rows.map f).map id = rows.map id := by
      rw [map_map]
      exact map_congr_left hid
    rw [hids]
    exact h.ids
  case plain => exact forall_mem_map.mpr hkeys
  case top =>
    refine forall_mem_map.mpr fun r hr hp => ?_
    rw [hparent r hr] at hp
    rcases hcases r hr with rfl | hne
    · rw [hself.1, hself.2]
      exact htop hp
    · obtain ⟨hk, hpath⟩ := hother r hr hne
      have hno : ¬ path row ++ [sep] <+: key r := not_prefix_key (h.plain r hr)
      rw [hk, hpath, h.top r hr hp, renamed, if_neg (by simpa using hno)]
  case below =>
    refine forall_mem_map.mpr fun r hr p hp => ?_
    rw [hparent r hr] at hp
    obtain ⟨q, hq, rfl, hpath⟩ := h.below r hr p hp
    refine ⟨f q, mem_map_of_mem hq, hid q hq, ?_⟩
    rcases hcases r hr with rfl | hne
    · -- the parent of the renamed row is not below it
      have hlonger : ¬ path r ++ [sep] <+: path q := by
        rintro ⟨t, ht⟩
        have := congrArg List.length (hpath.trans (by rw [← ht]))
        simp only [length_append, length_cons] at this
        omega
      have hqne : id q ≠ id r := by
        intro heq
        have := congrArg List.length hpath
        rw [h.unique hq hr heq, length_append, length_cons] at this
        omega
      rw [hself.1, hself.2, (hother q hq hqne).2, renamed, if_neg (by simpa using hlonger)]
      exact hbelow q hq hp
    · obtain ⟨hk, hrpath⟩ := hother r hr hne
      rw [hk, hrpath, hpath]
      have hiff : path row ++ [sep] <+: path q ++ sep :: key r ↔ path row = path q ∨ path row ++ [sep] <+: path q :=
        prefix_joined (h.plain r hr)
      rcases hcases q hq with rfl | hqne
      · rw [hself.2, renamed, if_pos (by simp), drop_left]
      · rw [(hother q hq hqne).2]
        have hq' : path row ≠ path q := fun heq => hqne (congrArg id (h.path_inj row hrow q hq heq)).symm
        by_cases hpre : path row ++ [sep] <+: path q
        · rw [renamed, if_pos (by simpa using hiff.mpr (.inr hpre)), renamed, if_pos (by simpa using hpre)]
          obtain ⟨t, ht⟩ := hpre
          rw [← ht]
          simp
        · have hno : ¬ path row ++ [sep] <+: path q ++ sep :: key r := fun hc => by
            rcases hiff.mp hc with heq | hc
            · exact hq' heq
            · exact hpre hc
          rw [renamed, if_neg (by simpa using hno), renamed, if_neg (by simpa using hpre)]
  case siblings =>
    refine forall_mem_map.mpr fun r hr => forall_mem_map.mpr fun s hs hp hk => ?_
    rw [hparent r hr, hparent s hs] at hp
    rw [hid r hr, hid s hs]
    rcases hcases r hr with rfl | hne <;> rcases hcases s hs with rfl | hne'
    · rfl
    · rw [hself.1, (hother s hs hne').1] at hk
      exact absurd hk.symm (hsib s hs hp.symm)
    · rw [hself.1, (hother r hr hne).1] at hk
      exact absurd hk (hsib r hr hp)
    · rw [(hother r hr hne).1, (hother s hs hne').1] at hk
      exact h.siblings r hr s hs hp hk

end Writing

end PathTree
