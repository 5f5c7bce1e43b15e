import Mathlib.Data.List.MinMax
import Mathlib.Data.List.Nodup
import Mathlib.Data.List.Range

/-!
A table as the list of its rows. A read by key takes the first row with the key;
where the key is unique this is the row that a scan finds.
-/
namespace Table
open List

variable {Row Key : Type*} [DecidableEq Key] {rows : List Row} {key : Row → Key}

theorem of_find {k : Key} {r : Row} (h : rows.find? (fun x => key x = k) = some r) : r ∈ rows ∧ key r = k :=
  ⟨mem_of_find?_eq_some h, by simpa using find?_some h⟩

theorem find_of_mem (hnodup : (rows.map key).Nodup) {r : Row} (hr : r ∈ rows) {k : Key} (hk : key r = k) :
    rows.find? (fun x => key x = k) = some r := by
  cases hfind : rows.find? (fun x => key x = k) with
  | none =>
    have := find?_eq_none.mp hfind r hr
    simp [hk] at this
  | some x =>
    obtain ⟨hx, hkx⟩ := of_find hfind
    rw [inj_on_of_nodup_map hnodup hx hr (hkx.trans hk.symm)]

omit [DecidableEq Key] in
theorem nodup_insert (hnodup : (rows.map key).Nodup) {r : Row} (hfresh : ∀ x ∈ rows, key x ≠ key r) :
    ((rows ++ [r]).map key).Nodup := by
  rw [map_append, map_singleton, nodup_append]
  refine ⟨hnodup, nodup_singleton _, fun k hk j hj => ?_⟩
  obtain ⟨x, hx, rfl⟩ := mem_map.mp hk
  rw [mem_singleton.mp hj]
  exact hfresh x hx

omit [DecidableEq Key] in
theorem nodup_filterMap (hnodup : (rows.map key).Nodup) {g : Row → Option Row} (hg : ∀ r x, g r = some x → key x = key r) :
    ((rows.filterMap g).map key).Nodup := by
  rw [map_filterMap]
  unfold List.Nodup
  rw [pairwise_filterMap]
  refine (pairwise_map.mp hnodup).imp fun {a b} hab i hi j hj => ?_
  obtain ⟨x, hx, rfl⟩ := Option.map_eq_some_iff.mp hi
  obtain ⟨y, hy, rfl⟩ := Option.map_eq_some_iff.mp hj
  rw [hg a x hx, hg b y hy]
  exact hab

theorem filter_key (hnodup : (rows.map key).Nodup) (k : Key) :
    (rows.filter fun r => key r = k) = (rows.find? fun r => key r = k).toList := by
  induction rows with
  | nil => rfl
  | cons r rows ih =>
    rw [map_cons] at hnodup
    obtain ⟨hr, hnodup⟩ := nodup_cons.mp hnodup
    by_cases hk : key r = k
    · rw [filter_cons_of_pos (by simp [hk]), find?_cons_of_pos (by simp [hk]), Option.toList_some,
        filter_eq_nil_iff.mpr]
      intro x hx hxk
      exact hr (hk.trans (of_decide_eq_true hxk).symm ▸ mem_map_of_mem hx)
    · rw [filter_cons_of_neg (by simp [hk]), find?_cons_of_neg (by simp [hk])]
      exact ih hnodup

theorem find_filter_ne (rows : List Row) (key : Row → Key) (k j : Key) :
    (rows.filter fun r => key r ≠ k).find? (fun x => key x = j) =
      if j = k then none else rows.find? fun x => key x = j := by
  rw [find?_filter]
  split
  next h =>
    rw [find?_eq_none]
    intro r _
    simp [h]
  next h =>
    congr 1
    funext r
    by_cases hr : key r = j <;> simp [hr, h]

theorem partner {Row' : Type*} {rows' : List Row'} {R : Row → Row' → Prop} (h : List.Forall₂ R rows rows') {r : Row}
    (hr : r ∈ rows) : ∃ r' ∈ rows', R r r' := by
  induction h with
  | nil => cases hr
  | cons hhead _ ih =>
    rcases mem_cons.mp hr with rfl | htail
    · exact ⟨_, mem_cons_self, hhead⟩
    · obtain ⟨r', hr', hrel⟩ := ih htail
      exact ⟨r', mem_cons_of_mem _ hr', hrel⟩

theorem filter_map_apart {p : Row → Bool} {g : Row → Row} (h : ∀ r ∈ rows, g r = r ∨ p r = false ∧ p (g r) = false) :
    (rows.map g).filter p = rows.filter p := by
  induction rows with
  | nil => rfl
  | cons r rows ih =>
    obtain ⟨hr, hrows⟩ := forall_mem_cons.mp h
    rw [map_cons]
    rcases hr with heq | ⟨hr, hgr⟩
    · rw [heq, filter_cons, filter_cons, ih hrows]
    · rw [filter_cons_of_neg (by simp [hgr]), filter_cons_of_neg (by simp [hr]), ih hrows]

section Modify

def modify (key : Row → Key) (k : Key) (f : Row → Row) (rows : List Row) : List Row :=
  rows.map fun r => if key r = k then f r else r

theorem find_modify {k : Key} {f : Row → Row} (hf : ∀ r, key r = k → key (f r) = k) (j : Key) :
    (modify key k f rows).find? (fun x => key x = j) =
      if j = k then (rows.find? fun x => key x = k).map f else rows.find? fun x => key x = j := by
  induction rows with
  | nil => simp [modify]
  | cons r rows ih =>
    have ih : (rows.map fun r => if key r = k then f r else r).find? (fun x => key x = j) = _ := ih
    rw [modify, map_cons, find?_cons, find?_cons, find?_cons, ih]
    by_cases hr : key r = k
    · by_cases hj : j = k
      · simp [hr, hj, hf r hr]
      · simp [hr, hj, hf r hr, Ne.symm hj]
    · by_cases hj : j = k
      · simp [hr, hj]
      · simp [hr, hj]

variable {f : Row → Row}

theorem modify_keys {k : Key} (hf : ∀ r, key (f r) = key r) (rows : List Row) : (modify key k f rows).map key = rows.map key := by
  rw [modify, map_map]
  refine map_congr_left fun r _ => ?_
  by_cases hr : key r = k <;> simp [hr, hf]

theorem modify_absent {k : Key} {rows : List Row} (h : k ∉ rows.map key) : modify key k f rows = rows := by
  rw [modify]
  conv_rhs => rw [← map_id rows]
  refine map_congr_left fun r hr => ?_
  have hk : key r ≠ k := fun heq => h (heq ▸ mem_map_of_mem hr)
  rw [if_neg hk, id_eq]

def modifyAll (key : Row → Key) (ks : List Key) (f : Row → Row) (rows : List Row) : List Row :=
  rows.map fun r => if key r ∈ ks then f r else r

@[simp] theorem modifyAll_nil (f : Row → Row) (rows : List Row) : modifyAll key [] f rows = rows := by
  simp [modifyAll]

theorem modifyAll_modify (hkey : ∀ r, key (f r) = key r) (hf : ∀ r, f (f r) = f r) (k : Key) (ks : List Key) (rows : List Row) :
    modifyAll key ks f (modify key k f rows) = modifyAll key (k :: ks) f rows := by
  rw [modifyAll, modify, map_map, modifyAll]
  refine map_congr_left fun r _ => ?_
  by_cases hk : key r = k <;> by_cases hr : key r ∈ ks <;> simp [hk, hr, hkey, hf]

theorem forall_mem_modifyAll {P : Row → Prop} {ks : List Key} (hold : ∀ r ∈ rows, key r ∉ ks → P r)
    (hnew : ∀ r ∈ rows, key r ∈ ks → P (f r)) : ∀ r ∈ modifyAll key ks f rows, P r := by
  refine forall_mem_map.mpr fun r hr => ?_
  split
  next hmem => exact hnew r hr hmem
  next hout => exact hold r hr hout

end Modify

section Numbered

variable {number : Row → ℕ}

def Numbered (number : Row → ℕ) (rows : List Row) : Prop := rows.map number = List.range' 1 rows.length

theorem numbered_concat {r : Row} :
    Numbered number (rows ++ [r]) ↔ Numbered number rows ∧ number r = rows.length + 1 := by
  rw [Numbered, Numbered, map_append, length_append, length_singleton, range'_concat]
  constructor
  · intro h
    obtain ⟨hrows, hr⟩ := append_inj' h rfl
    simp only [map_cons, map_nil, List.cons.injEq, and_true] at hr
    exact ⟨hrows, by omega⟩
  · rintro ⟨hrows, hr⟩
    rw [hrows, map_singleton, hr]
    congr 2
    omega

theorem Numbered.mem_iff (h : Numbered number rows) {n : ℕ} : n ∈ rows.map number ↔ 1 ≤ n ∧ n ≤ rows.length := by
  rw [h, mem_range'_1]
  omega

theorem Numbered.nodup (h : Numbered number rows) : (rows.map number).Nodup := by
  rw [h]
  exact nodup_range'

theorem Numbered.argmax (h : Numbered number rows) : rows.argmax number = rows.getLast? := by
  induction rows using List.reverseRecOn with
  | nil => rfl
  | append_singleton rows r ih =>
    obtain ⟨hrows, hr⟩ := numbered_concat.mp h
    rw [argmax_concat, ih hrows, getLast?_concat]
    cases hlast : rows.getLast? with
    | none => rfl
    | some c =>
      have hc : number c ∈ rows.map number := mem_map_of_mem (mem_of_getLast? hlast)
      have hle := (hrows.mem_iff.mp hc).2
      simp only [show number c < number r by omega, if_true]

end Numbered

end Table
