import Mathlib.Data.List.Nodup
import StupaWorkflow.Json

/-!
How `loads` reads back what `dumps` writes for lists and objects of strings that need no
escape: the items one after the other, and of the members with one key the last value at the
place of the first.
-/
namespace Py.Json
open List

/-- A text of printable ASCII characters without quotes and backslashes. -/
def Plain (s : Text) : Prop := ∀ c ∈ s, 32 ≤ c ∧ c ≤ 126 ∧ c ≠ 34 ∧ c ≠ 92

section Scan

variable {s rest : Text}

theorem quote_plain (h : Plain s) : quote s = 34 :: s ++ [34] := by
  have hescape : s.flatMap escapeChar = s := by
    induction s with
    | nil => rfl
    | cons c s ih =>
      obtain ⟨hlow, hhigh, hquote, hback⟩ := h c mem_cons_self
      have hone : escapeChar c = [c] := by
        unfold escapeChar
        rw [if_neg hquote, if_neg hback, if_neg (by omega), if_neg (by omega), if_neg (by omega), if_neg (by omega),
          if_neg (by omega), if_pos ⟨hlow, hhigh⟩]
      rw [flatMap_cons, hone, ih fun d hd => h d (mem_cons_of_mem c hd), singleton_append]
  rw [quote, hescape]

theorem scanString_plain (h : Plain s) (rest : Text) : scanString (s ++ 34 :: rest) = some (s, rest) := by
  induction s with
  | nil => rfl
  | cons c s ih =>
    obtain ⟨hlow, -, hquote, hback⟩ := h c mem_cons_self
    rw [cons_append, scanString, ih fun d hd => h d (mem_cons_of_mem c hd), if_neg (by simpa using ⟨hlow, hback⟩)]
    · rfl
    · exact hquote
    · exact fun _ _ _ _ _ hc => absurd hc hback
    · exact fun _ _ hc => absurd hc hback

theorem scanOnce_quote (depth : ℕ) (rest : Text) :
    scanOnce depth (34 :: rest) =
      match scanString rest with
      | none => .error .invalid
      | some (s, tail) => .ok (.str s, tail) := by
  cases depth <;> rfl

theorem scanOnce_list (depth : ℕ) (rest : Text) :
    scanOnce (depth + 1) (91 :: rest) =
      match skipSpace rest with
      | 93 :: tail => .ok (.arr [], tail)
      | body => (scanItems (scanOnce depth) body.length body).map fun (vs, tail) => (.arr vs, tail) := rfl

theorem scanOnce_object (depth : ℕ) (rest : Text) :
    scanOnce (depth + 1) (123 :: rest) =
      match skipSpace rest with
      | 125 :: tail => .ok (.obj [], tail)
      | body => (scanMembers (scanOnce depth) body.length [] body).map fun (ms, tail) => (.obj ms, tail) := rfl

theorem scanOnce_string (h : Plain s) (depth : ℕ) (rest : Text) :
    scanOnce depth (quote s ++ rest) = .ok (.str s, rest) := by
  have htext : quote s ++ rest = 34 :: (s ++ 34 :: rest) := by
    rw [quote_plain h]
    simp
  rw [htext, scanOnce_quote, scanString_plain h]

theorem skipSpace_of_head {c : ℕ} (h : isSpace c = false) (s : Text) : skipSpace (c :: s) = c :: s := by
  rw [skipSpace, dropWhile_cons_of_neg (by simp [h])]

theorem skipSpace_quote (h : Plain s) (rest : Text) : skipSpace (quote s ++ rest) = quote s ++ rest := by
  rw [quote_plain h]
  exact skipSpace_of_head (by decide) _

end Scan

section Items

variable {items : List Text}

/-- The items of a list of strings as `dumps` writes them. -/
def itemsText (items : List Text) : Text := dumpsItems (text ",") (text ":") (items.map .str)

theorem itemsText_single (s : Text) : itemsText [s] = quote s := rfl

theorem itemsText_cons (s t : Text) (items : List Text) :
    itemsText (s :: t :: items) = quote s ++ 44 :: itemsText (t :: items) := by
  show dumpsItems _ _ (.str s :: .str t :: items.map .str) = _
  rw [dumpsItems, dumps]
  · simp [itemsText, text]
  · simp

theorem itemsText_length (s : Text) (items : List Text) :
    (s :: items).length ≤ (itemsText (s :: items)).length ∧ ∃ body, itemsText (s :: items) = 34 :: body := by
  induction items generalizing s with
  | nil => exact ⟨by simp [itemsText_single, quote], _, rfl⟩
  | cons t items ih =>
    obtain ⟨hlen, -⟩ := ih t
    rw [itemsText_cons]
    refine ⟨?_, ⟨_, rfl⟩⟩
    simp only [length_append, length_cons] at hlen ⊢
    omega

theorem scanItems_strings {s : Text} (h : ∀ x ∈ s :: items, Plain x) (depth : ℕ) {fuel : ℕ}
    (hfuel : (s :: items).length ≤ fuel) (rest : Text) :
    scanItems (scanOnce depth) fuel (itemsText (s :: items) ++ 93 :: rest) = .ok ((s :: items).map .str, rest) := by
  induction items generalizing s fuel with
  | nil =>
    obtain ⟨fuel, rfl⟩ := Nat.exists_eq_succ_of_ne_zero (show fuel ≠ 0 by rw [length_cons] at hfuel; omega)
    have hs := h s mem_cons_self
    rw [itemsText_single, scanItems, skipSpace_quote hs, scanOnce_string hs]
    show (match skipSpace (93 :: rest) with | _ => _) = _
    rw [skipSpace_of_head (by decide)]
    rfl
  | cons t items ih =>
    obtain ⟨fuel, rfl⟩ := Nat.exists_eq_succ_of_ne_zero (show fuel ≠ 0 by rw [length_cons] at hfuel; omega)
    obtain ⟨hs, hitems⟩ := forall_mem_cons.mp h
    have hnext := ih hitems (Nat.le_of_succ_le_succ hfuel)
    have htext : itemsText (s :: t :: items) ++ 93 :: rest = quote s ++ 44 :: (itemsText (t :: items) ++ 93 :: rest) := by
      rw [itemsText_cons]
      simp
    rw [htext, scanItems, skipSpace_quote hs, scanOnce_string hs]
    simp only [bind, Except.bind]
    rw [skipSpace_of_head (by decide)]
    simp only [hnext, map_cons]
    rfl

/-- `json.loads(json.dumps(items))` of a list of plain strings. -/
theorem loads_strings (h : ∀ s ∈ items, Plain s) :
    loadsAll ((arr (items.map .str)).dumps (text ",") (text ":")) = .ok (.arr (items.map .str)) := by
  have htext : (arr (items.map .str)).dumps (text ",") (text ":") = 91 :: (itemsText items ++ [93]) := by
    rw [dumps]
    rfl
  rw [htext, loadsAll, loads, if_neg (by simp), skipSpace_of_head (by decide), length_cons, scanOnce_list]
  cases items with
  | nil => rfl
  | cons s items =>
    obtain ⟨hlen, body, hbody⟩ := itemsText_length s items
    have hfuel : (s :: items).length ≤ (itemsText (s :: items) ++ [93]).length := by
      rw [length_append]
      omega
    have hscan := scanItems_strings h (itemsText (s :: items) ++ [93]).length hfuel []
    have hskip : skipSpace (itemsText (s :: items) ++ [93]) = 34 :: (body ++ [93]) := by
      rw [hbody, cons_append, skipSpace_of_head (by decide)]
    rw [hskip]
    have hwhole : itemsText (s :: items) ++ [93] = 34 :: (body ++ [93]) := by rw [hbody, cons_append]
    rw [hwhole] at hscan ⊢
    show (Except.map _ (scanItems _ _ _) >>= fun r => _) = _
    rw [hscan]
    rfl

end Items

section Members

variable {members : List (Text × Text)}

/-- The members of an object of strings as `dumps` writes them. -/
def membersText (members : List (Text × Text)) : Text :=
  dumpsMembers (text ",") (text ":") (members.map fun m => (m.1, .str m.2))

/-- What `loads` makes of members in their order. -/
def setAll (members : List (Text × Text)) (acc : List (Text × Json)) : List (Text × Json) :=
  members.foldl (fun acc m => setMember m.1 (.str m.2) acc) acc

theorem membersText_single (m : Text × Text) : membersText [m] = quote m.1 ++ 58 :: quote m.2 := by
  show quote m.1 ++ text ":" ++ dumps _ _ (.str m.2) = _
  simp [dumps, text]

theorem membersText_cons (m n : Text × Text) (members : List (Text × Text)) :
    membersText (m :: n :: members) = quote m.1 ++ 58 :: (quote m.2 ++ 44 :: membersText (n :: members)) := by
  show dumpsMembers _ _ ((m.1, .str m.2) :: (n.1, .str n.2) :: members.map fun m => (m.1, Json.str m.2)) = _
  rw [dumpsMembers, dumps]
  · simp [membersText, text]
  · simp

theorem membersText_length (m : Text × Text) (members : List (Text × Text)) :
    (m :: members).length ≤ (membersText (m :: members)).length ∧ ∃ body, membersText (m :: members) = 34 :: body := by
  induction members generalizing m with
  | nil =>
    rw [membersText_single]
    exact ⟨by simp [quote], _, rfl⟩
  | cons n members ih =>
    obtain ⟨hlen, -⟩ := ih n
    rw [membersText_cons]
    refine ⟨?_, ⟨_, rfl⟩⟩
    simp only [length_append, length_cons] at hlen ⊢
    omega

theorem scanMembers_member {m : Text × Text} (hkey : Plain m.1) (hvalue : Plain m.2) (depth fuel : ℕ)
    (acc : List (Text × Json)) {c : ℕ} (hc : isSpace c = false) (rest : Text) :
    scanMembers (scanOnce depth) (fuel + 1) acc (quote m.1 ++ 58 :: (quote m.2 ++ c :: rest)) =
      match c :: rest with
      | 125 :: tail => .ok (setMember m.1 (.str m.2) acc, tail)
      | 44 :: tail => scanMembers (scanOnce depth) fuel (setMember m.1 (.str m.2) acc) tail
      | _ => .error .invalid := by
  have hopen : quote m.1 ++ 58 :: (quote m.2 ++ c :: rest) = 34 :: (m.1 ++ 34 :: 58 :: (quote m.2 ++ c :: rest)) := by
    rw [quote_plain hkey]
    simp
  rw [hopen, scanMembers, skipSpace_of_head (by decide)]
  simp only [scanString_plain hkey]
  rw [skipSpace_of_head (by decide)]
  simp only [skipSpace_quote hvalue, scanOnce_string hvalue, bind, Except.bind]
  rw [skipSpace_of_head hc]
  rfl

theorem scanMembers_strings {m : Text × Text} (h : ∀ x ∈ m :: members, Plain x.1 ∧ Plain x.2) (depth : ℕ) {fuel : ℕ}
    (hfuel : (m :: members).length ≤ fuel) (acc : List (Text × Json)) (rest : Text) :
    scanMembers (scanOnce depth) fuel acc (membersText (m :: members) ++ 125 :: rest) =
      .ok (setAll (m :: members) acc, rest) := by
  induction members generalizing m fuel acc with
  | nil =>
    obtain ⟨fuel, rfl⟩ := Nat.exists_eq_succ_of_ne_zero (show fuel ≠ 0 by rw [length_cons] at hfuel; omega)
    obtain ⟨hkey, hvalue⟩ := h m mem_cons_self
    have htext : membersText [m] ++ 125 :: rest = quote m.1 ++ 58 :: (quote m.2 ++ 125 :: rest) := by
      rw [membersText_single]
      simp
    rw [htext]
    exact scanMembers_member hkey hvalue depth fuel acc (by decide) rest
  | cons n members ih =>
    obtain ⟨fuel, rfl⟩ := Nat.exists_eq_succ_of_ne_zero (show fuel ≠ 0 by rw [length_cons] at hfuel; omega)
    obtain ⟨⟨hkey, hvalue⟩, hmembers⟩ := forall_mem_cons.mp h
    have htext : membersText (m :: n :: members) ++ 125 :: rest =
        quote m.1 ++ 58 :: (quote m.2 ++ 44 :: (membersText (n :: members) ++ 125 :: rest)) := by
      rw [membersText_cons]
      simp
    rw [htext, scanMembers_member hkey hvalue depth fuel acc (by decide)]
    exact ih hmembers (Nat.le_of_succ_le_succ hfuel) (setMember m.1 (.str m.2) acc)

/-- `json.loads(json.dumps(members))` of plain strings. -/
theorem loads_members (h : ∀ m ∈ members, Plain m.1 ∧ Plain m.2) :
    loadsAll ((obj (members.map fun m => (m.1, .str m.2))).dumps (text ",") (text ":")) = .ok (.obj (setAll members [])) := by
  have htext : (obj (members.map fun m => (m.1, .str m.2))).dumps (text ",") (text ":") =
      123 :: (membersText members ++ [125]) := by
    rw [dumps]
    rfl
  rw [htext, loadsAll, loads, if_neg (by simp), skipSpace_of_head (by decide), length_cons, scanOnce_object]
  cases members with
  | nil => rfl
  | cons m members =>
    obtain ⟨hlen, body, hbody⟩ := membersText_length m members
    have hfuel : (m :: members).length ≤ (membersText (m :: members) ++ [125]).length := by
      rw [length_append]
      omega
    have hscan := scanMembers_strings h (membersText (m :: members) ++ [125]).length hfuel [] []
    have hwhole : membersText (m :: members) ++ [125] = 34 :: (body ++ [125]) := by rw [hbody, cons_append]
    rw [hwhole, skipSpace_of_head (by decide)]
    rw [hwhole] at hscan
    show (Except.map _ (scanMembers _ _ _ _) >>= fun r => _) = _
    rw [hscan]
    rfl

theorem lookup_setMember (key other : Text) (v : Json) (acc : List (Text × Json)) :
    (setMember key v acc).lookup other = if other = key then some v else acc.lookup other := by
  induction acc with
  | nil => rw [setMember, lookup_pair]
  | cons m acc ih =>
    cases m with
    | mk k w => exact lookup_change (p := (k, w)) (fun hk => congrArg (·, v) hk) ih

theorem lookup_setAll_congr {other : Text} {acc acc' : List (Text × Json)} (h : acc.lookup other = acc'.lookup other) :
    (setAll members acc).lookup other = (setAll members acc').lookup other := by
  induction members generalizing acc acc' with
  | nil => exact h
  | cons m members ih =>
    apply ih
    rw [lookup_setMember, lookup_setMember, h]

theorem lookup_setAll_other {key other : Text} (h : other ≠ key) (value : Text) (front back : List (Text × Text)) :
    (setAll (front ++ (key, value) :: back) []).lookup other = (setAll (front ++ back) []).lookup other := by
  rw [setAll, setAll, foldl_append, foldl_append, foldl_cons]
  apply lookup_setAll_congr
  rw [lookup_setMember, if_neg h]

end Members

section Keys

def keys (members : List (Text × Json)) : List Text := members.map (·.1)

variable {acc : List (Text × Json)}
variable {s tail : Text} {members : List (Text × Json)}

theorem keys_setMember (key : Text) (v : Json) (acc : List (Text × Json)) :
    keys (setMember key v acc) = if key ∈ keys acc then keys acc else keys acc ++ [key] := by
  induction acc with
  | nil => rfl
  | cons m acc ih =>
    rw [setMember]
    by_cases hm : m.1 = key
    · simp [keys, hm]
    · have hcons : ∀ ms : List (Text × Json), keys (m :: ms) = m.1 :: keys ms := fun _ => rfl
      rw [if_neg hm, hcons, hcons, ih]
      by_cases hkey : key ∈ keys acc
      · rw [if_pos hkey, if_pos (mem_cons_of_mem m.1 hkey)]
      · rw [if_neg hkey, if_neg (not_mem_cons_of_ne_of_not_mem (Ne.symm hm) hkey)]
        rfl

theorem nodup_setMember (h : (keys acc).Nodup) (key : Text) (v : Json) : (keys (setMember key v acc)).Nodup := by
  rw [keys_setMember]
  split
  · exact h
  · next hkey => exact nodup_append'.mpr ⟨h, nodup_singleton key, by simpa using hkey⟩

theorem nodup_scanMembers {value : Text → Except LoadsError (Json × Text)} {fuel : ℕ} (hacc : (keys acc).Nodup)
    (h : scanMembers value fuel acc s = .ok (members, tail)) : (keys members).Nodup := by
  induction fuel generalizing acc s with
  | zero => cases h
  | succ fuel ih =>
    rw [scanMembers] at h
    split at h
    · split at h
      · cases h
      · split at h
        · obtain ⟨⟨v, rest⟩, -, h⟩ := bind_ok.mp h
          dsimp only at h
          split at h
          · cases h
            exact nodup_setMember hacc _ _
          · exact ih (nodup_setMember hacc _ _) h
          · cases h
        · cases h
    · cases h

theorem map_ok {ε α β : Type} {x : Except ε α} {f : α → β} {b : β} : x.map f = .ok b ↔ ∃ a, x = .ok a ∧ f a = b := by
  cases x <;> simp [Except.map]

theorem scanWord_ok {word : Text} {v w : Json} (h : scanWord word v s = .ok (w, tail)) : w = v := by
  rw [scanWord] at h
  split at h <;> cases h
  rfl

theorem scanNumber_ok {v : Json} (h : scanNumber s = .ok (v, tail)) : (∃ z, v = .int z) ∨ ∃ t, v = .float t := by
  unfold scanNumber at h
  dsimp only at h
  split at h
  · cases h
  · split_ifs at h <;> cases h
    · exact .inl ⟨_, rfl⟩
    · exact .inl ⟨_, rfl⟩
    · exact .inr ⟨_, rfl⟩

theorem nodup_scanOnce {depth : ℕ} (h : scanOnce depth s = .ok (.obj members, tail)) : (keys members).Nodup := by
  have hword : ∀ {word : Text} {v : Json}, scanWord word v s = .ok (.obj members, tail) → v = .obj members :=
    fun hscan => (scanWord_ok hscan).symm
  cases s with
  | nil => cases depth <;> cases h
  | cons c rest =>
    rw [scanOnce.eq_def] at h
    dsimp only at h
    split_ifs at h
    · -- a string
      split at h <;> cases h
    · -- an object
      cases depth with
      | zero => cases h
      | succ depth =>
        dsimp only at h
        split at h
        · cases h
          exact nodup_nil
        · obtain ⟨⟨ms, rest⟩, hscan, heq⟩ := map_ok.mp h
          cases heq
          exact nodup_scanMembers (show (keys []).Nodup from nodup_nil) hscan
    · -- a list
      cases depth with
      | zero => cases h
      | succ depth =>
        dsimp only at h
        split at h
        · cases h
        · obtain ⟨_, -, heq⟩ := map_ok.mp h
          cases heq
    · cases hword h
    · cases hword h
    · cases hword h
    · cases hword h
    · cases hword h
    · cases h
    · rcases scanNumber_ok h with ⟨_, h⟩ | ⟨_, h⟩ <;> cases h

/-- No key stands twice in an object that `loads` returns. -/
theorem nodup_loads (h : loadsAll s = .ok (.obj members)) : (keys members).Nodup := by
  rw [loadsAll, loads] at h
  split at h
  · cases h
  · obtain ⟨⟨v, rest⟩, hscan, h⟩ := bind_ok.mp h
    dsimp only at h
    split at h
    · cases h
      exact nodup_scanOnce hscan
    · cases h

end Keys

end Py.Json
