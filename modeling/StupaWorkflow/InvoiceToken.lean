import StupaWorkflow.StorageKeys
import StupaWorkflow.UploadCheck

/-!
The file of an invoice: the upload returns the object key as a token, and the
create of the invoice takes the token back. The key builder and the token check
are two rules. They agree unless two dots meet in the key.
-/
namespace InvoiceToken
open Py Filenames StorageKeys Uploads
open List hiding splitOn

section Upload

variable (U : Unicode) (O : Outside)

def storeInvoiceFile (u : Uuid) (keyName : Text) : Except Problem Text :=
  if !O.storage then .error (.serviceUnavailable (text "Object storage unavailable."))
  else if O.putWorks then .ok (invoiceKey u keyName)
  else .error (.serviceUnavailable (text "Object storage write failed."))

def checkInvoiceFile (maxBytes : ℕ) (data : Bytes) (filename : Option Text) : Except Problem (Text × Text) :=
  if maxBytes < data.length then
    .error (.payloadTooLarge (text "Invoice exceeds " ++ decimal maxBytes ++ text " bytes."))
  else if data = [] then .error (.unsupportedMediaType (text "Empty file."))
  else
    let displayName := sanitizeDisplayName U filename defaultName
    match validateUpload U O displayName data with
    | .error message => .error (.unsupportedMediaType message)
    | .ok mime =>
      if mime = pdfMime then .ok (displayName, mime)
      else .error (.unsupportedMediaType (text "Invoice import expects a PDF."))

structure StoredFile where
  fileToken : Text
  fileName : Text
  fileMime : Text

/-- `_validate_scan_store`, which `store_invoice_file` returns. -/
def validateScanStore (maxBytes : ℕ) (data : Bytes) (filename : Option Text) (u : Uuid) : Except Problem StoredFile := do
  let (displayName, mime) ← checkInvoiceFile U O maxBytes data filename
  O.scan data
  let key ← storeInvoiceFile O u (sanitizeStorageName U (some displayName))
  return ⟨key, displayName, mime⟩

/-- `parse_invoice_file`: the parser runs between the scan and the store. -/
def parseInvoiceFile {Parsed : Type} (parse : Bytes → Except Problem Parsed) (maxBytes : ℕ) (data : Bytes)
    (filename : Option Text) (u : Uuid) : Except Problem (Parsed × StoredFile) := do
  let (displayName, mime) ← checkInvoiceFile U O maxBytes data filename
  O.scan data
  let parsed ← parse data
  let key ← storeInvoiceFile O u (sanitizeStorageName U (some displayName))
  return (parsed, ⟨key, displayName, mime⟩)

end Upload

section Token

def invoiceFilePrefix : Text := text "invoices/"

def validateInvoiceFileToken (token : Text) : Except Problem Text :=
  if !invoiceFilePrefix.isPrefixOf token || decide ([dot, dot] <:+: token) then
    .error (.validation (text "invalid invoice file token"))
  else .ok token

theorem validateInvoiceFileToken_ok {token : Text} :
    (∃ t, validateInvoiceFileToken token = .ok t) ↔ invoiceFilePrefix <+: token ∧ ¬ [dot, dot] <:+: token := by
  unfold validateInvoiceFileToken
  by_cases hpre : invoiceFilePrefix.isPrefixOf token <;> by_cases hdots : [dot, dot] <:+: token <;>
    simp_all [← isPrefixOf_iff_prefix]

end Token

section PdfName

/-- What the proofs need of the Unicode data: ASCII text is a fixed point of NFKD
and has no combining marks, and only ASCII letters have the lower case `pdf`. -/
structure Lawful (U : Unicode) : Prop where
  nfkd : ∀ s t : Text, (∀ c ∈ t, c < 128) → U.nfkd (s ++ t) = U.nfkd s ++ t
  combining : ∀ c < 128, U.combining c = false
  lower : ∀ t : Text, U.lower t = text ".pdf" →
    t.map (fun c => if 65 ≤ c ∧ c ≤ 90 then c + 32 else c) = text ".pdf"

def PdfExt (ext : Text) : Prop :=
  ∃ letters : Text, ext = dot :: letters ∧ letters.length = 3 ∧ ∀ c ∈ letters, (65 ≤ c ∧ c ≤ 90) ∨ (97 ≤ c ∧ c ≤ 122)

variable {U : Unicode} {O : Outside}

theorem pdfExt_of_lower (hU : Lawful U) {ext : Text} (h : U.lower ext = text ".pdf") : PdfExt ext := by
  have hmap := hU.lower ext h
  have htext : text ".pdf" = [dot, 112, 100, 102] := by decide
  rw [htext] at hmap
  cases ext with
  | nil => cases hmap
  | cons d letters =>
    rw [map_cons] at hmap
    obtain ⟨hd, hl⟩ := List.cons.inj hmap
    have hdot : d = dot := by
      simp only [dot] at hd ⊢
      split at hd <;> omega
    refine ⟨letters, by rw [hdot], by simpa using congrArg List.length hl, fun c hc => ?_⟩
    have hmem : (if 65 ≤ c ∧ c ≤ 90 then c + 32 else c) ∈ [112, 100, 102] := hl ▸ mem_map_of_mem hc
    simp only [mem_cons, not_mem_nil, or_false] at hmem
    split at hmem <;> omega

/-- The upload accepts a name only with a PDF extension. -/
theorem pdf_of_check (hU : Lawful U) {maxBytes : ℕ} {data : Bytes} {filename : Option Text} {displayName mime : Text}
    (h : checkInvoiceFile U O maxBytes data filename = .ok (displayName, mime)) :
    displayName = sanitizeDisplayName U filename defaultName ∧ PdfExt (splitext displayName).2 := by
  unfold checkInvoiceFile at h
  split at h
  · cases h
  · split at h
    · cases h
    · simp only at h
      split at h
      · cases h
      · next m hvalid =>
          split at h
          · next hpdf =>
              obtain ⟨rfl, rfl⟩ := Prod.mk.inj (Except.ok.inj h)
              refine ⟨rfl, pdfExt_of_lower hU ?_⟩
              subst hpdf
              have honly : ∀ pair ∈ extToMime, pdfMime ∈ pair.2 → pair.1 = text ".pdf" := by
                rw [extToMime, pdfMime]
                repeat rw [text_ofList]
                decide
              obtain ⟨allowed, hlookup, hmem⟩ := validateUpload_ok hvalid
              have hext := honly _ hlookup hmem
              simp only [fileExtension] at hext
              split at hext
              · cases hext
              · exact hext
          · cases h

/-- The stem of a name as the key shows it: folded, after the last separator,
without spaces and dots at its start, and with unsafe characters replaced. -/
def keyStem (U : Unicode) (stem : Text) : Text :=
  (((basename (asciiFold U stem)).dropWhile isSpace).map fun c => if isStorageSafe c then c else 95).dropWhile fun c =>
    c = space || c = dot

def stemMax : ℕ := 196

section Extension

variable {ext : Text}

attribute [local simp] PdfExt keyStem stemMax

theorem PdfExt.mem (h : PdfExt ext) {c : ℕ} (hc : c ∈ ext) : c = 46 ∨ (65 ≤ c ∧ c ≤ 90) ∨ (97 ≤ c ∧ c ≤ 122) := by
  obtain ⟨letters, rfl, _, hl⟩ := h
  rcases mem_cons.mp hc with rfl | hc
  · exact .inl rfl
  · exact .inr (hl c hc)

theorem PdfExt.char (h : PdfExt ext) {c : ℕ} (hc : c ∈ ext) :
    c < 128 ∧ c ≠ slash ∧ c ≠ backslash ∧ isSpace c = false ∧ isStorageSafe c = true := by
  have hcases := h.mem hc
  refine ⟨by omega, ?_, ?_, ?_, ?_⟩
  · simp only [slash]
    omega
  · simp only [backslash]
    omega
  · simp only [isSpace, Bool.or_eq_false_iff, Bool.and_eq_false_iff, decide_eq_false_iff_not, beq_eq_false_iff_ne]
    omega
  · simp only [isStorageSafe, Bool.or_eq_true, Bool.and_eq_true, decide_eq_true_eq]
    simp only [dot, space]
    omega

theorem PdfExt.ne_nil (h : PdfExt ext) : ext ≠ [] := by
  obtain ⟨letters, rfl, _⟩ := h
  exact cons_ne_nil _ _

theorem PdfExt.getLast (h : PdfExt ext) (hne : ext ≠ []) :
    (65 ≤ ext.getLast hne ∧ ext.getLast hne ≤ 90) ∨ (97 ≤ ext.getLast hne ∧ ext.getLast hne ≤ 122) := by
  obtain ⟨letters, rfl, hlength, hl⟩ := h
  have hletters : letters ≠ [] := by
    rintro rfl
    cases hlength
  rw [getLast_cons hletters]
  exact hl _ (getLast_mem hletters)

theorem asciiFold_pdf (hU : Lawful U) (h : PdfExt ext) (stem : Text) :
    asciiFold U (stem ++ ext) = asciiFold U stem ++ ext := by
  have hkeep : ext.filter (fun c => !U.combining c) = ext := by
    refine filter_eq_self.mpr fun c hc => ?_
    simp [hU.combining c (h.char hc).1]
  rw [asciiFold, hU.nfkd _ _ fun c hc => (h.char hc).1, filter_append, hkeep]
  rfl

theorem basename_pdf (h : PdfExt ext) (stem : Text) : basename (stem ++ ext) = basename stem ++ ext := by
  have hmap : (ext.map fun c => if c = backslash then slash else c) = ext := by
    conv_rhs => rw [← map_id ext]
    exact map_congr_left fun c hc => if_neg (h.char hc).2.2.1
  rw [basename, map_append, hmap, afterLast_append fun hmem => (h.char hmem).2.1 rfl]
  rfl

theorem strip_pdf (h : PdfExt ext) (s : Text) : strip (s ++ ext) = s.dropWhile isSpace ++ ext := by
  have hnone : ext.dropWhile isSpace = ext := by
    obtain ⟨letters, rfl, _⟩ := h
    rfl
  rw [strip, stripWith_append h.ne_nil fun hne => (h.char (getLast_mem hne)).2.2.2.1]
  split
  · next hs => rw [hs, hnone, nil_append]
  · rfl

theorem stripDots_pdf (h : PdfExt ext) (s : Text) :
    stripDots (s ++ ext) =
      if s.dropWhile (fun c => c = space || c = dot) = [] then ext.tail
      else s.dropWhile (fun c => c = space || c = dot) ++ ext := by
  have hlast : ∀ hne : ext ≠ [], (decide (ext.getLast hne = space) || decide (ext.getLast hne = dot)) = false := by
    intro hne
    have hletter := h.getLast hne
    have hne' : ¬ (ext.getLast hne = space ∨ ext.getLast hne = dot) := by
      simp only [space, dot]
      omega
    simpa [not_or] using hne'
  have htail : ext.dropWhile (fun c => c = space || c = dot) = ext.tail := by
    obtain ⟨letters, rfl, hlength, hl⟩ := h
    obtain ⟨c, rest, rfl⟩ : ∃ c rest, letters = c :: rest := by
      cases letters with
      | nil => cases hlength
      | cons c rest => exact ⟨c, rest, rfl⟩
    have := hl c (by simp)
    have hc : ¬ (c = space ∨ c = dot) := by
      simp only [space, dot]
      omega
    simp [hc]
  rw [stripDots, stripWith_append h.ne_nil hlast, htail]

theorem storageBase_pdf (hU : Lawful U) (h : PdfExt ext) (stem : Text) :
    storageBase U (some (stem ++ ext)) = if keyStem U stem = [] then ext.tail else keyStem U stem ++ ext := by
  have hmap : (ext.map fun c => if isStorageSafe c then c else 95) = ext := by
    conv_rhs => rw [← map_id ext]
    exact map_congr_left fun c hc => if_pos (h.char hc).2.2.2.2
  rw [storageBase, Option.getD_some, asciiFold_pdf hU h, basename_pdf h, strip_pdf h, map_append, hmap,
    stripDots_pdf h]
  rfl

theorem stripWith_eq_self {p : ℕ → Bool} {s : Text} (h : ∀ c ∈ s, p c = false) : stripWith p s = s := by
  have hdrop : ∀ t : Text, (∀ c ∈ t, p c = false) → t.dropWhile p = t := by
    intro t ht
    cases t with
    | nil => rfl
    | cons c t => simp [ht c (by simp)]
  rw [stripWith, hdrop s h, hdrop _ fun c hc => h c (mem_reverse.mp hc), reverse_reverse]

theorem keyStem_spec (stem : Text) :
    (∀ c ∈ keyStem U stem, isStorageSafe c = true) ∧
      ∀ c rest, keyStem U stem = c :: rest → ¬ (c = space ∨ c = dot) := by
  constructor
  · intro c hc
    obtain ⟨b, _, rfl⟩ := mem_map.mp ((dropWhile_sublist _).subset hc)
    split
    · assumption
    · rfl
  · intro c rest heq
    simpa [not_or] using dropWhile_head heq

theorem cap_pdf (h : PdfExt ext) {stem : Text} (hsafe : ∀ c ∈ stem, isStorageSafe c = true)
    (hhead : ∃ c rest, stem = c :: rest ∧ c ≠ dot) : cap (stem ++ ext) storageNameMax = stem.take stemMax ++ ext := by
  obtain ⟨letters, rfl, hlength, hl⟩ := h
  obtain ⟨c, rest, rfl, hc⟩ := hhead
  have hdot : dot ∉ letters := fun hmem => by
    have := hl dot hmem
    simp only [dot] at this
    omega
  have hslash : slash ∉ letters := fun hmem => by
    have := hl slash hmem
    simp only [slash] at this
    omega
  have hplain : slash ∉ c :: rest := fun hmem => by
    have := hsafe slash hmem
    revert this
    decide
  have hafter : afterLast slash (c :: rest) = c :: rest := by
    rw [← nil_append (c :: rest), afterLast_append hplain]
    rfl
  unfold cap
  split
  · next hshort =>
      simp only [length_append, length_cons, hlength, storageNameMax] at hshort
      rw [take_of_length_le]
      simp only [length_cons, stemMax]
      omega
  · have hsplit : splitext (c :: rest ++ dot :: letters) = (c :: rest, dot :: letters) :=
      splitext_of hdot hslash ⟨c, by rw [hafter]; simp, hc⟩
    simp only [hsplit]
    rw [if_neg (by simp [hlength, extensionMax])]
    simp only [length_cons, hlength, storageNameMax, stemMax]

theorem sanitizeStorageName_pdf (hU : Lawful U) (h : PdfExt ext) (stem : Text) :
    sanitizeStorageName U (some (stem ++ ext)) =
      if keyStem U stem = [] then ext.tail else (keyStem U stem).take stemMax ++ ext := by
  obtain ⟨hsafe, hhead⟩ := keyStem_spec (U := U) stem
  rw [sanitizeStorageName, storageBase_pdf hU h]
  split
  · obtain ⟨letters, rfl, hlength, hl⟩ := h
    have hself : stripDots letters = letters := by
      refine stripWith_eq_self fun c hc => ?_
      have := hl c hc
      have hne : ¬ (c = space ∨ c = dot) := by
        simp only [space, dot]
        omega
      simpa [not_or] using hne
    have hshort : cap letters storageNameMax = letters := if_pos (by rw [hlength]; decide)
    rw [tail_cons, hshort, hself, orDefault, if_neg]
    rintro rfl
    cases hlength
  · next hne =>
      obtain ⟨c, rest, heq⟩ := exists_cons_of_ne_nil hne
      have hc := hhead c rest heq
      have hkeep : ((keyStem U stem).take stemMax).dropWhile (fun c => c = space || c = dot) =
          (keyStem U stem).take stemMax := by
        rw [heq, stemMax, take_succ_cons]
        simp [hc]
      rw [cap_pdf h hsafe ⟨c, rest, heq, fun hdot => hc (.inr hdot)⟩, stripDots_pdf h, hkeep, if_neg, orDefault, if_neg]
      · simp [h.ne_nil]
      · rw [heq, stemMax, take_succ_cons]
        exact cons_ne_nil _ _

end Extension

end PdfName

section Dots

def DotsApart (s : Text) : Prop := ∀ i, s[i]? = some dot → ∃ c, s[i + 1]? = some c ∧ c ≠ dot

theorem dots_infix_iff {s : Text} : [dot, dot] <:+: s ↔ ∃ i, s[i]? = some dot ∧ s[i + 1]? = some dot := by
  constructor
  · rintro ⟨front, back, rfl⟩
    exact ⟨front.length, by simp, by simp⟩
  · rintro ⟨i, hi, hi'⟩
    obtain ⟨hlt, hget⟩ := List.getElem?_eq_some_iff.mp hi
    obtain ⟨hlt', hget'⟩ := List.getElem?_eq_some_iff.mp hi'
    refine ⟨s.take i, s.drop (i + 2), ?_⟩
    have hsplit : s.drop i = dot :: dot :: s.drop (i + 2) := by
      rw [drop_eq_getElem_cons hlt, drop_eq_getElem_cons hlt', hget, hget']
    rw [append_assoc]
    calc s.take i ++ ([dot, dot] ++ s.drop (i + 2)) = s.take i ++ s.drop i := by rw [hsplit]; rfl
      _ = s := take_append_drop i s

theorem dots_infix_append {front s : Text} (h : dot ∉ front) : [dot, dot] <:+: front ++ s ↔ [dot, dot] <:+: s := by
  constructor
  · intro hinfix
    obtain ⟨i, hi, hi'⟩ := dots_infix_iff.mp hinfix
    have hle : front.length ≤ i := by
      by_contra hlt
      rw [getElem?_append_left (by omega)] at hi
      exact h (mem_of_getElem? hi)
    rw [getElem?_append_right hle] at hi
    rw [getElem?_append_right (by omega), Nat.sub_add_comm hle] at hi'
    exact dots_infix_iff.mpr ⟨_, hi, hi'⟩
  · intro hinfix
    exact hinfix.trans (suffix_append front s).isInfix

/-- Before an extension the dots are apart exactly when no two dots meet. -/
theorem dots_infix_ext {s letters : Text} (h : dot ∉ letters) :
    [dot, dot] <:+: s ++ dot :: letters ↔ ¬ DotsApart s := by
  constructor
  · intro hinfix hapart
    obtain ⟨i, hi, hi'⟩ := dots_infix_iff.mp hinfix
    rcases Nat.lt_or_ge i s.length with hlt | hge
    · rw [getElem?_append_left hlt] at hi
      obtain ⟨c, hc, hne⟩ := hapart i hi
      have hlt' := (List.getElem?_eq_some_iff.mp hc).1
      rw [getElem?_append_left hlt', hc] at hi'
      exact hne (Option.some.inj hi')
    · -- both characters are in the extension, and its only dot comes first
      rw [getElem?_append_right (by omega), Nat.sub_add_comm hge, getElem?_cons_succ] at hi'
      exact h (mem_of_getElem? hi')
  · intro hnot
    simp only [DotsApart, not_forall] at hnot
    obtain ⟨i, hi, hnext⟩ := hnot
    have hlt := (List.getElem?_eq_some_iff.mp hi).1
    refine dots_infix_iff.mpr ⟨i, by rw [getElem?_append_left hlt, hi], ?_⟩
    cases hs : s[i + 1]? with
    | none =>
      have hlength : i + 1 = s.length := by
        have := getElem?_eq_none_iff.mp hs
        omega
      rw [getElem?_append_right (by omega), hlength]
      simp
    | some c =>
      have hlt' := (List.getElem?_eq_some_iff.mp hs).1
      have hc : c = dot := by
        by_contra hne
        exact hnext ⟨c, hs, hne⟩
      rw [getElem?_append_left hlt', hs, hc]

end Dots

section Agreement

variable {U : Unicode} {O : Outside}
variable {displayName key : Text} {u : Uuid} {maxBytes : ℕ} {data : Bytes} {filename : Option Text} {file : StoredFile}

def keptStem (U : Unicode) (displayName : Text) : Text := (keyStem U (splitext displayName).1).take stemMax

theorem invoiceKey_eq (u : Uuid) (name : Text) :
    invoiceKey u name = invoiceFilePrefix ++ (Uuid.hex u ++ slash :: name) := by
  have hstart : invoiceFilePrefix = text "invoices" ++ [slash] := by decide
  rw [hstart, invoiceKey, joinSegments, joinSegments, joinSegments, append_assoc, singleton_append]
  · simp
  · simp

theorem invoiceKey_dots (u : Uuid) (name : Text) : [dot, dot] <:+: invoiceKey u name ↔ [dot, dot] <:+: name := by
  have hfront : dot ∉ invoiceFilePrefix ++ (Uuid.hex u ++ [slash]) := by
    intro hmem
    rcases mem_append.mp hmem with h | h
    · revert h
      decide
    · rcases mem_append.mp h with h | h
      · have := Uuid.mem_hex h
        simp only [dot] at this
        omega
      · revert h
        decide
  have hsame := dots_infix_append (s := name) hfront
  rw [invoiceKey_eq]
  simpa only [append_assoc, singleton_append] using hsame

theorem key_accepted_iff (hU : Lawful U) (hext : PdfExt (splitext displayName).2) (u : Uuid) :
    (∃ t, validateInvoiceFileToken (invoiceKey u (sanitizeStorageName U (some displayName))) = .ok t) ↔
      DotsApart (keptStem U displayName) := by
  have hstart : ∀ name, invoiceFilePrefix <+: invoiceKey u name := fun name => by
    rw [invoiceKey_eq]
    exact prefix_append _ _
  rw [validateInvoiceFileToken_ok, invoiceKey_dots]
  simp only [hstart, true_and]
  have hname := sanitizeStorageName_pdf hU hext (splitext displayName).1
  rw [splitext_append] at hname
  obtain ⟨letters, hletters, hlength, hl⟩ := hext
  have hdot : dot ∉ letters := fun hmem => by
    have := hl dot hmem
    simp only [dot] at this
    omega
  rw [hname, hletters]
  split
  · next hnil =>
      have hempty : keptStem U displayName = [] := by rw [keptStem, hnil, take_nil]
      rw [hempty]
      refine iff_of_true (fun hinfix => ?_) (fun i hi => by simp at hi)
      obtain ⟨i, hi, _⟩ := dots_infix_iff.mp hinfix
      exact hdot (mem_of_getElem? hi)
  · rw [dots_infix_ext hdot, not_not]
    rfl

theorem storeInvoiceFile_ok {name : Text} (h : storeInvoiceFile O u name = .ok key) : key = invoiceKey u name := by
  unfold storeInvoiceFile at h
  split at h
  · cases h
  · split at h
    · exact (Except.ok.inj h).symm
    · cases h

theorem storedFile_spec (hU : Lawful U) {mime : Text}
    (hcheck : checkInvoiceFile U O maxBytes data filename = .ok (displayName, mime))
    (hstore : storeInvoiceFile O u (sanitizeStorageName U (some displayName)) = .ok key)
    (hfile : (⟨key, displayName, mime⟩ : StoredFile) = file) :
    (∃ t, validateInvoiceFileToken file.fileToken = .ok t) ↔ DotsApart (keptStem U file.fileName) := by
  subst hfile
  rw [storeInvoiceFile_ok hstore]
  exact key_accepted_iff hU (pdf_of_check hU hcheck).2 u

theorem store_accepted_iff (hU : Lawful U) (h : validateScanStore U O maxBytes data filename u = .ok file) :
    (∃ t, validateInvoiceFileToken file.fileToken = .ok t) ↔ DotsApart (keptStem U file.fileName) := by
  simp only [validateScanStore, bind_ok] at h
  obtain ⟨⟨displayName, mime⟩, hcheck, _, _, key, hstore, hfile⟩ := h
  exact storedFile_spec hU hcheck hstore (Except.ok.inj hfile)

theorem parse_accepted_iff (hU : Lawful U) {Parsed : Type} {parse : Bytes → Except Problem Parsed} {parsed : Parsed}
    (h : parseInvoiceFile U O parse maxBytes data filename u = .ok (parsed, file)) :
    (∃ t, validateInvoiceFileToken file.fileToken = .ok t) ↔ DotsApart (keptStem U file.fileName) := by
  simp only [parseInvoiceFile, bind_ok] at h
  obtain ⟨⟨displayName, mime⟩, hcheck, _, _, _, _, key, hstore, hfile⟩ := h
  exact storedFile_spec hU hcheck hstore (Prod.mk.inj (Except.ok.inj hfile)).2

/-- An accepted token is under `invoices/` and has no `..` segment. -/
theorem accepted_token {token t : Text} (h : validateInvoiceFileToken token = .ok t) :
    t = token ∧ invoiceFilePrefix <+: token ∧ text ".." ∉ splitOn slash token := by
  obtain ⟨hstart, hdots⟩ := validateInvoiceFileToken_ok.mp ⟨t, h⟩
  refine ⟨?_, hstart, fun hmem => hdots ?_⟩
  · unfold validateInvoiceFileToken at h
    split at h
    · cases h
    · exact (Except.ok.inj h).symm
  · have htext : text ".." = [dot, dot] := by decide
    exact htext ▸ segment_infix hmem

/-- The token of an upload whose dots are apart can be attached, and no accepted
token leaves `invoices/`. -/
theorem invoice_tokens (hU : Lawful U) :
    (∀ maxBytes data filename u file, validateScanStore U O maxBytes data filename u = .ok file →
      DotsApart (keptStem U file.fileName) → validateInvoiceFileToken file.fileToken = .ok file.fileToken) ∧
    (∀ (Parsed : Type) (parse : Bytes → Except Problem Parsed) maxBytes data filename u parsed file,
      parseInvoiceFile U O parse maxBytes data filename u = .ok (parsed, file) →
        DotsApart (keptStem U file.fileName) → validateInvoiceFileToken file.fileToken = .ok file.fileToken) ∧
    ∀ token t, validateInvoiceFileToken token = .ok t →
      t = token ∧ invoiceFilePrefix <+: token ∧ text ".." ∉ splitOn slash token := by
  refine ⟨?_, ?_, fun token t h => accepted_token h⟩
  · intro maxBytes data filename u file h hdots
    obtain ⟨t, ht⟩ := (store_accepted_iff hU h).mpr hdots
    rw [ht, (accepted_token ht).1]
  · intro Parsed parse maxBytes data filename u parsed file h hdots
    obtain ⟨t, ht⟩ := (parse_accepted_iff hU h).mpr hdots
    rw [ht, (accepted_token ht).1]

theorem asciiUnicode_lawful : Lawful asciiUnicode := ⟨fun _ _ _ => rfl, fun _ _ => rfl, fun _ h => h⟩

def pdfOutside : Outside := ⟨fun _ => pdfMime, fun _ => none, fun _ => .ok (), true, true⟩

def uploadPdf (name : String) : Except Problem StoredFile :=
  validateScanStore asciiUnicode pdfOutside 100 [37] (some (text name)) 7

instance (s : Text) : Decidable (DotsApart s) :=
  decidable_of_iff (∀ i < s.length, s[i]? = some dot → (s[i + 1]?).any (· ≠ dot)) <| by
    constructor
    · intro h i hi
      simpa [Option.any_eq_true] using h i (List.getElem?_eq_some_iff.mp hi).1 hi
    · intro h i _ hi
      simpa [Option.any_eq_true] using h i hi

theorem march_token_attached : ∃ file, uploadPdf "Rechnung 3. Quartal.PDF" = .ok file ∧
    file.fileName = text "Rechnung 3. Quartal.PDF" ∧ DotsApart (keptStem asciiUnicode file.fileName) ∧
    validateInvoiceFileToken file.fileToken = .ok file.fileToken := by
  have hname : (uploadPdf "Rechnung 3. Quartal.PDF").toOption.map (·.fileName) =
      some (text "Rechnung 3. Quartal.PDF") := by decide +kernel
  have hdots : DotsApart (keptStem asciiUnicode (text "Rechnung 3. Quartal.PDF")) := by decide +kernel
  cases hok : uploadPdf "Rechnung 3. Quartal.PDF" with
  | error e => simp [hok, Except.toOption] at hname
  | ok file =>
    have hfile : file.fileName = text "Rechnung 3. Quartal.PDF" := by simpa [hok, Except.toOption] using hname
    exact ⟨file, rfl, hfile, hfile ▸ hdots,
      (invoice_tokens asciiUnicode_lawful).1 _ _ _ _ _ hok (hfile ▸ hdots)⟩

/-- An upload with two dots in its name gives a token that the create refuses, and
a token with the segment `.` is accepted. -/
theorem invoice_token_rules_differ :
    (uploadPdf "a..b.pdf").toOption.map (fun file => (validateInvoiceFileToken file.fileToken).toOption) = some none ∧
      (validateInvoiceFileToken (text "invoices/./a.pdf")).toOption = some (text "invoices/./a.pdf") ∧
      text "." ∈ splitOn slash (text "invoices/./a.pdf") := by
  refine ⟨by decide +kernel, by decide +kernel, by decide⟩

end Agreement

end InvoiceToken
