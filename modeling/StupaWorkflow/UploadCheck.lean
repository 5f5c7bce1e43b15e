import StupaWorkflow.Filenames

/-!
The checks that every upload shares: the sniffed type, the extension and the
structure of an Office document. What libmagic, `zipfile`, ClamAV and the store
answer is a parameter.
-/
namespace Uploads
open Py Filenames

inductive Problem where
  | payloadTooLarge (message : Text)
  | unsupportedMediaType (message : Text)
  | serviceUnavailable (message : Text)
  | validation (message : Text)
  deriving DecidableEq

abbrev Bytes := List ℕ

/-- What the upload asks of libmagic, of `zipfile`, of ClamAV and of the store. -/
structure Outside where
  sniff : Bytes → Text
  zipNames : Bytes → Option (List Text)
  scan : Bytes → Except Problem Unit
  storage : Bool
  putWorks : Bool

section Mime

def pdfMime : Text := text "application/pdf"
def zipMime : Text := text "application/zip"

def allowedMimeTypes : List Text :=
  [pdfMime, text "image/png", text "image/jpeg", text "image/gif", text "image/webp", zipMime,
   text "application/msword", text "application/vnd.openxmlformats-officedocument.wordprocessingml.document",
   text "application/vnd.ms-excel", text "application/vnd.openxmlformats-officedocument.spreadsheetml.sheet",
   text "application/vnd.ms-powerpoint",
   text "application/vnd.openxmlformats-officedocument.presentationml.presentation",
   text "application/vnd.oasis.opendocument.text", text "application/vnd.oasis.opendocument.spreadsheet",
   text "application/vnd.oasis.opendocument.presentation"]

def extToMime : List (Text × List Text) :=
  [(text ".pdf", [pdfMime]), (text ".png", [text "image/png"]), (text ".jpg", [text "image/jpeg"]),
   (text ".jpeg", [text "image/jpeg"]), (text ".gif", [text "image/gif"]), (text ".webp", [text "image/webp"]),
   (text ".doc", [text "application/msword"]),
   (text ".docx", [text "application/vnd.openxmlformats-officedocument.wordprocessingml.document", zipMime]),
   (text ".xls", [text "application/vnd.ms-excel"]),
   (text ".xlsx", [text "application/vnd.openxmlformats-officedocument.spreadsheetml.sheet", zipMime]),
   (text ".ppt", [text "application/vnd.ms-powerpoint"]),
   (text ".pptx", [text "application/vnd.openxmlformats-officedocument.presentationml.presentation", zipMime]),
   (text ".odt", [text "application/vnd.oasis.opendocument.text"]),
   (text ".ods", [text "application/vnd.oasis.opendocument.spreadsheet"]),
   (text ".odp", [text "application/vnd.oasis.opendocument.presentation"])]

def ooxmlRequiredDir : List (Text × Text) :=
  [(text ".docx", text "word/"), (text ".xlsx", text "xl/"), (text ".pptx", text "ppt/")]

variable (U : Unicode) (O : Outside)

def fileExtension (filename : Text) : Text := if filename = [] then [] else U.lower (splitext filename).2

def sniffMime (data : Bytes) : Text := if data = [] then text "application/x-empty" else O.sniff data

def isOoxmlContainer (data : Bytes) (ext : Text) : Bool :=
  match ooxmlRequiredDir.lookup ext, O.zipNames data with
  | some dir, some names => names.contains (text "[Content_Types].xml") && names.any dir.isPrefixOf
  | _, _ => false

/-- `validate_upload`; the message of the `MimeRejected` is the problem of the request. -/
def validateUpload (filename : Text) (data : Bytes) : Except Text Text :=
  let sniffed := sniffMime O data
  let ext := fileExtension U filename
  if sniffed ∉ allowedMimeTypes then .error (text "File type not allowed: " ++ sniffed)
  else match extToMime.lookup ext with
    | none => .error (text "Unsupported file extension: " ++ if ext = [] then text "(none)" else ext)
    | some allowed =>
      if sniffed ∉ allowed then
        .error (text "Content type '" ++ sniffed ++ text "' does not match extension '" ++ ext ++ text "'.")
      else if sniffed = zipMime && !isOoxmlContainer O data ext then
        .error (text "File claims extension '" ++ ext ++ text "' but is not a valid OOXML document.")
      else .ok sniffed

variable {U O}

theorem validateUpload_ok {filename mime : Text} {data : Bytes} (h : validateUpload U O filename data = .ok mime) :
    ∃ allowed, (fileExtension U filename, allowed) ∈ extToMime ∧ mime ∈ allowed := by
  unfold validateUpload at h
  simp only at h
  split at h
  · cases h
  · split at h
    · cases h
    · next allowed hlookup =>
        split at h
        · cases h
        · next hmem =>
            split at h
            · cases h
            · obtain rfl := Except.ok.inj h
              obtain ⟨front, back, heq, _⟩ := List.lookup_eq_some_iff.mp hlookup
              exact ⟨allowed, by simp [heq], not_not.mp hmem⟩

end Mime

end Uploads
