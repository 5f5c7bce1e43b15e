import StupaWorkflow.Schemas

/-!
The classes of the configuration: the fields of a form, the graph of the flow and the branding of
the site, each with the validators of the source.
-/
namespace Config
open Py Schema List

/-- `I18nMap`: the texts by language. -/
abbrev I18nMap := List (Text × Text)

abbrev i18nMap : Codec I18nMap := .dict id some (fun _ => rfl) .str

instance notNull_i18nMap : Codec.NotNull i18nMap := ⟨fun _ => rfl⟩

section Fields

/-- The lax reads of the validation library and the refusals of its callers. -/
structure Checks where
  lax : Lax
  /-- A float literal above zero. -/
  positive : Text → Bool
  /-- `_redos_prone`. -/
  redosProne : Text → Bool
  /-- `validate_jsonlogic`. -/
  jsonlogic : Members → Bool
  /-- `re.compile`. -/
  compiles : Text → Bool
  /-- `_validate_data_url` with the declared type and the URL. -/
  dataUrl : Text → Text → Bool
  /-- `scan_or_raise` on the bytes of an inline URL. -/
  scanClean : Text → Bool

inductive FieldType where
  | text | textarea | number | currency | date | select | multiselect | gremiumSelect | budgetSelect | email
  | iban | daterange | checkbox | file | table | markdown | computed | positions | funding | section
  deriving DecidableEq

def FieldType.name : FieldType → Text
  | .text => Py.text "text"
  | .textarea => Py.text "textarea"
  | .number => Py.text "number"
  | .currency => Py.text "currency"
  | .date => Py.text "date"
  | .select => Py.text "select"
  | .multiselect => Py.text "multiselect"
  | .gremiumSelect => Py.text "gremium_select"
  | .budgetSelect => Py.text "budget_select"
  | .email => Py.text "email"
  | .iban => Py.text "iban"
  | .daterange => Py.text "daterange"
  | .checkbox => Py.text "checkbox"
  | .file => Py.text "file"
  | .table => Py.text "table"
  | .markdown => Py.text "markdown"
  | .computed => Py.text "computed"
  | .positions => Py.text "positions"
  | .funding => Py.text "funding"
  | .section => Py.text "section"

def FieldType.all : List FieldType :=
  [.text, .textarea, .number, .currency, .date, .select, .multiselect, .gremiumSelect, .budgetSelect, .email, .iban,
    .daterange, .checkbox, .file, .table, .markdown, .computed, .positions, .funding, .section]

theorem FieldType.find_name : ∀ a ∈ FieldType.all, FieldType.all.find? (fun b => b.name = a.name) = some a := by
  decide +kernel

abbrev FieldType.codec : Codec FieldType :=
  .literal FieldType.name FieldType.all fun a => FieldType.find_name a (by cases a <;> decide)

structure FieldOption where
  value : Text
  label : I18nMap
  parentId : Option Text
  key : Option Text
  color : Option Text

structure FieldValidation where
  min : Option Text
  max : Option Text
  minLen : Option ℤ
  maxLen : Option ℤ
  pattern : Option Text
  fileTypes : Option (List Text)
  maxSizeMB : Option Text
  maxRows : Option ℤ
  minOffers : Option ℤ
  minPositions : Option ℤ
  maxPositions : Option ℤ
  maxOffers : Option ℤ
  allowNoOffers : Option Bool

structure FormFieldDef where
  key : Text
  type : FieldType
  label : I18nMap
  help : Option I18nMap
  required : Bool
  validation : Option FieldValidation
  options : Option (List FieldOption)
  visibleIf : Option Members
  compute : Option Members
  isPII : Bool
  isPromoted : Bool
  promoteTarget : Option Text

def FieldOption.fields : Fields (Text × I18nMap × Option Text × Option Text × Option Text × Unit) :=
  .field (text "value") (text "value") none .str <|
  .field (text "label") (text "label") none i18nMap <|
  .field (text "parentId") (text "parent_id") (some none) (.option .str) <|
  .field (text "key") (text "key") (some none) (.option .str) <|
  .field (text "color") (text "color") (some none) (.option .str) <| .nil

def FieldOption.out (o : FieldOption) : Text × I18nMap × Option Text × Option Text × Option Text × Unit :=
  (o.value, o.label, o.parentId, o.key, o.color, ())

def FieldOption.codec : Codec FieldOption :=
  .record FieldOption.fields FieldOption.out (fun ⟨value, label, parentId, key, color, _⟩ => ⟨value, label, parentId, key, color⟩)
    (by decide +kernel) (fun _ => rfl) (fun _ => rfl)

abbrev FieldValidation.Values : Type :=
  Option Text × Option Text × Option ℤ × Option ℤ × Option Text × Option (List Text) × Option Text × Option ℤ ×
    Option ℤ × Option ℤ × Option ℤ × Option ℤ × Option Bool × Unit

variable (C : Checks)

def maxPatternLen : ℕ := 200

/-- `_check_pattern`. -/
def patternOk (pattern : Text) : Bool := decide (pattern.length ≤ maxPatternLen) && !C.redosProne pattern

/-- `int | None` with a lower bound. -/
abbrev boundedInt (low : ℤ) : Codec (Option ℤ) := .option ((Codec.int C.lax).check (low ≤ ·))

def FieldValidation.fields : Fields FieldValidation.Values :=
  .field (text "min") (text "min") (some none) (.option (.float C.lax)) <|
  .field (text "max") (text "max") (some none) (.option (.float C.lax)) <|
  .field (text "minLen") (text "min_len") (some none) (boundedInt C 0) <|
  .field (text "maxLen") (text "max_len") (some none) (boundedInt C 0) <|
  .field (text "pattern") (text "pattern") (some none) (.option (Codec.str.check (patternOk C))) <|
  .field (text "fileTypes") (text "file_types") (some none) (.option (.list .str)) <|
  .field (text "maxSizeMB") (text "max_size_mb") (some none) (.option ((Codec.float C.lax).check C.positive)) <|
  .field (text "maxRows") (text "max_rows") (some none) (boundedInt C 0) <|
  .field (text "minOffers") (text "min_offers") (some none) (boundedInt C 1) <|
  .field (text "minPositions") (text "min_positions") (some none) (boundedInt C 1) <|
  .field (text "maxPositions") (text "max_positions") (some none) (boundedInt C 1) <|
  .field (text "maxOffers") (text "max_offers") (some none) (boundedInt C 1) <|
  .field (text "allowNoOffers") (text "allow_no_offers") (some none) (.option (.bool C.lax)) <| .nil

def FieldValidation.out (v : FieldValidation) : FieldValidation.Values :=
  (v.min, v.max, v.minLen, v.maxLen, v.pattern, v.fileTypes, v.maxSizeMB, v.maxRows, v.minOffers, v.minPositions,
    v.maxPositions, v.maxOffers, v.allowNoOffers, ())

def FieldValidation.make : FieldValidation.Values → FieldValidation :=
  fun ⟨min, max, minLen, maxLen, pattern, fileTypes, maxSizeMB, maxRows, minOffers, minPositions, maxPositions, maxOffers,
    allowNoOffers, _⟩ =>
    { min, max, minLen, maxLen, pattern, fileTypes, maxSizeMB, maxRows, minOffers, minPositions, maxPositions, maxOffers,
      allowNoOffers }

def FieldValidation.codec : Codec FieldValidation :=
  .record (FieldValidation.fields C) FieldValidation.out FieldValidation.make
    (by simp only [FieldValidation.fields, Fields.field, Fields.nil]; decide +kernel) (fun _ => rfl) (fun _ => rfl)

instance : Codec.NotNull (FieldValidation.codec C) := ⟨fun _ => rfl⟩

/-- `KEY_PATTERN`: `^[a-z][a-z0-9_]*$`. -/
def keyOk : Text → Bool
  | [] => false
  | c :: rest => (97 ≤ c && c ≤ 122) && rest.all fun c => (97 ≤ c && c ≤ 122) || isDigit c || c == 95

/-- `_check_promote_and_options`. -/
def FormFieldDef.promoteAndOptionsOk (f : FormFieldDef) : Bool :=
  !(f.isPromoted && !f.promoteTarget.any (· ≠ [])) &&
  !((f.type = .select || f.type = .multiselect) && !f.options.any (!·.isEmpty)) &&
  !(f.type = .computed && f.compute.isNone)

abbrev FormFieldDef.Values : Type :=
  Text × FieldType × I18nMap × Option I18nMap × Bool × Option FieldValidation × Option (List FieldOption) ×
    Option Members × Option Members × Bool × Bool × Option Text × Unit

def FormFieldDef.fields : Fields FormFieldDef.Values :=
  .field (text "key") (text "key") none (Codec.str.check keyOk) <|
  .field (text "type") (text "type") none FieldType.codec <|
  .field (text "label") (text "label") none i18nMap <|
  .field (text "help") (text "help") (some none) (.option i18nMap) <|
  .field (text "required") (text "required") (some false) (.bool C.lax) <|
  .field (text "validation") (text "validation") (some none) (.option (FieldValidation.codec C)) <|
  .field (text "options") (text "options") (some none) (.option (.list FieldOption.codec)) <|
  .field (text "visibleIf") (text "visible_if") (some none) (.option (Codec.object.check C.jsonlogic)) <|
  .field (text "compute") (text "compute") (some none) (.option (Codec.object.check C.jsonlogic)) <|
  .field (text "isPII") (text "is_pii") (some false) (.bool C.lax) <|
  .field (text "isPromoted") (text "is_promoted") (some false) (.bool C.lax) <|
  .field (text "promoteTarget") (text "promote_target") (some none) (.option .str) <| .nil

def FormFieldDef.out (f : FormFieldDef) : FormFieldDef.Values :=
  (f.key, f.type, f.label, f.help, f.required, f.validation, f.options, f.visibleIf, f.compute, f.isPII, f.isPromoted,
    f.promoteTarget, ())

def FormFieldDef.make : FormFieldDef.Values → FormFieldDef :=
  fun ⟨key, type, label, help, required, validation, options, visibleIf, compute, isPII, isPromoted, promoteTarget, _⟩ =>
    { key, type, label, help, required, validation, options, visibleIf, compute, isPII, isPromoted, promoteTarget }

def FormFieldDef.record : Codec FormFieldDef :=
  .record (FormFieldDef.fields C) FormFieldDef.out FormFieldDef.make
    (by simp only [FormFieldDef.fields, Fields.field, Fields.nil]; decide +kernel) (fun _ => rfl) (fun _ => rfl)

def FormFieldDef.codec : Codec FormFieldDef := (FormFieldDef.record C).check FormFieldDef.promoteAndOptionsOk

end Fields

section Graph

variable (C : Checks)

inductive StateKind where
  | normal
  | vote
  deriving DecidableEq

def StateKind.name : StateKind → Text
  | .normal => text "normal"
  | .vote => text "vote"

abbrev StateKind.codec : Codec StateKind :=
  .literal StateKind.name [.normal, .vote] fun a => by cases a <;> decide +kernel

inductive TransitionBranch where
  | pass
  | fail
  deriving DecidableEq

def TransitionBranch.name : TransitionBranch → Text
  | .pass => text "pass"
  | .fail => text "fail"

abbrev TransitionBranch.codec : Codec TransitionBranch :=
  .literal TransitionBranch.name [.pass, .fail] fun a => by cases a <;> decide +kernel

structure StateDef where
  key : Text
  label : I18nMap
  color : Option Text
  editAllowed : Bool
  isInitial : Bool
  isTerminal : Bool
  kind : StateKind
  config : Members

structure TransitionDef where
  source : Text
  target : Text
  label : Option I18nMap
  color : Option Text
  guard : Option Members
  actions : List Members
  order : Option ℤ
  automatic : Bool
  branch : Option TransitionBranch
  requiresAction : Bool

structure FlowGraph where
  states : List StateDef
  transitions : List TransitionDef
  layout : Option Members

abbrev StateDef.Values : Type := Text × I18nMap × Option Text × Bool × Bool × Bool × StateKind × Members × Unit

def StateDef.fields : Fields StateDef.Values :=
  .field (text "key") (text "key") none (Codec.str.check keyOk) <|
  .field (text "label") (text "label") none i18nMap <|
  .field (text "color") (text "color") (some none) (.option .str) <|
  .field (text "editAllowed") (text "edit_allowed") (some true) (.bool C.lax) <|
  .field (text "isInitial") (text "is_initial") (some false) (.bool C.lax) <|
  .field (text "isTerminal") (text "is_terminal") (some false) (.bool C.lax) <|
  .field (text "kind") (text "kind") (some .normal) StateKind.codec <|
  .field (text "config") (text "config") (some []) .object <| .nil

def StateDef.out (s : StateDef) : StateDef.Values :=
  (s.key, s.label, s.color, s.editAllowed, s.isInitial, s.isTerminal, s.kind, s.config, ())

def StateDef.codec : Codec StateDef :=
  .record (StateDef.fields C) StateDef.out
    (fun ⟨key, label, color, editAllowed, isInitial, isTerminal, kind, config, _⟩ =>
      { key, label, color, editAllowed, isInitial, isTerminal, kind, config })
    (by simp only [StateDef.fields, Fields.field, Fields.nil]; decide +kernel) (fun _ => rfl) (fun _ => rfl)

abbrev TransitionDef.Values : Type :=
  Text × Text × Option I18nMap × Option Text × Option Members × List Members × Option ℤ × Bool × Option TransitionBranch ×
    Bool × Unit

def TransitionDef.fields : Fields TransitionDef.Values :=
  .field (text "from") (text "from_") none .str <|
  .field (text "to") (text "to") none .str <|
  .field (text "label") (text "label") (some none) (.option i18nMap) <|
  .field (text "color") (text "color") (some none) (.option .str) <|
  .field (text "guard") (text "guard") (some none) (.option .object) <|
  .field (text "actions") (text "actions") (some []) (.list .object) <|
  .field (text "order") (text "order") (some none) (.option (.int C.lax)) <|
  .field (text "automatic") (text "automatic") (some false) (.bool C.lax) <|
  .field (text "branch") (text "branch") (some none) (.option TransitionBranch.codec) <|
  .field (text "requiresAction") (text "requires_action") (some true) (.bool C.lax) <| .nil

def TransitionDef.out (t : TransitionDef) : TransitionDef.Values :=
  (t.source, t.target, t.label, t.color, t.guard, t.actions, t.order, t.automatic, t.branch, t.requiresAction, ())

def TransitionDef.codec : Codec TransitionDef :=
  .record (TransitionDef.fields C) TransitionDef.out
    (fun ⟨source, target, label, color, guard, actions, order, automatic, branch, requiresAction, _⟩ =>
      { source, target, label, color, guard, actions, order, automatic, branch, requiresAction })
    (by simp only [TransitionDef.fields, Fields.field, Fields.nil]; decide +kernel) (fun _ => rfl) (fun _ => rfl)

abbrev FlowGraph.Values : Type := List StateDef × List TransitionDef × Option Members × Unit

def FlowGraph.fields : Fields FlowGraph.Values :=
  .field (text "states") (text "states") none (.list (StateDef.codec C)) <|
  .field (text "transitions") (text "transitions") (some []) (.list (TransitionDef.codec C)) <|
  .field (text "layout") (text "layout") (some none) (.option .object) <| .nil

def FlowGraph.out (g : FlowGraph) : FlowGraph.Values := (g.states, g.transitions, g.layout, ())

def FlowGraph.codec : Codec FlowGraph :=
  .record (FlowGraph.fields C) FlowGraph.out (fun ⟨states, transitions, layout, _⟩ => { states, transitions, layout })
    (by simp only [FlowGraph.fields, Fields.field, Fields.nil]; decide +kernel) (fun _ => rfl) (fun _ => rfl)

end Graph

section Site

variable (C : Checks)

-- No character beyond the ASCII letters has a lower case that starts an ASCII scheme.
def startsWith (heads : List Text) (s : Text) : Bool := heads.any fun h => h.isPrefixOf s

def allowedLogoMime : List Text :=
  [text "image/png", text "image/jpeg", text "image/webp", text "image/x-icon", text "image/vnd.microsoft.icon"]

def maxLogoBytes : ℤ := 2 * 1024 * 1024

def maxFreetextChars : ℕ := 10000

def maxLabelChars : ℕ := 500

def maxI18nKeyChars : ℕ := 16

def capI18n (limit : ℕ) (value : I18nMap) : Bool :=
  value.all fun m => decide (m.1.length ≤ maxI18nKeyChars) && decide (m.2.length ≤ limit)

@[simp] theorem capI18n_nil (limit : ℕ) : capI18n limit [] = true := rfl

/-- `_reject_unsafe_url`. -/
def safeUrl (url : Text) : Bool :=
  !startsWith [text "javascript:", text "vbscript:", text "data:"] (asciiLower (strip url))

def maxLength (limit : ℕ) (s : Text) : Bool := decide (s.length ≤ limit)

@[simp] theorem maxLength_nil (limit : ℕ) : maxLength limit [] = true := by simp [maxLength]

structure BrandingAsset where
  url : Text
  filename : Text
  mime : Text
  size : ℤ

/-- `_check_url_and_bytes`. -/
def BrandingAsset.urlOk (a : BrandingAsset) : Bool :=
  let raw := strip a.url
  let low := asciiLower raw
  !(decide (text "<svg" <:+: low) || decide (text "image/svg" <:+: low)) &&
    if startsWith [text "data:"] low then C.dataUrl a.mime raw
    else startsWith [text "https://", text "http://", text "/"] low && decide (a.size ≤ maxLogoBytes)

def BrandingAsset.inlineBytes (a : BrandingAsset) : Option Text :=
  let raw := strip a.url
  if startsWith [text "data:"] (asciiLower raw) then some raw else none

def BrandingAsset.fields : Fields (Text × Text × Text × ℤ × Unit) :=
  .field (text "url") (text "url") none .str <|
  .field (text "filename") (text "filename") none (Codec.str.check (maxLength maxLabelChars)) <|
  .field (text "mime") (text "mime") none (Codec.str.check (allowedLogoMime.contains ·)) <|
  .field (text "size") (text "size") none ((Codec.int C.lax).check (0 ≤ ·)) <| .nil

def BrandingAsset.codec : Codec BrandingAsset :=
  (Codec.record (BrandingAsset.fields C) (fun a : BrandingAsset => (a.url, a.filename, a.mime, a.size, ()))
    (fun ⟨url, filename, mime, size, _⟩ => { url, filename, mime, size })
    (by simp only [BrandingAsset.fields, Fields.field, Fields.nil]; decide +kernel) (fun _ => rfl) (fun _ => rfl)).check
    (BrandingAsset.urlOk C)

structure FooterLink where
  label : I18nMap
  url : Text

def FooterLink.fields : Fields (I18nMap × Text × Unit) :=
  .field (text "label") (text "label") (some []) (Codec.check i18nMap (capI18n maxLabelChars)) <|
  .field (text "url") (text "url") none ((Codec.str.check (maxLength 2048)).check safeUrl) <| .nil

def FooterLink.codec : Codec FooterLink :=
  .record FooterLink.fields (fun l : FooterLink => (l.label, l.url, ())) (fun ⟨label, url, _⟩ => { label, url })
    (by decide +kernel) (fun _ => rfl) (fun _ => rfl)

structure SiteFreetexts where
  loginHint : I18nMap
  welcome : I18nMap
  support : I18nMap
  emailFooter : I18nMap
  applyInfo : I18nMap
  submittedInternal : I18nMap
  submittedExternal : I18nMap

abbrev freetext : Codec I18nMap := Codec.check i18nMap (capI18n maxFreetextChars)

def SiteFreetexts.fields : Fields (I18nMap × I18nMap × I18nMap × I18nMap × I18nMap × I18nMap × I18nMap × Unit) :=
  .field (text "loginHint") (text "login_hint") (some []) freetext <|
  .field (text "welcome") (text "welcome") (some []) freetext <|
  .field (text "support") (text "support") (some []) freetext <|
  .field (text "emailFooter") (text "email_footer") (some []) freetext <|
  .field (text "applyInfo") (text "apply_info") (some []) freetext <|
  .field (text "submittedInternal") (text "submitted_internal") (some []) freetext <|
  .field (text "submittedExternal") (text "submitted_external") (some []) freetext <| .nil

def SiteFreetexts.codec : Codec SiteFreetexts :=
  .record SiteFreetexts.fields
    (fun t : SiteFreetexts =>
      (t.loginHint, t.welcome, t.support, t.emailFooter, t.applyInfo, t.submittedInternal, t.submittedExternal, ()))
    (fun ⟨loginHint, welcome, support, emailFooter, applyInfo, submittedInternal, submittedExternal, _⟩ =>
      { loginHint, welcome, support, emailFooter, applyInfo, submittedInternal, submittedExternal })
    (by decide +kernel) (fun _ => rfl) (fun _ => rfl)

def defaultWikiUrl : Text := text "https://wiki.reutlingen.university/books/antragsplattform"

def checkHttpUrl (url : Text) : Option Text :=
  let value := strip url
  if startsWith [text "https://", text "http://"] (asciiLower value) then some value else none

theorem checkHttpUrl_some {url value : Text} (h : checkHttpUrl url = some value) :
    value = strip url ∧ checkHttpUrl value = some value := by
  simp only [checkHttpUrl, Option.ite_none_right_eq_some, Option.some_inj] at h ⊢
  obtain ⟨hscheme, rfl⟩ := h
  have hidem : strip (strip url) = strip url := stripWith_idem _ url
  rw [hidem]
  exact ⟨rfl, hscheme, rfl⟩

structure HelpSettings where
  wikiUrl : Text

/-- `wikiUrl`: at most 2048 characters, stripped and http(s). -/
def wikiUrlCodec : Codec Text :=
  (Codec.str.check (maxLength 2048)).convert checkHttpUrl fun {url value} hurl h => by
    obtain ⟨rfl, hvalue⟩ := checkHttpUrl_some h
    have hlength := stripWith_length_le Py.isSpace url
    have hmax : url.length ≤ 2048 := of_decide_eq_true hurl.2
    exact ⟨⟨trivial, decide_eq_true (hlength.trans hmax)⟩, hvalue⟩

theorem defaultWikiUrl_valid : wikiUrlCodec.Valid defaultWikiUrl := by
  refine ⟨⟨trivial, ?_⟩, ?_⟩
  · decide +kernel
  · decide +kernel

def HelpSettings.fields : Fields (Text × Unit) :=
  .field (text "wikiUrl") (text "wiki_url") (some defaultWikiUrl) wikiUrlCodec .nil (by simp [defaultWikiUrl_valid])

def HelpSettings.codec : Codec HelpSettings :=
  .record HelpSettings.fields (fun h : HelpSettings => (h.wikiUrl, ())) (fun ⟨wikiUrl, _⟩ => { wikiUrl })
    (by decide +kernel) (fun _ => rfl) (fun _ => rfl)

structure TicketSettings where
  publicEnabled : Bool
  notifyNew : Bool
  retentionMonths : Option ℤ

def TicketSettings.fields : Fields (Bool × Bool × Option ℤ × Unit) :=
  .field (text "publicEnabled") (text "public_enabled") (some true) (.bool C.lax) <|
  .field (text "notifyNew") (text "notify_new") (some true) (.bool C.lax) <|
  .field (text "retentionMonths") (text "retention_months") (some (some 12))
    (.option ((Codec.int C.lax).check fun m => decide (1 ≤ m) && decide (m ≤ 120))) .nil

def TicketSettings.codec : Codec TicketSettings :=
  .record (TicketSettings.fields C) (fun t : TicketSettings => (t.publicEnabled, t.notifyNew, t.retentionMonths, ()))
    (fun ⟨publicEnabled, notifyNew, retentionMonths, _⟩ => { publicEnabled, notifyNew, retentionMonths })
    (by simp only [TicketSettings.fields, Fields.field, Fields.nil]; decide +kernel) (fun _ => rfl) (fun _ => rfl)

inductive LogoSlot where
  | wordmark
  | imagemark
  | favicon
  deriving DecidableEq

def LogoSlot.name : LogoSlot → Text
  | .wordmark => text "wordmark"
  | .imagemark => text "imagemark"
  | .favicon => text "favicon"

def LogoSlot.ofName (s : Text) : Option LogoSlot := [LogoSlot.wordmark, .imagemark, .favicon].find? fun l => l.name = s

theorem LogoSlot.ofName_name (l : LogoSlot) : LogoSlot.ofName l.name = some l := by
  cases l <;> decide +kernel

def isHexDigit (c : ℕ) : Bool := isDigit c || (97 ≤ c && c ≤ 102) || (65 ≤ c && c ≤ 70)

/-- `ACCENT_PATTERN`: `^#[0-9a-fA-F]{6}$`. -/
def accentOk : Text → Bool
  | 35 :: digits => digits.length == 6 && digits.all isHexDigit
  | _ => false

theorem asciiLower_idem (s : Text) : asciiLower (asciiLower s) = asciiLower s := by
  rw [asciiLower, asciiLower, map_map]
  refine map_congr_left fun c _ => ?_
  simp only [Function.comp_apply, Bool.and_eq_true, decide_eq_true_eq]
  split
  · split <;> omega
  · rfl

theorem accentOk_asciiLower {s : Text} (h : accentOk s = true) : accentOk (asciiLower s) = true := by
  match s with
  | 35 :: digits =>
    simp only [accentOk, Bool.and_eq_true, beq_iff_eq, all_eq_true] at h
    have hdigits : ∀ c ∈ asciiLower digits, isHexDigit c = true := by
      intro c hc
      obtain ⟨x, hx, rfl⟩ := mem_map.mp hc
      have hhex := h.2 x hx
      simp only [isHexDigit, isDigit, Bool.or_eq_true, Bool.and_eq_true, decide_eq_true_eq] at hhex ⊢
      split <;> omega
    show ((asciiLower digits).length == 6 && (asciiLower digits).all isHexDigit) = true
    rw [all_eq_true.mpr hdigits, asciiLower, length_map, h.1]
    rfl

/-- `accentColor`: the pattern, in lower case. -/
def accentCodec : Codec Text :=
  (Codec.str.check accentOk).convert (fun v => some (asciiLower v)) fun {v low} hv h => by
    cases h
    exact ⟨⟨trivial, accentOk_asciiLower hv.2⟩, by rw [asciiLower_idem]⟩

instance : Codec.NotNull accentCodec := ⟨fun _ => rfl⟩

structure Branding where
  appName : Text
  appShortName : Text
  logos : List (LogoSlot × BrandingAsset)
  copyright : I18nMap
  legalLinks : List FooterLink
  freetexts : SiteFreetexts
  gravatarEnabled : Bool
  accentColor : Option Text
  help : HelpSettings
  tickets : TicketSettings

abbrev Branding.Values : Type :=
  Text × Text × List (LogoSlot × BrandingAsset) × I18nMap × List FooterLink × SiteFreetexts × Bool × Option Text ×
    HelpSettings × TicketSettings × Unit

/-- `Branding()`. -/
def Branding.default : Branding where
  appName := []
  appShortName := []
  logos := []
  copyright := []
  legalLinks := []
  freetexts := ⟨[], [], [], [], [], [], []⟩
  gravatarEnabled := true
  accentColor := none
  help := ⟨defaultWikiUrl⟩
  tickets := ⟨true, true, some 12⟩

@[simp] theorem defaultFreetexts_valid : SiteFreetexts.codec.Valid Branding.default.freetexts := by
  have hempty : freetext.Valid [] := ⟨by simp, capI18n_nil _⟩
  exact ⟨hempty, hempty, hempty, hempty, hempty, hempty, hempty, trivial⟩

@[simp] theorem defaultHelp_valid : HelpSettings.codec.Valid Branding.default.help := ⟨defaultWikiUrl_valid, trivial⟩

@[simp] theorem defaultTickets_valid : (TicketSettings.codec C).Valid Branding.default.tickets := by
  refine ⟨trivial, trivial, ?_, trivial⟩
  simp [Branding.default]

def Branding.fields : Fields Branding.Values :=
  .field (text "appName") (text "app_name") (some []) (Codec.str.check (maxLength maxLabelChars)) <|
  .field (text "appShortName") (text "app_short_name") (some []) (Codec.str.check (maxLength maxLabelChars)) <|
  .field (text "logos") (text "logos") (some [])
    (.dict LogoSlot.name LogoSlot.ofName LogoSlot.ofName_name (BrandingAsset.codec C)) <|
  .field (text "copyright") (text "copyright") (some []) (Codec.check i18nMap (capI18n maxLabelChars)) <|
  .field (text "legalLinks") (text "legal_links") (some [])
    ((Codec.list FooterLink.codec).check fun links => decide (links.length ≤ 50)) <|
  .field (text "freetexts") (text "freetexts") (some Branding.default.freetexts) SiteFreetexts.codec <|
  .field (text "gravatarEnabled") (text "gravatar_enabled") (some true) (.bool C.lax) <|
  .field (text "accentColor") (text "accent_color") (some none) (.option accentCodec) <|
  .field (text "help") (text "help") (some Branding.default.help) HelpSettings.codec <|
  .field (text "tickets") (text "tickets") (some Branding.default.tickets) (TicketSettings.codec C) <| .nil

def Branding.out (b : Branding) : Branding.Values :=
  (b.appName, b.appShortName, b.logos, b.copyright, b.legalLinks, b.freetexts, b.gravatarEnabled, b.accentColor, b.help,
    b.tickets, ())

def Branding.record : Codec Branding :=
  .record (Branding.fields C) Branding.out
    (fun ⟨appName, appShortName, logos, copyright, legalLinks, freetexts, gravatarEnabled, accentColor, help, tickets, _⟩ =>
      { appName, appShortName, logos, copyright, legalLinks, freetexts, gravatarEnabled, accentColor, help, tickets })
    (by simp only [Branding.fields, Fields.field, Fields.nil]; decide +kernel) (fun _ => rfl) (fun _ => rfl)

def dropFooterColumns : Json → Json
  | .obj ms => .obj (ms.filter fun m => m.1 ≠ text "footerColumns" && m.1 ≠ text "footer_columns")
  | j => j

def Branding.codec : Codec Branding :=
  (Branding.record C).before dropFooterColumns fun b => by
    refine congrArg Json.obj (filter_eq_self.mpr fun m hm => ?_)
    have hkey : m.1 ∈ (Branding.fields C).names.map Prod.fst := (Branding.fields C).dump_keys b.out ▸ mem_map_of_mem hm
    have hall : ∀ k ∈ (Branding.fields C).names.map Prod.fst,
        (decide (k ≠ text "footerColumns") && decide (k ≠ text "footer_columns")) = true := by
      simp only [Branding.fields, Fields.field, Fields.nil]
      decide +kernel
    exact hall m.1 hkey

end Site

end Config
