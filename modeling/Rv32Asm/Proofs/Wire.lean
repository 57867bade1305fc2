import Rv32Asm.Editor.Message
import Rv32Asm.Proofs.Reading

/-!
What the messages of an editor say.

Each method that is about a document has parameters of a fixed shape. Parameters of that shape say
what is found at a few paths in them, and all others are refused.
-/

set_option autoImplicit false
set_option relaxedAutoImplicit false

namespace Rv32Asm.Editor

open Rv32Asm.Json
open Rv32Asm.Json.Update
open Rv32Asm.Outcome

structure Form where
  shape : Shape
  call : Json → Call

namespace Form

def text : Shape := .leaf text?

def word : Shape := .leaf word?

def identifier : Shape := .record [("uri", text)]

def opened : Form where
  shape := .record [("textDocument", .record
    [("uri", text), ("languageId", text), ("version", word), ("text", text)])]
  call j := .opened (j.textAt ["textDocument", "uri"]) (j.wordAt ["textDocument", "version"])
    (j.textAt ["textDocument", "text"])

def closed : Form where
  shape := .record [("textDocument", identifier)]
  call j := .closed (j.textAt ["textDocument", "uri"])

def changed : Form where
  shape := .record [("textDocument", .record [("uri", text), ("version", word)]),
    ("contentChanges", .list (.record [("text", text)]))]
  call j := .changed (j.textAt ["textDocument", "uri"]) (j.wordAt ["textDocument", "version"])
    ((listOf text? ["text"] "" (j.valuesAt ["contentChanges"]) none).getD [])

def diagnose : Form where
  shape := .record [("textDocument", identifier)]
  call j := .diagnose (j.textAt ["textDocument", "uri"])

def saving : Form where
  shape := .record [("textDocument", identifier), ("reason", word)]
  call j := .saving (j.textAt ["textDocument", "uri"])

def hover : Form where
  shape := .record [("textDocument", identifier),
    ("position", .record [("line", word), ("character", word)])]
  call j := .hover (j.textAt ["textDocument", "uri"]) (j.wordAt ["position", "line"])
    (j.wordAt ["position", "character"])

end Form

def forms : List (String × Form) :=
  [("textDocument/didOpen", .opened), ("textDocument/didClose", .closed),
   ("textDocument/didChange", .changed), ("textDocument/diagnostic", .diagnose),
   ("textDocument/willSaveWaitUntil", .saving), ("textDocument/hover", .hover)]

namespace Incoming

/-- The message is about a document, and its parameters say so. -/
def Means (m : Incoming) (call : Call) : Prop :=
  ∃ form params, (m.method, form) ∈ forms ∧ m.params = some params ∧ form.shape params ∧
    call = form.call params

/-- The message would be about a document if its parameters were of the right shape. -/
def Malformed (m : Incoming) : Prop :=
  ∃ form, (m.method, form) ∈ forms ∧ ∀ params, m.params = some params → ¬ form.shape params

end Incoming

section Leaves

theorem accepts_text (type : String) : Accepts (.text type) Form.text :=
  (isLeaf_text type).accepts

theorem accepts_integer : Accepts .integer Form.word :=
  isLeaf_integer.accepts

theorem accepts_identifier : Accepts identifierUpdate Form.identifier :=
  (accepts_text _).only

theorem carries_identifier : Carries identifierUpdate id uriUpdate (valuesAt ["uri"]) :=
  (carries_self _).only

end Leaves

/-! Documents with their texts -/

section Opened

theorem apart_item : Apart ["uri", "languageId", "version", "text"] := by decide +kernel

theorem accepts_open : Accepts openUpdate Form.opened.shape := by
  have item : Accepts DocumentItem.update (.record [("uri", Form.text), ("languageId", Form.text),
      ("version", Form.word), ("text", Form.text)]) := by
    refine .record apart_item (.cons ⟨rfl, ?_⟩ (.cons ⟨rfl, ?_⟩ (.cons ⟨rfl, ?_⟩
      (.cons ⟨rfl, ?_⟩ .nil))))
    · exact (accepts_text _).lens
    · exact (accepts_text _).lens
    · exact accepts_integer.lens
    · exact (accepts_text _).lens
  exact item.only

theorem carries_open_uri :
    Carries openUpdate DocumentItem.uri uriUpdate (valuesAt ["textDocument", "uri"]) := by
  refine Carries.only (Owns.carriesAt apart_item (.here ?_ ?_) rfl)
  · exact (carries_self _).lens fun _ _ => rfl
  · simp [keeps_lens]

theorem carries_open_version :
    Carries openUpdate DocumentItem.version .integer (valuesAt ["textDocument", "version"]) := by
  refine Carries.only (Owns.carriesAt apart_item (.there ?_ (.there ?_ (.here ?_ ?_))) rfl)
  · exact keeps_lens fun _ _ => rfl
  · exact keeps_lens fun _ _ => rfl
  · exact (carries_self _).lens fun _ _ => rfl
  · simp [keeps_lens]

theorem carries_open_text :
    Carries openUpdate DocumentItem.text textUpdate (valuesAt ["textDocument", "text"]) := by
  refine Carries.only
    (Owns.carriesAt apart_item (.there ?_ (.there ?_ (.there ?_ (.here ?_ (by simp))))) rfl)
  · exact keeps_lens fun _ _ => rfl
  · exact keeps_lens fun _ _ => rfl
  · exact keeps_lens fun _ _ => rfl
  · exact (carries_self _).lens fun _ _ => rfl

theorem opened_of_open {j : Json} {d : DocumentItem} (read : openUpdate.run j {} = .ok d) :
    .opened d.uri d.version d.text = Form.opened.call j := by
  rw [carries_open_uri.eq_lastOf (isLeaf_text _) read,
    carries_open_version.eq_lastOf isLeaf_integer read,
    carries_open_text.eq_lastOf (isLeaf_text _) read]
  rfl

end Opened

/-! Texts that have changed -/

section Changed

theorem apart_versioned : Apart ["uri", "version"] := by decide +kernel

theorem apart_change : Apart ["textDocument", "contentChanges"] := by decide +kernel

theorem accepts_change : Accepts ChangeParams.update Form.changed.shape := by
  have versioned :
      Accepts versionedUpdate (.record [("uri", Form.text), ("version", Form.word)]) := by
    refine .record apart_versioned (.cons ⟨rfl, ?_⟩ (.cons ⟨rfl, ?_⟩ .nil))
    · exact (accepts_text _).lens
    · exact accepts_integer.lens
  have text : Accepts changedTextUpdate (.record [("text", Form.text)]) := (accepts_text _).only
  refine .record apart_change (.cons ⟨rfl, ?_⟩ (.cons ⟨rfl, ?_⟩ .nil))
  · exact versioned.lens
  · exact text.list.lens

theorem carries_change {β : Type} {field : ChangeParams → β} {leaf : Update β} {path : List String}
    (versioned : Carries versionedUpdate field leaf (valuesAt path))
    (apart : ∀ p texts, field { p with texts } = field p) :
    Carries ChangeParams.update field leaf (valuesAt ("textDocument" :: path)) := by
  refine Owns.carriesAt apart_change (.here ?_ ?_) rfl
  · exact versioned.lens fun _ _ => rfl
  · simpa using keeps_lens apart

theorem carries_change_uri :
    Carries ChangeParams.update ChangeParams.uri uriUpdate (valuesAt ["textDocument", "uri"]) := by
  refine carries_change (Owns.carriesAt apart_versioned (.here ?_ ?_) rfl)
    fun _ _ => rfl
  · exact (carries_self _).lens fun _ _ => rfl
  · simp [keeps_lens]

theorem carries_change_version :
    Carries ChangeParams.update ChangeParams.version .integer
      (valuesAt ["textDocument", "version"]) := by
  refine carries_change
    (Owns.carriesAt apart_versioned (.there ?_ (.here ?_ (by simp))) rfl)
    fun _ _ => rfl
  · exact keeps_lens fun _ _ => rfl
  · exact (carries_self _).lens fun _ _ => rfl

theorem carries_change_texts :
    Carries ChangeParams.update ChangeParams.texts
      (.list "[]languageServer.TextDocumentContentChangeEvent" "" changedTextUpdate)
      (valuesAt ["contentChanges"]) := by
  have versioned : Keeps versionedUpdate ChangeParams.texts :=
    .record apart_versioned (by simp [keeps_lens])
  refine Owns.carriesAt apart_change (.there ?_ (.here ?_ (by simp))) rfl
  · exact versioned.lens fun _ _ => rfl
  · exact (carries_self _).lens fun _ _ => rfl

theorem readsAt_changedText : ReadsAt changedTextUpdate text? ["text"] :=
  (isLeaf_text "string").readsAt (carries_self _).only

theorem changed_of_change {j : Json} {p : ChangeParams}
    (read : ChangeParams.update.run j {} = .ok p) :
    .changed p.uri p.version (p.texts.toList?.getD []) = Form.changed.call j := by
  rw [carries_change_uri.eq_lastOf (isLeaf_text _) read,
    carries_change_version.eq_lastOf isLeaf_integer read,
    toList?_of_reads readsAt_changedText rfl (carries_change_texts _ _ _ _ read)]
  rfl

end Changed

/-! Documents that are named and nothing more, or with a reason or a place -/

section Named

theorem accepts_close : Accepts closeUpdate Form.closed.shape :=
  accepts_identifier.only

theorem closed_of_close {j : Json} {uri : Uri} (read : closeUpdate.run j "" = .ok uri) :
    .closed uri = Form.closed.call j := by
  have carries : Carries closeUpdate id uriUpdate (valuesAt ["textDocument", "uri"]) :=
    carries_identifier.only
  exact congrArg Call.closed (carries.eq_lastOf (isLeaf_text _) read)

theorem accepts_diagnostic : Accepts diagnosticUpdate Form.diagnose.shape :=
  accepts_identifier.only

theorem diagnose_of_diagnostic {j : Json} {uri : Uri} (read : diagnosticUpdate.run j "" = .ok uri) :
    .diagnose uri = Form.diagnose.call j := by
  have carries : Carries diagnosticUpdate id uriUpdate (valuesAt ["textDocument", "uri"]) :=
    carries_identifier.only
  exact congrArg Call.diagnose (carries.eq_lastOf (isLeaf_text _) read)

theorem apart_save : Apart ["textDocument", "reason"] := by decide +kernel

theorem accepts_save : Accepts SaveParams.update Form.saving.shape := by
  refine .record apart_save (.cons ⟨rfl, ?_⟩ (.cons ⟨rfl, ?_⟩ .nil))
  · exact accepts_identifier.lens
  · exact accepts_integer.lens

theorem saving_of_save {j : Json} {p : SaveParams} (read : SaveParams.update.run j {} = .ok p) :
    .saving p.uri = Form.saving.call j := by
  have carries : Carries SaveParams.update SaveParams.uri uriUpdate
      (valuesAt ["textDocument", "uri"]) := by
    refine Owns.carriesAt apart_save (.here ?_ ?_) rfl
    · exact carries_identifier.lens fun _ _ => rfl
    · simp [keeps_lens]
  exact congrArg Call.saving (carries.eq_lastOf (isLeaf_text _) read)

theorem apart_place : Apart ["textDocument", "position"] := by decide +kernel

theorem apart_position : Apart ["line", "character"] := by decide +kernel

theorem accepts_place : Accepts PlaceParams.update Form.hover.shape := by
  have position :
      Accepts positionUpdate (.record [("line", Form.word), ("character", Form.word)]) := by
    refine .record apart_position (.cons ⟨rfl, ?_⟩ (.cons ⟨rfl, ?_⟩ .nil))
    · exact accepts_integer.lens
    · exact accepts_integer.lens
  refine .record apart_place (.cons ⟨rfl, ?_⟩ (.cons ⟨rfl, ?_⟩ .nil))
  · exact accepts_identifier.lens
  · exact position.lens

theorem carries_place {field : PlaceParams → Int} {path : List String}
    (position : Carries positionUpdate field .integer (valuesAt path))
    (apart : ∀ p uri, field { p with uri } = field p) :
    Carries PlaceParams.update field .integer (valuesAt ("position" :: path)) := by
  refine Owns.carriesAt apart_place (.there ?_ (.here ?_ (by simp))) rfl
  · exact keeps_lens apart
  · exact position.lens fun _ _ => rfl

theorem hover_of_place {j : Json} {p : PlaceParams} (read : PlaceParams.update.run j {} = .ok p) :
    .hover p.uri p.line p.char = Form.hover.call j := by
  have kept : Keeps positionUpdate PlaceParams.uri :=
    .record apart_position (by simp [keeps_lens])
  have uri : Carries PlaceParams.update PlaceParams.uri uriUpdate
      (valuesAt ["textDocument", "uri"]) := by
    refine Owns.carriesAt apart_place (.here ?_ ?_) rfl
    · exact carries_identifier.lens fun _ _ => rfl
    · simp only [List.mem_singleton, forall_eq]
      exact kept.lens fun _ _ => rfl
  have line : Carries positionUpdate PlaceParams.line .integer (valuesAt ["line"]) := by
    refine Owns.carriesAt apart_position (.here ?_ ?_) rfl
    · exact (carries_self _).lens fun _ _ => rfl
    · simp [keeps_lens]
  have char : Carries positionUpdate PlaceParams.char .integer (valuesAt ["character"]) := by
    refine Owns.carriesAt apart_position (.there ?_ (.here ?_ (by simp))) rfl
    · exact keeps_lens fun _ _ => rfl
    · exact (carries_self _).lens fun _ _ => rfl
  rw [uri.eq_lastOf (isLeaf_text _) read,
    (carries_place line fun _ _ => rfl).eq_lastOf isLeaf_integer read,
    (carries_place char fun _ _ => rfl).eq_lastOf isLeaf_integer read]
  rfl

end Named

/-! The switch over the methods -/

/-- What reading a message gives: what its parameters say if they are of the right shape, and a
fault if they are of another or missing. -/
structure Form.Describes (form : Form) (m : Incoming) (result : Except ParamFault Call) : Prop where
  fits : ∀ params, m.params = some params → form.shape params → result = .ok (form.call params)
  fails : (∀ params, m.params = some params → ¬ form.shape params) → ∃ fault, result = .error fault

theorem Form.describes_read {α : Type} {form : Form} {u : Update α} {zero : α} {f : α → Call}
    (accepts : Accepts u form.shape)
    (means : ∀ {params new}, u.run params zero = .ok new → f new = form.call params)
    (m : Incoming) :
    form.Describes m ((m.read u zero).map f) where
  fits params given shape := by
    obtain ⟨new, read⟩ := (accepts none params zero).mpr shape
    have done : m.read u zero = .ok new := by
      simp only [Incoming.read, given, mapError_eq_ok_iff]
      exact read
    rw [done, ← means read]
    rfl
  fails wrong := by
    cases given : m.params with
    | none => exact ⟨.missing, by simp [Incoming.read, given, Except.map]⟩
    | some params =>
      cases read : u.run params zero with
      | ok new => exact absurd ((accepts none params zero).mp ⟨new, read⟩) (wrong params given)
      | error e =>
        exact ⟨.mismatch e, by simp [Incoming.read, given, read, Except.map, Except.mapError]⟩

namespace Incoming

theorem describes_call {m : Incoming} {form : Form} (known : (m.method, form) ∈ forms) :
    form.Describes m m.call := by
  unfold Incoming.call
  simp only [forms, List.mem_cons, Prod.mk.injEq, List.not_mem_nil, or_false] at known
  rcases known with ⟨method, rfl⟩ | ⟨method, rfl⟩ | ⟨method, rfl⟩ | ⟨method, rfl⟩ | ⟨method, rfl⟩ |
    ⟨method, rfl⟩ <;> rw [method]
  · exact Form.describes_read accepts_open opened_of_open m
  · exact Form.describes_read accepts_close closed_of_close m
  · exact Form.describes_read accepts_change changed_of_change m
  · exact Form.describes_read accepts_diagnostic diagnose_of_diagnostic m
  · exact Form.describes_read accepts_save saving_of_save m
  · exact Form.describes_read accepts_place hover_of_place m

theorem Means.call_eq {m : Incoming} {call : Call} (means : m.Means call) : m.call = .ok call := by
  obtain ⟨form, params, known, given, shape, rfl⟩ := means
  exact (describes_call known).fits params given shape

theorem Malformed.call_eq {m : Incoming} (malformed : m.Malformed) :
    ∃ fault, m.call = .error fault := by
  obtain ⟨form, known, wrong⟩ := malformed
  exact (describes_call known).fails wrong

theorem means_of_call {m : Incoming} {form : Form} {call : Call} (known : (m.method, form) ∈ forms)
    (read : m.call = .ok call) : m.Means call := by
  by_cases fits : ∃ params, m.params = some params ∧ form.shape params
  · obtain ⟨params, given, shape⟩ := fits
    have same := (describes_call known).fits params given shape
    exact ⟨form, params, known, given, shape, Except.ok.inj (read.symm.trans same)⟩
  · have wrong : ∀ params, m.params = some params → ¬ form.shape params := by
      intro params given shape
      exact fits ⟨params, given, shape⟩
    obtain ⟨fault, failed⟩ := (describes_call known).fails wrong
    exact nomatch read.symm.trans failed

theorem malformed_of_call {m : Incoming} {form : Form} (known : (m.method, form) ∈ forms)
    (failed : m.call.toOption = none) : m.Malformed := by
  refine ⟨form, known, ?_⟩
  intro params given shape
  rw [(describes_call known).fits params given shape] at failed
  exact nomatch failed

theorem call_of_other {m : Incoming} (other : ∀ form, (m.method, form) ∉ forms) {call : Call}
    (read : m.call = .ok call) :
    (∃ client, call = .start client) ∨ call ∈ [.started, .shutdown, .exit, .unknown] := by
  unfold Incoming.call at read
  split at read
  case h_1 =>
    obtain ⟨params, _, rfl⟩ := map_eq_ok_iff.mp read
    exact .inl ⟨params.client, rfl⟩
  case h_3 method => exact absurd (by simp [method, forms]) (other .opened)
  case h_4 method => exact absurd (by simp [method, forms]) (other .closed)
  case h_5 method => exact absurd (by simp [method, forms]) (other .changed)
  case h_6 method => exact absurd (by simp [method, forms]) (other .diagnose)
  case h_7 method => exact absurd (by simp [method, forms]) (other .saving)
  case h_8 method => exact absurd (by simp [method, forms]) (other .hover)
  all_goals
    obtain rfl := Except.ok.inj read
    exact .inr (by simp)

end Incoming

end Rv32Asm.Editor
