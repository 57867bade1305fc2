import Mathlib.Data.List.Induction
import Mathlib.Logic.Function.Basic
import Rv32Asm.Editor.Session
import Rv32Asm.Proofs.Wire

/-!
A session is a map from names to texts.

Messages that open, change or close a document revise this map, and no others do. The session keeps
with each text the program of that text, so that what it says about a document depends on the
document's text and on nothing that was said about other documents.
-/

set_option autoImplicit false
set_option relaxedAutoImplicit false

namespace Rv32Asm.Editor

open Rv32Asm.Text

namespace Documents

theorem find?_erase (docs : Documents) (uri other : Uri) :
    (docs.erase uri).find? other = if other = uri then none else docs.find? other := by
  induction docs with
  | nil => simp [erase, find?]
  | cons entry docs ih =>
    obtain ⟨name, doc⟩ := entry
    simp only [erase, find?] at ih ⊢
    by_cases erased : name = uri
    · rw [List.filter_cons_of_neg (by simp [erased]), ih]
      by_cases same : other = uri
      · rw [if_pos same, if_pos same]
      · have skipped : (other == name) = false := by simp [erased, same]
        rw [if_neg same, if_neg same, List.lookup_cons, skipped]
    · rw [List.filter_cons_of_pos (by simp [erased]), List.lookup_cons, List.lookup_cons, ih]
      by_cases found : other = name
      · simp [found, erased]
      · have skipped : (other == name) = false := by simp [found]
        rw [skipped]

theorem find?_insert (docs : Documents) (uri other : Uri) (doc : Document) :
    (docs.insert uri doc).find? other = if other = uri then some doc else docs.find? other := by
  rw [insert, find?, List.lookup_cons]
  by_cases same : other = uri
  · simp [same]
  · have skipped : (other == uri) = false := by simp [same]
    have erased := find?_erase docs uri other
    rw [if_neg same] at erased ⊢
    rw [skipped]
    exact erased

end Documents

def Document.assembled (cfg : Config) (text : Bytes) : Document :=
  ⟨text, (assemble cfg text).toOption⟩

def diagnostics (cfg : Config) (text : Bytes) : List Diagnostic :=
  match assemble cfg text with
  | .ok _ => []
  | .error fault => [.ofFault fault]

theorem Document.ofText_eq (cfg : Config) (text : Bytes) :
    ofText cfg text = (assembled cfg text, diagnostics cfg text) := by
  unfold ofText assembled diagnostics
  cases assemble cfg text <;> rfl

abbrev Texts := Uri → Option Bytes

/-- What a call says about the text of a document: the new text, or that it is closed. -/
def Call.edit? : Call → Option (Uri × Option Bytes)
  | .opened uri _ text => some (uri, some (utf8 text))
  | .changed uri _ texts => texts.getLast?.map fun text => (uri, some (utf8 text))
  | .closed uri => some (uri, none)
  | .start _ | .started | .diagnose _ | .saving _ | .hover .. | .shutdown | .exit | .unknown => none

def Call.subject? : Call → Option Uri
  | .diagnose uri | .saving uri | .hover uri .. => some uri
  | _ => none

namespace Incoming

/-- What a message says about the text of a document. Messages that cannot be read say nothing. -/
def edit? (m : Incoming) : Option (Uri × Option Bytes) :=
  m.call.toOption.bind Call.edit?

def edits (uri : Uri) (m : Incoming) : Bool :=
  m.edit?.any fun edit => edit.1 = uri

def Edits (m : Incoming) (uri : Uri) (text : Option Bytes) : Prop :=
  ∃ call, m.Means call ∧ call.edit? = some (uri, text)

theorem means_of_edit {m : Incoming} {call : Call} {edit : Uri × Option Bytes}
    (read : m.call = .ok call) (about : call.edit? = some edit) : m.Means call := by
  by_cases known : ∃ form, (m.method, form) ∈ forms
  · obtain ⟨form, known⟩ := known
    exact means_of_call known read
  · have other := call_of_other (not_exists.mp known) read
    simp only [List.mem_cons, List.not_mem_nil, or_false] at other
    rcases other with ⟨client, rfl⟩ | rfl | rfl | rfl | rfl <;> simp [Call.edit?] at about

theorem edit?_eq_some_iff {m : Incoming} {uri : Uri} {text : Option Bytes} :
    m.edit? = some (uri, text) ↔ m.Edits uri text := by
  constructor
  · intro edit
    cases read : m.call with
    | error fault => simp [edit?, read, Except.toOption] at edit
    | ok call =>
      have edit : call.edit? = some (uri, text) := by
        simpa [edit?, read, Except.toOption] using edit
      exact ⟨call, means_of_edit read edit, edit⟩
  · rintro ⟨call, means, edit⟩
    simp [edit?, means.call_eq, Except.toOption, edit]

theorem edits_eq_false_iff {m : Incoming} {uri : Uri} :
    m.edits uri = false ↔ ∀ text, ¬ m.Edits uri text := by
  simp only [← edit?_eq_some_iff, edits, Option.any_eq_false]
  grind

end Incoming

def revise (texts : Texts) : Option (Uri × Option Bytes) → Texts
  | some (uri, text) => Function.update texts uri text
  | none => texts

def textsAfter (ms : List Incoming) : Texts :=
  ms.foldl (fun texts m => revise texts m.edit?) fun _ => none

/-- The last of the messages that say something about a document leaves it with `text`. -/
def LastEdit (ms : List Incoming) (uri : Uri) (text : Option Bytes) : Prop :=
  ∃ before m after, ms = before ++ m :: after ∧ m.Edits uri text ∧
    ∀ e ∈ after, ∀ text, ¬ e.Edits uri text

theorem textsAfter_append (ms : List Incoming) (m : Incoming) :
    textsAfter (ms ++ [m]) = revise (textsAfter ms) m.edit? := by
  rw [textsAfter, List.foldl_append]
  rfl

namespace Incoming

theorem revise_of_edits {m : Incoming} {uri : Uri} {text : Option Bytes}
    (edit : m.edit? = some (uri, text)) (texts : Texts) : revise texts m.edit? uri = text := by
  simp [revise, edit]

theorem revise_of_not_edits {m : Incoming} {uri : Uri} (other : m.edits uri = false)
    (texts : Texts) : revise texts m.edit? uri = texts uri := by
  cases edit : m.edit? with
  | none => rfl
  | some pair =>
    obtain ⟨name, text⟩ := pair
    have different : uri ≠ name := by
      intro same
      simp [edits, edit, same] at other
    exact Function.update_of_ne different text texts

theorem exists_edit {m : Incoming} {uri : Uri} (own : m.edits uri = true) :
    ∃ text, m.edit? = some (uri, text) := by
  unfold edits at own
  cases edit : m.edit? with
  | none => simp [edit] at own
  | some pair =>
    obtain ⟨name, text⟩ := pair
    have same : name = uri := by simpa [edit] using own
    exact ⟨text, by rw [same]⟩

end Incoming

theorem textsAfter_of_silent {uri : Uri} (before : List Incoming) {after : List Incoming}
    (silent : ∀ e ∈ after, e.edits uri = false) :
    textsAfter (before ++ after) uri = textsAfter before uri := by
  induction after using List.reverseRecOn with
  | nil => rw [List.append_nil]
  | append_singleton after m ih =>
    have own : m.edits uri = false := silent m (by simp)
    have others : ∀ e ∈ after, e.edits uri = false := by
      intro e member
      exact silent e (List.mem_append_left _ member)
    rw [← List.append_assoc, textsAfter_append, Incoming.revise_of_not_edits own, ih others]

theorem LastEdit.textsAfter_eq {ms : List Incoming} {uri : Uri} {text : Option Bytes}
    (last : LastEdit ms uri text) : textsAfter ms uri = text := by
  obtain ⟨before, m, after, rfl, edit, silent⟩ := last
  simp only [← Incoming.edits_eq_false_iff] at silent
  rw [List.append_cons, textsAfter_of_silent _ silent, textsAfter_append,
    Incoming.revise_of_edits (Incoming.edit?_eq_some_iff.mpr edit)]

def NeverEdited (ms : List Incoming) (uri : Uri) : Prop :=
  ∀ m ∈ ms, ∀ text, ¬ m.Edits uri text

/-- A document has the text of the last message about it, and none before the first. -/
theorem lastEdit_textsAfter (ms : List Incoming) (uri : Uri) :
    LastEdit ms uri (textsAfter ms uri) ∨ NeverEdited ms uri := by
  induction ms using List.reverseRecOn with
  | nil => exact .inr (by simp [NeverEdited])
  | append_singleton ms m ih =>
    rw [textsAfter_append]
    cases own : m.edits uri with
    | true =>
      obtain ⟨text, edit⟩ := Incoming.exists_edit own
      rw [Incoming.revise_of_edits edit]
      exact .inl ⟨ms, m, [], rfl, Incoming.edit?_eq_some_iff.mp edit, by simp⟩
    | false =>
      -- The last message says nothing here, so it can follow any silent messages.
      have still {es : List Incoming} (silent : NeverEdited es uri) :
          NeverEdited (es ++ [m]) uri := by
        intro e member
        rcases List.mem_append.mp member with member | member
        · exact silent e member
        · rw [List.mem_singleton.mp member]
          exact Incoming.edits_eq_false_iff.mp own
      rw [Incoming.revise_of_not_edits own]
      rcases ih with ⟨before, e, after, rfl, edit, silent⟩ | never
      · exact .inl ⟨before, e, after ++ [m], by simp, edit, still silent⟩
      · exact .inr (still never)

theorem NeverEdited.textsAfter_eq {ms : List Incoming} {uri : Uri} (never : NeverEdited ms uri) :
    textsAfter ms uri = none := by
  have silent : ∀ m ∈ ms, m.edits uri = false := by
    intro m member
    exact Incoming.edits_eq_false_iff.mpr (never m member)
  exact textsAfter_of_silent [] silent

theorem textsAfter_eq_some_iff {ms : List Incoming} {uri : Uri} {text : Bytes} :
    textsAfter ms uri = some text ↔ LastEdit ms uri (some text) := by
  constructor
  · intro known
    rcases lastEdit_textsAfter ms uri with last | never
    · exact known ▸ last
    · exact nomatch known.symm.trans never.textsAfter_eq
  · exact LastEdit.textsAfter_eq

theorem textsAfter_eq_none_iff {ms : List Incoming} {uri : Uri} :
    textsAfter ms uri = none ↔ LastEdit ms uri none ∨ NeverEdited ms uri := by
  constructor
  · intro closed
    exact (lastEdit_textsAfter ms uri).imp (closed ▸ ·) id
  · rintro (last | never)
    · exact last.textsAfter_eq
    · exact never.textsAfter_eq

def hoverAnswer (cfg : Config) (text? : Option Bytes) (line char : Int) : Answer :=
  match text?.bind fun text => (assemble cfg text).toOption with
  | none => .nothing
  | some program => ((program.hover? line char).map .hover).getD .nothing

/-- The answers to the questions about a document are functions of its text. -/
def Call.answer (cfg : Config) (text? : Option Bytes) : Call → Answer
  | .diagnose _ => .diagnostics ((text?.map (diagnostics cfg)).getD [])
  | .saving _ => .edits ((text?.map tidyEdits).getD [])
  | .hover _ line char => hoverAnswer cfg text? line char
  | _ => .nothing

namespace Session

variable {cfg : Config} {texts : Texts} {s : Session}

/-- The documents of a session are the given texts, each with its program. -/
structure Follows (cfg : Config) (texts : Texts) (s : Session) : Prop where
  config : s.config = cfg
  document : ∀ uri, s.documents.find? uri = (texts uri).map (Document.assembled cfg)

theorem Follows.insert (follows : s.Follows cfg texts) (uri : Uri) (text : Bytes) :
    Follows cfg (Function.update texts uri (some text))
      { s with documents := s.documents.insert uri (.assembled cfg text) } := by
  refine ⟨follows.config, ?_⟩
  intro other
  rw [Documents.find?_insert, follows.document]
  by_cases same : other = uri
  · simp [same]
  · rw [if_neg same, Function.update_of_ne same]

theorem Follows.erase (follows : s.Follows cfg texts) (uri : Uri) :
    Follows cfg (Function.update texts uri none)
      { s with documents := s.documents.erase uri } := by
  refine ⟨follows.config, ?_⟩
  intro other
  rw [Documents.find?_erase, follows.document]
  by_cases same : other = uri
  · simp [same]
  · rw [if_neg same, Function.update_of_ne same]

theorem Follows.setText (follows : s.Follows cfg texts) (uri : Uri) (version : Int)
    (text : String) :
    Follows cfg (Function.update texts uri (some (utf8 text))) (s.setText uri version text).1 ∧
      (s.setText uri version text).2 =
        { messages := [.publish uri version (diagnostics cfg (utf8 text))] } := by
  obtain rfl := follows.config
  simp only [Session.setText, Document.ofText_eq]
  exact ⟨follows.insert uri (utf8 text), trivial⟩

theorem Follows.diagnose (follows : s.Follows cfg texts) (uri : Uri) :
    Follows cfg texts (s.diagnose uri).1 ∧
      (s.diagnose uri).2 = ((texts uri).map (diagnostics cfg)).getD [] := by
  obtain rfl := follows.config
  have document := follows.document uri
  unfold Session.diagnose
  cases known : texts uri with
  | none =>
    rw [known] at document
    simp only [document]
    exact ⟨follows, rfl⟩
  | some text =>
    rw [known] at document
    simp only [document, Option.map_some, Document.ofText_eq]
    -- The document is stored anew, with the text and the program that it had.
    have inserted := follows.insert uri text
    rw [← known, Function.update_eq_self] at inserted
    exact ⟨inserted, rfl⟩

theorem Follows.handle (follows : s.Follows cfg texts) (m : Incoming) (call : Call) :
    Follows cfg (revise texts call.edit?) (s.handle m call).1 := by
  cases call with
  | start client => exact ⟨follows.config, follows.document⟩
  | started => exact follows
  | opened uri version text => exact (follows.setText uri version text).1
  | closed uri => exact follows.erase uri
  | changed uri version news =>
    simp only [Session.handle, Call.edit?]
    cases news.getLast? with
    | none => exact follows
    | some text => exact (follows.setText uri version text).1
  | diagnose uri => exact (follows.diagnose uri).1
  | saving uri =>
    simp only [Session.handle]
    cases s.documents.find? uri <;> exact follows
  | hover uri line char => exact follows
  | shutdown => exact follows
  | exit => exact ⟨follows.config, follows.document⟩
  | unknown => exact follows

theorem Follows.step (follows : s.Follows cfg texts) (m : Incoming) :
    Follows cfg (revise texts m.edit?) (s.step m).1 := by
  unfold Session.step Incoming.edit?
  cases m.call with
  | ok call => exact follows.handle m call
  | error fault => exact follows

theorem messages_step {m : Incoming} {call : Call} (read : m.call = .ok call) (s : Session) :
    (s.step m).2.messages = (s.handle m call).2.messages := by
  simp [Session.step, read]

theorem Follows.answer (follows : s.Follows cfg texts) {m : Incoming} {call : Call} {uri : Uri}
    (read : m.call = .ok call) (asks : call.subject? = some uri) :
    (s.step m).2.messages = [.reply m.replyId (call.answer cfg (texts uri))] := by
  rw [messages_step read]
  have document := follows.document uri
  cases call with
  | diagnose name =>
    obtain rfl : name = uri := Option.some.inj asks
    have answered := (follows.diagnose name).2
    simp only [Session.handle, Call.answer, answered]
  | saving name =>
    obtain rfl : name = uri := Option.some.inj asks
    simp only [Session.handle, Call.answer, document]
    cases texts name <;> rfl
  | hover name line char =>
    obtain rfl : name = uri := Option.some.inj asks
    simp only [Session.handle, Call.answer, hover?, hoverAnswer, document]
    cases texts name with
    | none => rfl
    | some text =>
      simp only [Option.map_some, Option.bind_some, Document.assembled, Option.bind_eq_bind]
      cases assemble cfg text <;> rfl
  | _ => simp [Call.subject?] at asks

def after (cfg : Config) (ms : List Incoming) : Session :=
  ms.foldl (fun s m => (s.step m).1) { config := cfg }

theorem follows_after (cfg : Config) (ms : List Incoming) :
    (after cfg ms).Follows cfg (textsAfter ms) := by
  induction ms using List.reverseRecOn with
  | nil => exact ⟨rfl, fun _ => rfl⟩
  | append_singleton ms m ih =>
    rw [textsAfter_append, after, List.foldl_append]
    exact ih.step m

/-- A session knows the texts of its documents and nothing else about them. -/
structure TracksTexts (cfg : Config) (ms : List Incoming) : Prop where
  /-- A document is open if the last message that gives it a text or closes it gives it a text. It
  has that text then, and with the text goes the program, if there is one. -/
  document : ∀ uri doc, (after cfg ms).documents.find? uri = some doc ↔
    ∃ text, LastEdit ms uri (some text) ∧ doc = ⟨text, (assemble cfg text).toOption⟩
  closed : ∀ uri, (after cfg ms).documents.find? uri = none ↔
    LastEdit ms uri none ∨ NeverEdited ms uri
  /-- Changes without texts, questions, and messages that are not about documents change none. -/
  kept : ∀ m, (∀ uri text, ¬ m.Edits uri text) → ∀ uri,
    (after cfg (ms ++ [m])).documents.find? uri = (after cfg ms).documents.find? uri
  /-- Nor do messages whose parameters are missing or of the wrong shape. They are refused if they
  are requests. -/
  malformed : ∀ m, m.Malformed → ((after cfg ms).step m).1 = after cfg ms ∧
    ((after cfg ms).step m).2.messages = (m.id.map fun id => .refuse id .badParams).toList
  opened : ∀ m uri version text, m.Means (.opened uri version text) →
    ((after cfg ms).step m).2.messages = [.publish uri version (diagnostics cfg (utf8 text))]
  changed : ∀ m uri version texts, m.Means (.changed uri version texts) →
    ((after cfg ms).step m).2.messages = (texts.getLast?.map fun text =>
      .publish uri version (diagnostics cfg (utf8 text))).toList
  /-- Answers are functions of the text of the document. -/
  answer : ∀ m call uri, m.Means call → call.subject? = some uri →
    ((after cfg ms).step m).2.messages = [.reply m.replyId
      (call.answer cfg (((after cfg ms).documents.find? uri).map Document.text))]
  /-- Two sessions that have left a document with the same text answer alike about it, whatever they
  were told about other documents. -/
  alone : ∀ others m call uri, m.Means call → call.subject? = some uri →
    (∀ text, LastEdit ms uri (some text) ↔ LastEdit others uri (some text)) →
    ((after cfg ms).step m).2.messages = ((after cfg others).step m).2.messages

theorem map_text_find? (cfg : Config) (ms : List Incoming) (uri : Uri) :
    ((after cfg ms).documents.find? uri).map Document.text = textsAfter ms uri := by
  rw [(follows_after cfg ms).document, Option.map_map]
  exact Option.map_id_fun' ▸ rfl

theorem tracksTexts (cfg : Config) (ms : List Incoming) : TracksTexts cfg ms where
  document uri doc := by
    rw [(follows_after cfg ms).document, Option.map_eq_some_iff]
    simp only [textsAfter_eq_some_iff, Document.assembled, eq_comm (b := doc)]
  closed uri := by
    rw [(follows_after cfg ms).document, Option.map_eq_none_iff, textsAfter_eq_none_iff]
  kept m silent uri := by
    have before := (follows_after cfg ms).document uri
    have later := (follows_after cfg (ms ++ [m])).document uri
    have own : m.edits uri = false := Incoming.edits_eq_false_iff.mpr (silent uri)
    rw [textsAfter_append, Incoming.revise_of_not_edits own] at later
    exact later.trans before.symm
  malformed m wrong := by
    obtain ⟨fault, failed⟩ := wrong.call_eq
    simp [Session.step, failed]
  opened m uri version text means := by
    rw [messages_step means.call_eq]
    exact congrArg Reaction.messages ((follows_after cfg ms).setText uri version text).2
  changed m uri version texts means := by
    rw [messages_step means.call_eq]
    cases last : texts.getLast? with
    | none => simp [Session.handle, last]
    | some text =>
      have published := ((follows_after cfg ms).setText uri version text).2
      simp [Session.handle, last, published]
  answer m call uri means asks := by
    rw [map_text_find?]
    exact (follows_after cfg ms).answer means.call_eq asks
  alone others m call uri means asks same := by
    have texts : textsAfter ms uri = textsAfter others uri := by
      apply Option.ext
      intro text
      rw [textsAfter_eq_some_iff, textsAfter_eq_some_iff]
      exact same text
    rw [(follows_after cfg ms).answer means.call_eq asks,
      (follows_after cfg others).answer means.call_eq asks, texts]

def faultyText : String := "loop: addi x1, x1, -1\nbne x1, x0, lop\n"

def mendedText : String := "loop: addi x1, x1, -1\nbne x1, x0, loop\n"

def openFaulty : Incoming where
  method := "textDocument/didOpen"
  params := some (.obj [("textDocument", .obj [("uri", .str "a.s"), ("languageId", .str "riscv"),
    ("text", .str faultyText)])])

def openOther : Incoming where
  method := "textDocument/didOpen"
  params := some (.obj [("textDocument", .obj [("uri", .str "b.s"), ("text", .str "nop")])])

/-- Only the last of the new texts counts. -/
def changeTwice : Incoming where
  method := "textDocument/didChange"
  params := some (.obj [("textDocument", .obj [("uri", .str "a.s")]),
    ("contentChanges", .arr [.obj [("text", .str "")], .obj [("text", .str mendedText)]])])

def changeNothing : Incoming where
  method := "textDocument/didChange"
  params := some (.obj [("textDocument", .obj [("uri", .str "a.s")]), ("contentChanges", .arr [])])

/-- The new text is a number. -/
def changeMalformed : Incoming where
  method := "textDocument/didChange"
  id := some (.number 7)
  params := some (.obj [("textDocument", .obj [("uri", .str "a.s")]),
    ("contentChanges", .arr [.obj [("text", .num "7")]])])

def closeOther : Incoming where
  method := "textDocument/didClose"
  params := some (.obj [("textDocument", .obj [("uri", .str "b.s")])])

def askDiagnostics : Incoming where
  method := "textDocument/diagnostic"
  id := some (.name "ask")
  params := some (.obj [("textDocument", .obj [("uri", .str "a.s")])])

def twoDocuments : List Incoming :=
  [openFaulty, openOther, changeTwice, changeNothing, changeMalformed, closeOther]

theorem tracksTexts_twoDocuments :
    ((after .standard []).step openFaulty).2.messages =
      [.publish "a.s" 0 (diagnostics .standard (utf8 faultyText))] ∧
    (diagnostics .standard (utf8 faultyText)).map (·.message) =
      [utf8 "Unresolved symbol name: \"lop\""] ∧
    ((after .standard [openFaulty, openOther]).step changeTwice).2.messages =
      [.publish "a.s" 0 []] ∧
    ((after .standard [openFaulty, openOther, changeTwice]).step changeMalformed).2.messages =
      [.refuse (.number 7) .badParams] ∧
    (after .standard twoDocuments).documents.find? "a.s" =
      some (.assembled .standard (utf8 mendedText)) ∧
    (after .standard twoDocuments).documents.find? "b.s" = none ∧
    ((after .standard twoDocuments).step askDiagnostics).2.messages =
      [.reply (.name "ask") (.diagnostics [])] := by
  have opened : openFaulty.Means (.opened "a.s" 0 faultyText) :=
    Incoming.means_of_call (.head _) (by decide +kernel)
  have closed : closeOther.Means (.closed "b.s") :=
    Incoming.means_of_call (.tail _ (.head _)) (by decide +kernel)
  have changed : changeTwice.Means (.changed "a.s" 0 ["", mendedText]) :=
    Incoming.means_of_call (.tail _ (.tail _ (.head _))) (by decide +kernel)
  have malformed : changeMalformed.Malformed :=
    Incoming.malformed_of_call (.tail _ (.tail _ (.head _))) (by decide +kernel)
  have asked : askDiagnostics.Means (.diagnose "a.s") :=
    Incoming.means_of_call (.tail _ (.tail _ (.tail _ (.head _)))) (by decide +kernel)
  have mended : diagnostics .standard (utf8 mendedText) = [] := by decide +kernel
  have tracks := tracksTexts .standard twoDocuments
  have found : (after .standard twoDocuments).documents.find? "a.s" =
      some (.assembled .standard (utf8 mendedText)) := by
    refine (tracks.document "a.s" _).mpr ⟨utf8 mendedText, ?_, rfl⟩
    refine ⟨[openFaulty, openOther], changeTwice, [changeNothing, changeMalformed, closeOther], rfl,
      ⟨_, changed, rfl⟩, ?_⟩
    simp only [← Incoming.edits_eq_false_iff]
    decide +kernel
  refine ⟨?_, by decide +kernel, ?_, ?_, found, ?_, ?_⟩
  · exact (tracksTexts .standard []).opened openFaulty "a.s" 0 faultyText opened
  · have published :=
      (tracksTexts .standard [openFaulty, openOther]).changed changeTwice _ _ _ changed
    simpa [mended] using published
  · exact ((tracksTexts .standard _).malformed changeMalformed malformed).2
  · refine (tracks.closed "b.s").mpr (.inl ?_)
    exact ⟨twoDocuments.dropLast, closeOther, [], rfl, ⟨_, closed, rfl⟩, by simp⟩
  · have answered := tracks.answer askDiagnostics _ "a.s" asked rfl
    rw [found] at answered
    simpa [Call.answer, Document.assembled, mended, Incoming.replyId, askDiagnostics] using answered

end Session

end Rv32Asm.Editor
