import Rv32Asm.Proofs.Documents
import Rv32Asm.Proofs.TidyText

/-!
Saving a document.

Before a document is saved, the editor is sent one edit that puts the tidy text in place of the whole
text, or none if the text is tidy. When the editor has taken the text over, the same things are wrong
with the document, on the same lines, and the next save changes nothing.
-/

set_option autoImplicit false
set_option relaxedAutoImplicit false

namespace Rv32Asm

open Rv32Asm.Text

/-- The number of bytes before a place: the lines above it with their line breaks, and its column. -/
def Position.offset (text : Bytes) (p : Position) : Nat :=
  (((lines text).take p.line).flatMap fun l => l ++ [newline]).length + p.char

def Position.On (text : Bytes) (p : Position) : Prop :=
  ∃ l, (lines text)[p.line]? = some l ∧ p.char ≤ l.length

structure Span.Covers (text : Bytes) (s : Span) : Prop where
  start : s.start.On text ∧ s.start.offset text = 0
  stop : s.stop.On text ∧ s.stop.offset text = text.length

structure Diagnostic.SameLines (d e : Diagnostic) : Prop where
  message : d.message = e.message
  first : d.span.start.line = e.span.start.line
  last : d.span.stop.line = e.span.stop.line

namespace Editor

def Edit.apply (e : Edit) (text : Bytes) : Bytes :=
  text.take (e.span.start.offset text) ++ e.text ++ text.drop (e.span.stop.offset text)

/-- The edit puts the new text in place of the whole text, and is sent as the characters of the new
text. -/
structure Edit.Replaces (e : Edit) (text new : Bytes) : Prop where
  covers : e.span.Covers text
  applied : e.apply text = new
  sent : ∃ s, e.toJson = .obj [("range", e.span.toJson), ("newText", .str s)] ∧ utf8 s = new

theorem Edit.apply_of_covers {e : Edit} {text : Bytes} (covers : e.span.Covers text) :
    e.apply text = e.text := by
  rw [apply, covers.start.2, covers.stop.2, List.take_zero, List.nil_append, List.drop_length,
    List.append_nil]

theorem wholeSpan_covers (text : Bytes) : (wholeSpan text).Covers text := by
  rcases List.eq_nil_or_concat (lines text) with empty | ⟨above, last, rows⟩
  · exact absurd empty (lines_ne_nil text)
  rw [List.concat_eq_append] at rows
  have whole : (above.flatMap fun l => l ++ [newline]) ++ last = text := by
    rw [← unlines_concat, ← rows, unlines_lines]
  have stop : (wholeSpan text).stop = ⟨above.length, last.length⟩ := by
    simp [wholeSpan, rows]
  constructor
  · refine ⟨?_, rfl⟩
    obtain ⟨l, ls, first⟩ := List.exists_cons_of_ne_nil (lines_ne_nil text)
    exact ⟨l, by rw [first]; rfl, Nat.zero_le _⟩
  · rw [stop]
    constructor
    · exact ⟨last, by simp [rows], Nat.le_refl _⟩
    · rw [Position.offset, rows, List.take_left', ← List.length_append, whole]
      rfl

theorem tidyEdits_eq_nil_iff {text : Bytes} : tidyEdits text = [] ↔ tidy text = text := by
  simp only [tidyEdits]
  split
  · rename_i tidied
    simp [tidied]
  · rename_i other
    simp [other]

theorem tidyEdits_of_not_tidy {text : Bytes} (encoded : Encoded text) (other : tidy text ≠ text) :
    ∃ edit, tidyEdits text = [edit] ∧ edit.Replaces text (tidy text) := by
  have covers := wholeSpan_covers text
  refine ⟨⟨wholeSpan text, tidy text⟩, if_neg other, covers, Edit.apply_of_covers covers, ?_⟩
  exact ⟨decodeLossy (tidy text), rfl, (encoded_tidy encoded).utf8_decodeLossy⟩

theorem diagnostics_tidy (cfg : Config) (text : Bytes) :
    List.Forall₂ Diagnostic.SameLines (diagnostics cfg (tidy text)) (diagnostics cfg text) := by
  have meaning := sameMeaning_tidy cfg text
  unfold diagnostics
  generalize assemble cfg text = old at meaning
  generalize assemble cfg (tidy text) = new at meaning
  cases meaning with
  | program => exact .nil
  | source cause first last =>
    exact .cons ⟨congrArg Cause.message cause.symm, first.symm, last.symm⟩ .nil
  | config fault => exact .cons ⟨rfl, rfl, rfl⟩ .nil

theorem encoded_of_textsAfter {ms : List Incoming} {uri : Uri} {text : Bytes}
    (known : textsAfter ms uri = some text) : Encoded text := by
  obtain ⟨_, m, _, _, ⟨call, _, edit⟩, _⟩ := textsAfter_eq_some_iff.mp known
  cases call with
  | opened uri version s =>
    simp only [Call.edit?, Option.some.injEq, Prod.mk.injEq] at edit
    exact edit.2 ▸ encoded_utf8 s
  | changed uri version texts =>
    simp only [Call.edit?, Option.map_eq_some_iff, Prod.mk.injEq, Option.some.injEq] at edit
    obtain ⟨s, _, _, rfl⟩ := edit
    exact encoded_utf8 s
  | _ => simp [Call.edit?] at edit

def Incoming.Puts (m : Incoming) (uri : Uri) (version : Int) (text : Bytes) : Prop :=
  ∃ texts s, m.call = .ok (.changed uri version texts) ∧ texts.getLast? = some s ∧ utf8 s = text

theorem Incoming.Puts.edit? {m : Incoming} {uri : Uri} {version : Int} {text : Bytes}
    (puts : m.Puts uri version text) : m.edit? = some (uri, some text) := by
  obtain ⟨texts, s, read, last, rfl⟩ := puts
  simp [Incoming.edit?, read, Call.edit?, last, Except.toOption]

namespace Session

/-- What is said about an open document with the text, before and after the editor has taken over
the tidy text. -/
structure SaveConverges (cfg : Config) (ms : List Incoming) (uri : Uri) (text : Bytes) : Prop where
  reply : ∀ save, save.call = .ok (.saving uri) → ∃ edits,
    ((after cfg ms).step save).2.messages = [.reply save.replyId (.edits edits)] ∧
    (edits = [] ↔ tidy text = text) ∧
    (tidy text ≠ text → ∃ edit, edits = [edit] ∧ edit.Replaces text (tidy text))
  asked : ∀ ask, ask.call = .ok (.diagnose uri) →
    ((after cfg ms).step ask).2.messages = [.reply ask.replyId (.diagnostics (diagnostics cfg text))]
  /-- The same is wrong when the editor has taken over the tidy text. -/
  published : ∀ save change version, save.call = .ok (.saving uri) →
    change.Puts uri version (tidy text) →
    ∃ items, ((after cfg (ms ++ [save])).step change).2.messages = [.publish uri version items] ∧
      List.Forall₂ Diagnostic.SameLines items (diagnostics cfg text)
  /-- As long as the text does not change again, there is nothing to do before a save. -/
  settled : ∀ save change version quiet again, save.call = .ok (.saving uri) →
    change.Puts uri version (tidy text) → (∀ e ∈ quiet, e.edits uri = false) →
    again.call = .ok (.saving uri) →
    ((after cfg (ms ++ save :: change :: quiet)).step again).2.messages =
      [.reply again.replyId (.edits [])]

theorem messages_saving {cfg : Config} {ms : List Incoming} {uri : Uri} {text : Bytes}
    (known : textsAfter ms uri = some text) {save : Incoming} (read : save.call = .ok (.saving uri)) :
    ((after cfg ms).step save).2.messages = [.reply save.replyId (.edits (tidyEdits text))] := by
  have answer := (follows_after cfg ms).answer read rfl
  rw [known] at answer
  exact answer

theorem messages_puts {m : Incoming} {uri : Uri} {version : Int} {text : Bytes}
    (puts : m.Puts uri version text) (cfg : Config) (ms : List Incoming) :
    ((after cfg ms).step m).2.messages = [.publish uri version (diagnostics cfg text)] := by
  obtain ⟨texts, s, read, last, rfl⟩ := puts
  have published := ((follows_after cfg ms).setText uri version s).2
  rw [messages_step read]
  simp only [Session.handle, last, published]

/-- An open document converges: its text is put in order once, and means what it meant before. -/
theorem saveConverges_of_document {cfg : Config} {ms : List Incoming} {uri : Uri} {doc : Document}
    (isOpen : (after cfg ms).documents.find? uri = some doc) :
    SaveConverges cfg ms uri doc.text := by
  have known : textsAfter ms uri = some doc.text := by
    rw [(follows_after cfg ms).document, Option.map_eq_some_iff] at isOpen
    obtain ⟨text, known, rfl⟩ := isOpen
    exact known
  constructor
  case reply =>
    intro save read
    refine ⟨_, messages_saving known read, tidyEdits_eq_nil_iff, ?_⟩
    exact tidyEdits_of_not_tidy (encoded_of_textsAfter known)
  case asked =>
    intro ask read
    have answer := (follows_after cfg ms).answer read rfl
    rw [known] at answer
    exact answer
  case published =>
    intro save change version _ puts
    exact ⟨_, messages_puts puts cfg _, diagnostics_tidy cfg doc.text⟩
  case settled =>
    intro save change version quiet again _ puts silent read
    -- The save itself says nothing about the text, and what follows the change does not either.
    have now : textsAfter (ms ++ save :: change :: quiet) uri = some (tidy doc.text) := by
      rw [List.append_cons, List.append_cons, textsAfter_of_silent _ silent, textsAfter_append,
        Incoming.revise_of_edits puts.edit?]
    have still : tidy (tidy doc.text) = tidy doc.text := tidy_congr (parts_tidy doc.text)
    rw [messages_saving now read, tidyEdits_eq_nil_iff.mpr still]

/-- A text with a fault, a comment that is not plain, and a line break at its end. -/
def untidyText : String := "loop:addi x1,x1 ,1 ;\u00e9 \nbeq x1,x2,nowhere\n"

def tidiedText : String := "loop: addi x1, x1, 1 ;\u00e9\n      beq x1, x2, nowhere\n"

def openMessage : Incoming where
  method := "textDocument/didOpen"
  params := some (.obj [("textDocument", .obj [("uri", .str "a.s"), ("text", .str untidyText)])])

def saveMessage : Incoming where
  method := "textDocument/willSaveWaitUntil"
  id := some (.number 1)
  params := some (.obj [("textDocument", .obj [("uri", .str "a.s")])])

def changeMessage : Incoming where
  method := "textDocument/didChange"
  params := some (.obj [("textDocument", .obj [("uri", .str "a.s")]),
    ("contentChanges", .arr [.obj [("text", .str tidiedText)]])])

theorem saveConverges_untidyText :
    (∃ edit, ((after .standard [openMessage]).step saveMessage).2.messages =
      [.reply (.number 1) (.edits [edit])] ∧ edit.Replaces (utf8 untidyText) (utf8 tidiedText)) ∧
    (diagnostics .standard (utf8 untidyText)).map (·.span) = [.onLine 1 0 17] ∧
    (∃ items, ((after .standard [openMessage, saveMessage]).step changeMessage).2.messages =
      [.publish "a.s" 0 items] ∧
        List.Forall₂ Diagnostic.SameLines items (diagnostics .standard (utf8 untidyText))) ∧
    ((after .standard [openMessage, saveMessage, changeMessage]).step saveMessage).2.messages =
      [.reply (.number 1) (.edits [])] := by
  have opens : openMessage.call = .ok (.opened "a.s" 0 untidyText) := by decide +kernel
  have saves : saveMessage.call = .ok (.saving "a.s") := by decide +kernel
  have changes : changeMessage.call = .ok (.changed "a.s" 0 [tidiedText]) := by decide +kernel
  have tidied : tidy (utf8 untidyText) = utf8 tidiedText := by decide +kernel
  have isOpen : (after .standard [openMessage]).documents.find? "a.s" =
      some (.assembled .standard (utf8 untidyText)) := by
    rw [(follows_after .standard [openMessage]).document]
    simp [textsAfter, revise, Incoming.edit?, opens, Except.toOption, Call.edit?]
  have converges : SaveConverges .standard [openMessage] "a.s" (utf8 untidyText) :=
    saveConverges_of_document isOpen
  have puts : changeMessage.Puts "a.s" 0 (tidy (utf8 untidyText)) :=
    ⟨_, _, changes, rfl, tidied.symm⟩
  have id : saveMessage.replyId = .number 1 := rfl
  refine ⟨?_, by decide +kernel, ?_, ?_⟩
  · obtain ⟨edits, messages, _, edited⟩ := converges.reply saveMessage saves
    rw [tidied] at edited
    rw [id] at messages
    obtain ⟨edit, rfl, replaces⟩ := edited (by decide +kernel)
    exact ⟨edit, messages, replaces⟩
  · have published := converges.published saveMessage changeMessage 0 saves puts
    rwa [List.singleton_append] at published
  · have settled := converges.settled saveMessage changeMessage 0 [] saveMessage saves puts
      (by simp) saves
    rwa [List.singleton_append, id] at settled

end Session

end Editor

end Rv32Asm
