import Zaowutai.Lib.Framing
import Zaowutai.Lib.LossyText

/-!
# The claude adapter

Standard output of the agent arrives in chunks of bytes.  Complete lines are
taken off the buffer and parsed one after another; what is left at the end of
the stream is flushed.  The JSON parser and the handlers of the kinds of frames
are parameters: a handler maps a frame to events and changes the parser's state,
never the buffer.
-/

namespace Zaowutai.Adapter

open Zaowutai.Lib

inductive Value
  | null
  | bool (b : Bool)
  | number (text : String)
  | string (s : String)
  | array (items : List Value)
  | object (fields : List (String × Value))

def Value.get (v : Value) (key : String) : Option Value :=
  match v with
  | .object fields => fields.lookup key
  | _ => none

def Value.asStr : Value → Option String
  | .string s => some s
  | _ => none

/-- An event of the canonical vocabulary: the opaque one, or one that a handler maps a frame to. -/
inductive SessionEvent (ε : Type)
  | adapterSpecific (tag : String) (payload : Value)
  | mapped (event : ε)

/-- What a frame does to the parser's state, and the events that it yields. -/
abbrev FrameHandler (σ ε : Type) := σ → Value → σ × List (SessionEvent ε)

structure FrameParser (σ ε : Type) where
  fromStr : String → Option Value
  parseSystem : FrameHandler σ ε
  parseAssistant : FrameHandler σ ε
  parseUser : FrameHandler σ ε
  parseResult : FrameHandler σ ε
  parseControlRequest : FrameHandler σ ε
  parseControlCancelRequest : FrameHandler σ ε
  parseStreamEvent : FrameHandler σ ε
  parseCommandLifecycle : FrameHandler σ ε

variable {σ ε : Type}

def FrameParser.parseValue (parser : FrameParser σ ε) (s : σ) (v : Value) :
    σ × List (SessionEvent ε) :=
  match ((v.get "type").bind Value.asStr).getD "" with
  | "system" => parser.parseSystem s v
  | "assistant" => parser.parseAssistant s v
  | "user" => parser.parseUser s v
  | "result" => parser.parseResult s v
  | "control_request" => parser.parseControlRequest s v
  | "control_cancel_request" => parser.parseControlCancelRequest s v
  | "stream_event" => parser.parseStreamEvent s v
  | "command_lifecycle" => parser.parseCommandLifecycle s v
  | other => (s, [.adapterSpecific other v])

abbrev Item (ε : Type) := Option Value × List (SessionEvent ε)

/-- The buffer for half a line, and the state of the parser. -/
structure ClaudeAdapter (σ : Type) where
  buf : List UInt8
  parser : σ

namespace ClaudeAdapter

def drainLines (parser : FrameParser σ ε) (a : ClaudeAdapter σ) : ClaudeAdapter σ × List (Item ε) :=
  match _h : a.buf.idxOf? newline with
  | none => (a, [])
  | some nl =>
      let lineBytes := a.buf.take (nl + 1)
      let rest := a.buf.drop (nl + 1)
      let trimmed := lineText lineBytes
      if trimmed = "" then drainLines parser { a with buf := rest }
      else
        match parser.fromStr trimmed with
        | some v =>
            let parsed := parser.parseValue a.parser v
            let drained := drainLines parser { a with buf := rest, parser := parsed.1 }
            (drained.1, (some v, parsed.2) :: drained.2)
        | none =>
            let drained := drainLines parser { a with buf := rest }
            (drained.1,
              (none, [.adapterSpecific "malformed_json" (.string trimmed)]) :: drained.2)
termination_by a.buf.length
decreasing_by
  all_goals
    have hshorter := (line_of_idxOf? _h).1
    simp only [List.length_drop]
    omega

def frameLines (parser : FrameParser σ ε) (a : ClaudeAdapter σ) (bytes : List UInt8) :
    ClaudeAdapter σ × List (Item ε) :=
  drainLines parser { a with buf := a.buf ++ bytes }

def flushTail (parser : FrameParser σ ε) (a : ClaudeAdapter σ) : ClaudeAdapter σ × List (Item ε) :=
  let tail := a.buf
  let a := { a with buf := [] }
  let trimmed := lineText tail
  if trimmed = "" then (a, [])
  else
    match parser.fromStr trimmed with
    | some v =>
        let parsed := parser.parseValue a.parser v
        ({ a with parser := parsed.1 }, [(some v, parsed.2)])
    | none => (a, [(none, [.adapterSpecific "truncated_tail" (.string trimmed)])])

end ClaudeAdapter

/-!
## Framing does not depend on the chunks

Draining the buffer is the push of a framer whose lines are parsed with the
state that the lines before have left.  A stream therefore yields one item for
each segment between newlines that is not blank, whichever way it is cut.
-/

/-- Parses a text, which is reported under the tag where it is not JSON. -/
def frameText (parser : FrameParser σ ε) (s : σ) (labelled : String × String) :
    σ × List (Item ε) :=
  if labelled.2 = "" then (s, [])
  else
    match parser.fromStr labelled.2 with
    | some v => ((parser.parseValue s v).1, [(some v, (parser.parseValue s v).2)])
    | none => (s, [(none, [.adapterSpecific labelled.1 (.string labelled.2)])])

def lineLabel (line : List UInt8) : String × String := ("malformed_json", lineText line)

def tailLabel (line : List UInt8) : String × String := ("truncated_tail", lineText line)

def labelledTexts (stream : List UInt8) : List (String × String) :=
  (completeLines newline stream).map lineLabel ++ [tailLabel (lastLine newline stream)]

namespace ClaudeAdapter

def framer (a : ClaudeAdapter σ) : Framer UInt8 σ := ⟨a.buf, a.parser⟩

def ofFramer (m : Framer UInt8 σ) : ClaudeAdapter σ := ⟨m.buffer, m.state⟩

def frameLine (parser : FrameParser σ ε) (s : σ) (line : List UInt8) : σ × List (Item ε) :=
  frameText parser s (lineLabel line)

variable {parser : FrameParser σ ε}

theorem lineText_of_idxOf? {bytes : List UInt8} {nl : Nat} (h : bytes.idxOf? newline = some nl) :
    lineText (bytes.take (nl + 1)) = lineText (bytes.take nl) := by
  rw [(line_of_idxOf? h).2.2.1, lineText_newline]

theorem drainLines_eq (a : ClaudeAdapter σ) :
    drainLines parser a =
      (⟨lastLine newline a.buf,
          (thread (frameLine parser) a.parser (completeLines newline a.buf)).1⟩,
        (thread (frameLine parser) a.parser (completeLines newline a.buf)).2) := by
  fun_induction drainLines parser a with
  | case1 a hnone =>
      have hfree : newline ∉ a.buf := List.idxOf?_eq_none_iff.mp hnone
      rw [completeLines_of_notMem hfree, lastLine_of_notMem hfree, thread_nil]
  | case2 a nl hnl lineBytes rest trimmed hblank ih =>
      obtain ⟨hlines, hlast⟩ := lines_of_idxOf? hnl
      have htext : lineText (a.buf.take nl) = "" := (lineText_of_idxOf? hnl).symm.trans hblank
      have hframe : frameLine parser a.parser (a.buf.take nl) = (a.parser, []) := if_pos htext
      rw [ih, hlines, hlast, thread_cons, hframe]
      rfl
  | case3 a nl hnl lineBytes rest trimmed hblank v hv parsed drained ih =>
      obtain ⟨hlines, hlast⟩ := lines_of_idxOf? hnl
      have htext : lineText (a.buf.take nl) = trimmed := (lineText_of_idxOf? hnl).symm
      have hframe : frameLine parser a.parser (a.buf.take nl) = (parsed.1, [(some v, parsed.2)]) := by
        rw [frameLine, lineLabel, htext, frameText, if_neg hblank, hv]
      rw [hlines, hlast, thread_cons, hframe]
      simp only [drained, ih]
      rfl
  | case4 a nl hnl lineBytes rest trimmed hblank hv drained ih =>
      obtain ⟨hlines, hlast⟩ := lines_of_idxOf? hnl
      have htext : lineText (a.buf.take nl) = trimmed := (lineText_of_idxOf? hnl).symm
      have hframe : frameLine parser a.parser (a.buf.take nl) =
          (a.parser, [(none, [.adapterSpecific "malformed_json" (.string trimmed)])]) := by
        rw [frameLine, lineLabel, htext, frameText, if_neg hblank, hv]
      rw [hlines, hlast, thread_cons, hframe]
      simp only [drained, ih]
      rfl

theorem frameLines_eq (a : ClaudeAdapter σ) (bytes : List UInt8) :
    frameLines parser a bytes =
      (.ofFramer (a.framer.push newline (frameLine parser) bytes).1,
        (a.framer.push newline (frameLine parser) bytes).2) :=
  drainLines_eq _

theorem thread_frameLines (a : ClaudeAdapter σ) (chunks : List (List UInt8)) :
    thread (frameLines parser) a chunks =
      (.ofFramer (thread (Framer.push newline (frameLine parser)) a.framer chunks).1,
        (thread (Framer.push newline (frameLine parser)) a.framer chunks).2) := by
  induction chunks generalizing a with
  | nil => rfl
  | cons chunk chunks ih => rw [thread_cons, thread_cons, frameLines_eq, ih]; rfl

theorem flushTail_eq (a : ClaudeAdapter σ) :
    flushTail parser a =
      (⟨[], (frameText parser a.parser (tailLabel a.buf)).1⟩,
        (frameText parser a.parser (tailLabel a.buf)).2) := by
  rw [flushTail, frameText, tailLabel]
  split
  · rfl
  · cases parser.fromStr (lineText a.buf) <;> rfl

def readStream (parser : FrameParser σ ε) (a : ClaudeAdapter σ) (chunks : List (List UInt8)) :
    ClaudeAdapter σ × List (Item ε) :=
  let framed := thread (frameLines parser) a chunks
  let flushed := flushTail parser framed.1
  (flushed.1, framed.2 ++ flushed.2)

theorem readStream_eq (s : σ) (chunks : List (List UInt8)) :
    readStream parser ⟨[], s⟩ chunks =
      (⟨[], (thread (frameText parser) s (labelledTexts chunks.flatten)).1⟩,
        (thread (frameText parser) s (labelledTexts chunks.flatten)).2) := by
  rw [readStream, thread_frameLines, Framer.thread_push (by exact List.not_mem_nil), flushTail_eq,
    labelledTexts, thread_append, thread_map]
  simp only [thread_cons, thread_nil, List.append_nil]
  rfl

end ClaudeAdapter

section Results

variable {parser : FrameParser σ ε}

def itemsOf (parser : FrameParser σ ε) : σ → List (String × String) → List (Item ε)
  | _, [] => []
  | s, (tag, text) :: rest =>
      match parser.fromStr text with
      | some v => (some v, (parser.parseValue s v).2) :: itemsOf parser (parser.parseValue s v).1 rest
      | none => (none, [.adapterSpecific tag (.string text)]) :: itemsOf parser s rest

def notBlank (labelled : String × String) : Bool := labelled.2 ≠ ""

theorem length_itemsOf (s : σ) (texts : List (String × String)) :
    (itemsOf parser s texts).length = texts.length := by
  induction texts generalizing s with
  | nil => rfl
  | cons labelled texts ih =>
      obtain ⟨tag, text⟩ := labelled
      rw [itemsOf]
      split <;> rw [List.length_cons, List.length_cons, ih]

theorem thread_frameText (s : σ) (texts : List (String × String)) :
    (thread (frameText parser) s texts).2 = itemsOf parser s (texts.filter notBlank) := by
  have hskip : ∀ s labelled, notBlank labelled = false → frameText parser s labelled = (s, []) := by
    intro s labelled hblank
    exact if_pos (by simpa [notBlank] using hblank)
  have hall : ∀ labelled ∈ texts.filter notBlank, labelled.2 ≠ "" := by
    intro labelled hmem
    simpa [notBlank] using List.of_mem_filter hmem
  rw [← thread_filter hskip]
  generalize texts.filter notBlank = kept at hall
  induction kept generalizing s with
  | nil => rfl
  | cons labelled kept ih =>
      obtain ⟨tag, text⟩ := labelled
      have hne : text ≠ "" := hall (tag, text) List.mem_cons_self
      have hkept := fun s ↦ ih s fun labelled hmem ↦ hall labelled (List.mem_cons_of_mem _ hmem)
      rw [thread_cons, itemsOf, frameText, if_neg hne]
      cases parser.fromStr text with
      | none => exact congrArg (_ :: ·) (hkept s)
      | some v => exact congrArg (_ :: ·) (hkept _)

theorem map_labelledTexts (stream : List UInt8) :
    (labelledTexts stream).map Prod.snd = (stream.splitOn newline).map lineText := by
  rw [← completeLines_append_lastLine newline stream, labelledTexts, List.map_append,
    List.map_append, List.map_map]
  rfl

theorem length_notBlank (stream : List UInt8) :
    ((labelledTexts stream).filter notBlank).length =
      (((stream.splitOn newline).map lineText).filter (· ≠ "")).length := by
  rw [← map_labelledTexts, List.filter_map, List.length_map]
  rfl

/-- However a stream is cut into chunks, the calls of `frameLines` and the flush at the end yield
what one call with the whole stream and the flush yield: an item for each segment between newlines
that is not blank.  Nothing stays in the buffer. -/
theorem framing_independent_of_chunks (parser : FrameParser σ ε) (s : σ)
    (chunks : List (List UInt8)) :
    ClaudeAdapter.readStream parser ⟨[], s⟩ chunks =
        ClaudeAdapter.readStream parser ⟨[], s⟩ [chunks.flatten] ∧
      (ClaudeAdapter.readStream parser ⟨[], s⟩ chunks).2 =
        itemsOf parser s ((labelledTexts chunks.flatten).filter notBlank) ∧
      (ClaudeAdapter.readStream parser ⟨[], s⟩ chunks).2.length =
        (((chunks.flatten.splitOn newline).map lineText).filter (· ≠ "")).length ∧
      (ClaudeAdapter.readStream parser ⟨[], s⟩ chunks).1.buf = [] := by
  have hitems : (ClaudeAdapter.readStream parser ⟨[], s⟩ chunks).2 =
      itemsOf parser s ((labelledTexts chunks.flatten).filter notBlank) := by
    rw [ClaudeAdapter.readStream_eq, thread_frameText]
  refine ⟨?_, hitems, ?_, ?_⟩
  · rw [ClaudeAdapter.readStream_eq, ClaudeAdapter.readStream_eq, List.flatten_singleton]
  · rw [hitems, length_itemsOf, length_notBlank]
  · rw [ClaudeAdapter.readStream_eq]

end Results

end Zaowutai.Adapter
