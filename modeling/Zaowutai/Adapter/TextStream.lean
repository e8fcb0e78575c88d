import Mathlib.Algebra.Group.Nat.Defs
import Zaowutai.Adapter.ClaudeFraming
import Zaowutai.Lib.Table

/-!
# Streamed text

A message is streamed as partial frames, which name it only where it starts, and
comes once more as a consolidated frame.  One slot of state says which message
was started last and what has been streamed of it, so that its consolidated
frame can leave out what was streamed already.
-/

namespace Zaowutai.Adapter

open Zaowutai.Lib

/-- `and_then(Value::as_str).unwrap_or("")` -/
def strOf (v : Option Value) : String := (v.bind Value.asStr).getD ""

def digits? (text : String) : Option ℕ :=
  if text ≠ "" ∧ text.toList.all Char.isDigit then
    some (text.toList.foldl (fun n c ↦ 10 * n + (c.toNat - '0'.toNat)) 0)
  else none

def Value.asU64 : Value → Option ℕ
  | .number text => (digits? text).filter (· < 2 ^ 64)
  | _ => none

def Value.asArray : Value → Option (List Value)
  | .array items => some items
  | _ => none

inductive StreamBlockKind
  | text
  | thinking
  | other
  deriving DecidableEq, Repr

/-- The buffer of the finalizer that a kind of block goes to. -/
def streamItemKey (itemId : String) : StreamBlockKind → String
  | .text => itemId ++ ":text"
  | .thinking => itemId ++ ":think"
  | .other => itemId

/-- The state of the message in flight, reset on each `message_start`. -/
structure StreamState where
  itemId : String
  blockKind : Table ℕ StreamBlockKind
  streamedText : Bool
  streamedThinking : Bool

def StreamState.default : StreamState := ⟨"", ∅, false, false⟩

inductive ClaudeEvent (ε : Type)
  | messageDelta (itemId text : String)
  | thoughtDelta (itemId text : String)
  | other (event : ε)

/-- The rest of the adapter's state, and what is done with the blocks and the sub-events that have
neither text nor thinking. -/
structure OtherContent (σ ε : Type) where
  /-- A `tool_use` block, or one of an unknown type. -/
  block : σ → Value → σ × List (SessionEvent ε)
  /-- A `message_delta` sub-event, or one of an unknown type. -/
  event : σ → Value → σ × List (SessionEvent ε)

variable {σ ε : Type}

def SessionEvent.ofOther : SessionEvent ε → SessionEvent (ClaudeEvent ε)
  | .adapterSpecific tag payload => .adapterSpecific tag payload
  | .mapped event => .mapped (.other event)

structure ParserState (σ : Type) where
  stream : StreamState
  rest : σ

/-- What `parse_stream_event` reads of a frame. -/
inductive StreamEvent
  | messageStart (id : String)
  | contentBlockStart (index : Option ℕ) (kind : StreamBlockKind)
  | contentBlockDelta (index : Option ℕ) (deltaType text thinking : String)
  | stop
  | other

def StreamEvent.read (v : Value) : StreamEvent :=
  let event := v.get "event"
  match strOf (event.bind (·.get "type")) with
  | "message_start" =>
      .messageStart (strOf ((event.bind (·.get "message")).bind (·.get "id")))
  | "content_block_start" =>
      .contentBlockStart ((event.bind (·.get "index")).bind Value.asU64)
        (match strOf ((event.bind (·.get "content_block")).bind (·.get "type")) with
          | "text" => .text
          | "thinking" => .thinking
          | _ => .other)
  | "content_block_delta" =>
      let delta := event.bind (·.get "delta")
      .contentBlockDelta ((event.bind (·.get "index")).bind Value.asU64)
        (strOf (delta.bind (·.get "type"))) (strOf (delta.bind (·.get "text")))
        (strOf (delta.bind (·.get "thinking")))
  | "content_block_stop" => .stop
  | "message_stop" => .stop
  | _ => .other

def parseStreamEvent (content : OtherContent σ ε) (s : ParserState σ) (v : Value) :
    ParserState σ × List (SessionEvent (ClaudeEvent ε)) :=
  match StreamEvent.read v with
  | .messageStart id => ({ s with stream := ⟨id, ∅, false, false⟩ }, [])
  | .contentBlockStart (some index) kind =>
      ({ s with stream := { s.stream with blockKind := s.stream.blockKind.insert index kind } }, [])
  | .contentBlockStart none _ => (s, [])
  | .contentBlockDelta index deltaType text thinking =>
      match index.bind s.stream.blockKind.lookup, deltaType with
      | some .text, "text_delta" =>
          if text = "" then (s, [])
          else
            ({ s with stream := { s.stream with streamedText := true } },
              [.mapped (.messageDelta (streamItemKey s.stream.itemId .text) text)])
      | some .thinking, "thinking_delta" =>
          if thinking = "" then (s, [])
          else
            ({ s with stream := { s.stream with streamedThinking := true } },
              [.mapped (.thoughtDelta (streamItemKey s.stream.itemId .thinking) thinking)])
      | _, _ => (s, [])
  | .stop => (s, [])
  | .other =>
      let handled := content.event s.rest v
      ({ s with rest := handled.1 }, handled.2.map SessionEvent.ofOther)

def messageId (v : Value) : String := strOf ((v.get "message").bind (·.get "id"))

def messageBlocks (v : Value) : List Value :=
  (((v.get "message").bind (·.get "content")).bind Value.asArray).getD []

def parseBlock (content : OtherContent σ ε) (itemId : String) (streamedText streamedThinking : Bool)
    (s : σ) (b : Value) : σ × List (SessionEvent (ClaudeEvent ε)) :=
  match strOf (b.get "type") with
  | "text" =>
      if streamedText then (s, [])
      else (s, [.mapped (.messageDelta (streamItemKey itemId .text) (strOf (b.get "text")))])
  | "thinking" =>
      -- a thinking block without its text would show as an empty card
      if streamedThinking ∨ strOf (b.get "thinking") = "" then (s, [])
      else
        (s, [.mapped (.thoughtDelta (streamItemKey itemId .thinking) (strOf (b.get "thinking")))])
  | _ =>
      let handled := content.block s b
      (handled.1, handled.2.map SessionEvent.ofOther)

def parseAssistant (content : OtherContent σ ε) (s : ParserState σ) (v : Value) :
    ParserState σ × List (SessionEvent (ClaudeEvent ε)) :=
  let itemId := messageId v
  let streamedText := s.stream.itemId = itemId && s.stream.streamedText
  let streamedThinking := s.stream.itemId = itemId && s.stream.streamedThinking
  let parsed := thread (parseBlock content itemId streamedText streamedThinking) s.rest
    (messageBlocks v)
  ({ s with rest := parsed.1 }, parsed.2)

def deltasOf (item : String) (events : List (SessionEvent (ClaudeEvent ε))) : List String :=
  events.filterMap fun
    | .mapped (.messageDelta itemId text) => if itemId = item then some text else none
    | _ => none

def blockTexts (blocks : List Value) : List String :=
  blocks.filterMap fun b ↦
    if strOf (b.get "type") = "text" then some (strOf (b.get "text")) else none

def consolidatedText (blocks : List Value) : String := String.join (blockTexts blocks)

def contentParser (content : OtherContent σ ε) (others : FrameParser (ParserState σ) (ClaudeEvent ε)) :
    FrameParser (ParserState σ) (ClaudeEvent ε) :=
  { others with
    parseAssistant := parseAssistant content
    parseStreamEvent := parseStreamEvent content }

end Zaowutai.Adapter
