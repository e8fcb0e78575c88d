import Zaowutai.Adapter.TextStream

/-!
# Text is emitted once

A message is streamed into the slot of the message started last.  Its text comes
out once if nothing has been streamed into its slot, or if its own text has and
its consolidated frame finds the slot.  A message that is started while another
one is in flight takes the slot away, and the text of the other comes out twice.
-/

namespace Zaowutai.Adapter

open Zaowutai.Lib

variable {σ ε : Type}

inductive Frame
  | messageStart (id : String)
  | blockStart (index : Option ℕ) (kind : StreamBlockKind)
  | textDelta (index : Option ℕ) (text : String)
  | assistant (id : String) (blocks : List Value)
  | other

namespace Frame

def read (v : Value) : Frame :=
  match strOf (v.get "type") with
  | "assistant" => assistant (messageId v) (messageBlocks v)
  | "stream_event" =>
      match StreamEvent.read v with
      | .messageStart id => messageStart id
      | .contentBlockStart index kind => blockStart index kind
      | .contentBlockDelta index deltaType text _ =>
          if deltaType = "text_delta" then textDelta index text else other
      | _ => other
  | _ => other

def isStart : Frame → Bool
  | messageStart _ => true
  | _ => false

def isContent : Frame → Bool
  | blockStart _ _ => true
  | textDelta _ _ => true
  | _ => false

def bounds (id : String) : Frame → Bool
  | messageStart id' => id' = id
  | assistant id' _ => id' = id
  | _ => false

def announce (kinds : Table ℕ StreamBlockKind) : Frame → Table ℕ StreamBlockKind
  | blockStart (some index) kind => kinds.insert index kind
  | _ => kinds

def heard (kinds : Table ℕ StreamBlockKind) : Frame → List String
  | textDelta index text =>
      if index.bind kinds.lookup = some .text ∧ text ≠ "" then [text] else []
  | _ => []

end Frame

/-- The texts of the deltas for announced blocks of text. -/
def taken (kinds : Table ℕ StreamBlockKind) : List Frame → List String
  | [] => []
  | frame :: frames => frame.heard kinds ++ taken (frame.announce kinds) frames

def window (id : String) (frames : List Frame) : List Frame :=
  ((frames.dropWhile fun frame ↦ !(frame.isStart && frame.bounds id)).tail).takeWhile
    fun frame ↦ !frame.isStart

inductive MessageFrames (id : String) : List Frame → Prop
  | whole (blocks : List Value) : MessageFrames id [.assistant id blocks]
  | streamed (content : List Frame) (blocks : List Value) (hcontent : ∀ f ∈ content, f.isContent)
      (htext : String.join (taken ∅ content) = consolidatedText blocks) :
      MessageFrames id (.messageStart id :: (content ++ [.assistant id blocks]))

/-- The frames of a message, in a sequence whose frames are labelled with their message. -/
def owned (id : String) (fs : List (String × Value)) : List Frame :=
  (fs.filter fun e ↦ e.1 = id).map fun e ↦ Frame.read e.2

def Interleaved (fs : List (String × Value)) : Prop :=
  ∀ e ∈ fs, MessageFrames e.1 (owned e.1 fs)

def framesOf (fs : List (String × Value)) : List Frame := fs.map fun e ↦ Frame.read e.2

def emitted (parser : FrameParser (ParserState σ) (ClaudeEvent ε)) (rest : σ) (id : String)
    (fs : List (String × Value)) : List String :=
  deltasOf (streamItemKey id .text)
    (thread parser.parseValue ⟨.default, rest⟩ (fs.map Prod.snd)).2

/-- Either no text is streamed to the message, or it is streamed its text and its consolidated
frame comes, after some of it, while the message is still the one started last. -/
def Undisturbed (id text : String) (frames : List Frame) : Prop :=
  taken ∅ (window id frames) = [] ∨
    (∃ frame ∈ window id frames, frame.bounds id) ∧
      taken ∅ ((window id frames).takeWhile fun frame ↦ !frame.bounds id) ≠ [] ∧
        String.join (taken ∅ (window id frames)) = text

section Steps

def StreamState.next (s : StreamState) : Frame → StreamState
  | .messageStart id => ⟨id, ∅, false, false⟩
  | .assistant _ _ => s
  | frame =>
      { s with
        blockKind := frame.announce s.blockKind
        streamedText := s.streamedText || frame.heard s.blockKind ≠ [] }

def said (id : String) (s : StreamState) : Frame → List String
  | .assistant id' blocks =>
      if id' = id ∧ ¬(s.itemId = id ∧ s.streamedText) then blockTexts blocks else []
  | frame => if s.itemId = id then frame.heard s.blockKind else []

def spoken (id : String) : StreamState → List Frame → List String
  | _, [] => []
  | s, frame :: frames => said id s frame ++ spoken id (s.next frame) frames

theorem streamItemKey_text_inj {id id' : String} :
    streamItemKey id .text = streamItemKey id' .text ↔ id = id' := by
  simp [streamItemKey]

theorem deltasOf_append (item : String) (events events' : List (SessionEvent (ClaudeEvent ε))) :
    deltasOf item (events ++ events') = deltasOf item events ++ deltasOf item events' :=
  List.filterMap_append

theorem deltasOf_other (item : String) (events : List (SessionEvent ε)) :
    deltasOf item (events.map SessionEvent.ofOther) = [] := by
  refine List.filterMap_eq_nil_iff.mpr fun event hevent ↦ ?_
  obtain ⟨other, -, rfl⟩ := List.mem_map.mp hevent
  cases other <;> rfl

variable {content : OtherContent σ ε} {id : String} {s : ParserState σ} {v : Value}
  {frame : Frame}

theorem deltasOf_parseBlock (itemId : String) (streamedText streamedThinking : Bool) (rest : σ)
    (b : Value) :
    deltasOf (streamItemKey id .text)
        (parseBlock content itemId streamedText streamedThinking rest b).2 =
      if itemId = id ∧ ¬streamedText then blockTexts [b] else [] := by
  unfold parseBlock
  split
  · next htype =>
      cases streamedText <;> by_cases hid : itemId = id <;>
        simp [deltasOf, blockTexts, htype, hid, streamItemKey_text_inj]
  · next htype => split <;> simp [deltasOf, blockTexts, htype]
  · next htype _ => simp [deltasOf_other, blockTexts, show strOf (b.get "type") ≠ "text" from htype]

theorem deltasOf_parseBlocks (itemId : String) (streamedText streamedThinking : Bool) (rest : σ)
    (blocks : List Value) :
    deltasOf (streamItemKey id .text)
        (thread (parseBlock content itemId streamedText streamedThinking) rest blocks).2 =
      if itemId = id ∧ ¬streamedText then blockTexts blocks else [] := by
  induction blocks generalizing rest with
  | nil => simp [deltasOf, blockTexts]
  | cons b blocks ih =>
      have hcons : blockTexts (b :: blocks) = blockTexts [b] ++ blockTexts blocks :=
        List.filterMap_append (l := [b])
      rw [thread_cons, deltasOf_append, ih, deltasOf_parseBlock, hcons]
      split <;> rfl

theorem parseStreamEvent_eq (hread : Frame.read v = frame)
    (hstream : strOf (v.get "type") = "stream_event")
    (hframe : frame ≠ .other) :
    (parseStreamEvent content s v).1.stream = s.stream.next frame ∧
      deltasOf (streamItemKey id .text) (parseStreamEvent content s v).2 = said id s.stream frame := by
  simp only [Frame.read, hstream] at hread
  unfold parseStreamEvent
  cases hevent : StreamEvent.read v with
  | messageStart id' =>
      simp only [hevent] at hread ⊢
      subst hread
      simp [StreamState.next, said, Frame.heard, deltasOf]
  | contentBlockStart index kind =>
      simp only [hevent] at hread ⊢
      subst hread
      cases index <;> simp [StreamState.next, said, Frame.heard, Frame.announce, deltasOf]
  | contentBlockDelta index deltaType text thinking =>
      simp only [hevent] at hread ⊢
      split at hread
      · next htype =>
          subst hread htype
          cases hkind : index.bind s.stream.blockKind.lookup with
          | none => simp [StreamState.next, said, Frame.heard, Frame.announce, hkind, deltasOf]
          | some kind =>
              cases kind with
              | text =>
                  by_cases hid : s.stream.itemId = id
                  · subst hid
                    by_cases htext : text = "" <;>
                      simp [StreamState.next, said, Frame.heard, Frame.announce, hkind, htext,
                        deltasOf]
                  · by_cases htext : text = "" <;>
                      simp [StreamState.next, said, Frame.heard, Frame.announce, hkind, htext, hid,
                        deltasOf, streamItemKey_text_inj]
              | thinking =>
                  simp [StreamState.next, said, Frame.heard, Frame.announce, hkind, deltasOf]
              | other =>
                  simp [StreamState.next, said, Frame.heard, Frame.announce, hkind, deltasOf]
      · exact absurd hread.symm hframe
  | stop =>
      simp only [hevent] at hread
      exact absurd hread.symm hframe
  | other =>
      simp only [hevent] at hread
      exact absurd hread.symm hframe

variable (content) in
theorem parseValue_eq (others : FrameParser (ParserState σ) (ClaudeEvent ε)) (s : ParserState σ)
    (hframe : Frame.read v ≠ .other) :
    ((contentParser content others).parseValue s v).1.stream = s.stream.next (Frame.read v) ∧
      deltasOf (streamItemKey id .text) ((contentParser content others).parseValue s v).2 =
        said id s.stream (Frame.read v) := by
  by_cases hassistant : strOf (v.get "type") = "assistant"
  · have hread : Frame.read v = .assistant (messageId v) (messageBlocks v) := by
      simp only [Frame.read, hassistant]
    have hparse : (contentParser content others).parseValue s v = parseAssistant content s v := by
      simp only [FrameParser.parseValue]
      rw [show ((v.get "type").bind Value.asStr).getD "" = "assistant" from hassistant]
      rfl
    rw [hparse, hread]
    refine ⟨rfl, (deltasOf_parseBlocks (messageId v)
      (s.stream.itemId = messageId v && s.stream.streamedText)
      (s.stream.itemId = messageId v && s.stream.streamedThinking) s.rest (messageBlocks v)).trans ?_⟩
    by_cases hid : messageId v = id
    · subst hid
      simp [said]
    · simp [said, hid]
  · by_cases hstream : strOf (v.get "type") = "stream_event"
    · have hparse : (contentParser content others).parseValue s v =
          parseStreamEvent content s v := by
        simp only [FrameParser.parseValue]
        rw [show ((v.get "type").bind Value.asStr).getD "" = "stream_event" from hstream]
        rfl
      rw [hparse]
      exact parseStreamEvent_eq rfl hstream hframe
    · refine absurd ?_ hframe
      unfold Frame.read
      split
      · next htype => exact absurd htype hassistant
      · next htype => exact absurd htype hstream
      · rfl

theorem deltasOf_thread (others : FrameParser (ParserState σ) (ClaudeEvent ε)) (vs : List Value) (hframes : ∀ v ∈ vs, Frame.read v ≠ .other) :
    deltasOf (streamItemKey id .text) (thread (contentParser content others).parseValue s vs).2 =
      spoken id s.stream (vs.map Frame.read) := by
  induction vs generalizing s with
  | nil => rfl
  | cons v vs ih =>
      obtain ⟨hframe, hframes⟩ := List.forall_mem_cons.mp hframes
      obtain ⟨hnext, hsaid⟩ := parseValue_eq content others s hframe
      rw [thread_cons, deltasOf_append, hsaid, ih hframes, hnext]
      rfl

end Steps

section Windows

variable {id : String} {s : StreamState} {frames before after : List Frame}

def Frame.consolidated (id : String) : Frame → List String
  | assistant id' blocks => if id' = id then blockTexts blocks else []
  | _ => []

def consolidated (id : String) (frames : List Frame) : List String :=
  frames.flatMap (Frame.consolidated id)

theorem spoken_append (id : String) (s : StreamState) (frames frames' : List Frame) :
    spoken id s (frames ++ frames') =
      spoken id s frames ++ spoken id (frames.foldl StreamState.next s) frames' := by
  induction frames generalizing s with
  | nil => rfl
  | cons frame frames ih =>
      rw [List.cons_append, spoken, ih, spoken, List.foldl_cons, List.append_assoc]

theorem taken_append (kinds : Table ℕ StreamBlockKind) (frames frames' : List Frame) :
    taken kinds (frames ++ frames') =
      taken kinds frames ++ taken (frames.foldl Frame.announce kinds) frames' := by
  induction frames generalizing kinds with
  | nil => rfl
  | cons frame frames ih =>
      rw [List.cons_append, taken, ih, taken, List.foldl_cons, List.append_assoc]

theorem itemId_next_of_not_start {frame : Frame} (h : ¬(frame.isStart ∧ frame.bounds id))
    (hs : s.itemId ≠ id) : (s.next frame).itemId ≠ id := by
  cases frame with
  | messageStart id' => exact fun hid ↦ h ⟨rfl, decide_eq_true hid⟩
  | _ => exact hs

theorem spoken_elsewhere (h : ∀ frame ∈ frames, ¬(frame.isStart ∧ frame.bounds id))
    (hs : s.itemId ≠ id) : spoken id s frames = consolidated id frames := by
  induction frames generalizing s with
  | nil => rfl
  | cons frame frames ih =>
      obtain ⟨hframe, hframes⟩ := List.forall_mem_cons.mp h
      have hnext : (s.next frame).itemId ≠ id := itemId_next_of_not_start hframe hs
      have hsaid : said id s frame = frame.consolidated id := by
        cases frame <;> simp [said, hs, Frame.consolidated]
      rw [spoken, ih hframes hnext, hsaid]
      rfl

/-- A frame of another message, or of the content, goes into the slot of the message. -/
theorem said_of_window {frame : Frame} (hstart : frame.isStart = false)
    (hbounds : frame.bounds id = false) (hs : s.itemId = id) :
    said id s frame = frame.heard s.blockKind ∧
      s.next frame =
        { s with
          blockKind := frame.announce s.blockKind
          streamedText := s.streamedText || frame.heard s.blockKind ≠ [] } := by
  cases frame with
  | messageStart id' => cases hstart
  | assistant id' blocks =>
      have hid : id' ≠ id := of_decide_eq_false hbounds
      simp [said, hid, StreamState.next, Frame.heard, Frame.announce]
  | blockStart index kind => exact ⟨if_pos hs, rfl⟩
  | textDelta index text => exact ⟨if_pos hs, rfl⟩
  | other => exact ⟨if_pos hs, rfl⟩

theorem spoken_window (hstart : ∀ frame ∈ frames, frame.isStart = false)
    (hbounds : ∀ frame ∈ frames, frame.bounds id = false) (hs : s.itemId = id) :
    spoken id s frames = taken s.blockKind frames ∧
      frames.foldl StreamState.next s =
        { s with
          blockKind := frames.foldl Frame.announce s.blockKind
          streamedText := s.streamedText || taken s.blockKind frames ≠ [] } := by
  induction frames generalizing s with
  | nil => simp [spoken, taken]
  | cons frame frames ih =>
      obtain ⟨hframe, hstart⟩ := List.forall_mem_cons.mp hstart
      obtain ⟨hother, hbounds⟩ := List.forall_mem_cons.mp hbounds
      obtain ⟨hsaid, hnext⟩ := said_of_window hframe hother hs
      have hslot : (s.next frame).itemId = id := by
        rw [hnext]
        exact hs
      obtain ⟨hspoken, hlast⟩ := ih hstart hbounds hslot
      rw [spoken, hsaid, hspoken, List.foldl_cons, hlast, hnext]
      refine ⟨rfl, ?_⟩
      simp [taken, Bool.or_assoc]

end Windows

section Layout

variable {id : String} {fs : List (String × Value)} {frames : List Frame}

theorem consolidated_eq_nil (h : ∀ frame ∈ frames, frame.bounds id = false) :
    consolidated id frames = [] := by
  refine List.flatMap_eq_nil_iff.mpr fun frame hframe ↦ ?_
  cases frame with
  | assistant id' blocks => exact if_neg (of_decide_eq_false (h _ hframe))
  | _ => rfl

theorem consolidated_assistant {before after : List Frame} {blocks : List Value}
    (hbefore : ∀ f ∈ before, f.bounds id = false) (hafter : ∀ f ∈ after, f.bounds id = false) :
    consolidated id (before ++ .assistant id blocks :: after) = blockTexts blocks := by
  have hbefore' := consolidated_eq_nil hbefore
  have hafter' := consolidated_eq_nil hafter
  rw [consolidated] at hbefore' hafter'
  rw [consolidated, List.flatMap_append, List.flatMap_cons, hbefore', hafter', List.nil_append,
    List.append_nil]
  exact if_pos rfl

/-- Where the first and the consolidated frame of a message stand. -/
inductive Layout (id : String) (blocks : List Value) (frames : List Frame) : Prop
  | whole (before after : List Frame) (hbefore : ∀ f ∈ before, f.bounds id = false)
      (hafter : ∀ f ∈ after, f.bounds id = false)
      (hframes : frames = before ++ .assistant id blocks :: after)
  | streamed (before between after : List Frame) (hbefore : ∀ f ∈ before, f.bounds id = false)
      (hbetween : ∀ f ∈ between, f.bounds id = false) (hafter : ∀ f ∈ after, f.bounds id = false)
      (hframes : frames = before ++ .messageStart id :: (between ++ .assistant id blocks :: after))

theorem MessageFrames.mem (h : MessageFrames id frames) {frame : Frame} (hmem : frame ∈ frames) :
    frame = .messageStart id ∨ frame.isContent ∨ ∃ blocks, frame = .assistant id blocks := by
  cases h with
  | whole blocks => exact Or.inr (Or.inr ⟨blocks, List.mem_singleton.mp hmem⟩)
  | streamed content blocks hcontent htext =>
      obtain rfl | hmem := List.mem_cons.mp hmem
      · exact Or.inl rfl
      · obtain hmem | hmem := List.mem_append.mp hmem
        · exact Or.inr (Or.inl (hcontent _ hmem))
        · exact Or.inr (Or.inr ⟨blocks, List.mem_singleton.mp hmem⟩)

theorem isContent_bounds {frame : Frame} (h : frame.isContent = true) : frame.bounds id = false := by
  cases frame with
  | blockStart index kind => rfl
  | textDelta index text => rfl
  | messageStart id' => cases h
  | assistant id' blocks => cases h
  | other => cases h

theorem mem_owned_self {e : String × Value} (he : e ∈ fs) : Frame.read e.2 ∈ owned e.1 fs :=
  List.mem_map_of_mem (List.mem_filter.mpr ⟨he, decide_eq_true rfl⟩)

theorem owner_of_bounds (h : Interleaved fs) {e : String × Value} (he : e ∈ fs)
    (hbounds : (Frame.read e.2).bounds id = true) : e.1 = id := by
  obtain hread | hcontent | ⟨blocks, hread⟩ := (h e he).mem (mem_owned_self he)
  · rw [hread] at hbounds
    exact of_decide_eq_true hbounds
  · rw [isContent_bounds hcontent] at hbounds
    cases hbounds
  · rw [hread] at hbounds
    exact of_decide_eq_true hbounds

theorem read_ne_other (h : Interleaved fs) : ∀ v ∈ fs.map Prod.snd, Frame.read v ≠ .other := by
  intro v hv hread
  obtain ⟨e, he, rfl⟩ := List.mem_map.mp hv
  obtain hstart | hcontent | ⟨blocks, hassistant⟩ := (h e he).mem (mem_owned_self he)
  · exact Frame.noConfusion (hread.symm.trans hstart)
  · rw [hread] at hcontent
    cases hcontent
  · exact Frame.noConfusion (hread.symm.trans hassistant)

theorem filter_bounds (h : Interleaved fs) :
    (framesOf fs).filter (Frame.bounds id) = (owned id fs).filter (Frame.bounds id) := by
  rw [framesOf, owned, List.filter_map, List.filter_map, List.filter_filter]
  congr 1
  refine List.filter_congr fun e he ↦ ?_
  cases hbounds : (Frame.read e.2).bounds id with
  | false => simp [hbounds]
  | true => simp [hbounds, owner_of_bounds h he hbounds]

theorem bounds_start : (Frame.messageStart id).bounds id = true := decide_eq_true rfl

theorem bounds_assistant (blocks : List Value) : (Frame.assistant id blocks).bounds id = true :=
  decide_eq_true rfl

theorem mem_owned {frame : Frame} (h : Interleaved fs) (hframe : frame ∈ framesOf fs)
    (hbounds : frame.bounds id = true) : frame ∈ owned id fs ∧ MessageFrames id (owned id fs) := by
  obtain ⟨e, he, rfl⟩ := List.mem_map.mp hframe
  have howner := owner_of_bounds h he hbounds
  subst howner
  exact ⟨mem_owned_self he, h e he⟩

theorem layout (h : Interleaved fs) {blocks : List Value}
    (hframe : .assistant id blocks ∈ framesOf fs) : Layout id blocks (framesOf fs) := by
  obtain ⟨hmem, hframes⟩ := mem_owned h hframe (bounds_assistant blocks)
  have hfilter : (framesOf fs).filter (Frame.bounds id) = (owned id fs).filter (Frame.bounds id) :=
    filter_bounds h
  generalize owned id fs = l at hmem hframes hfilter
  cases hframes with
  | whole blocks' =>
      obtain ⟨-, rfl⟩ := Frame.assistant.inj (List.mem_singleton.mp hmem)
      rw [List.filter_cons_of_pos (bounds_assistant blocks), List.filter_nil] at hfilter
      obtain ⟨before, after, hsplit, hbefore, -, hafter⟩ := List.filter_eq_cons_iff.mp hfilter
      exact .whole before after (by simpa using hbefore)
        (by simpa using List.filter_eq_nil_iff.mp hafter) hsplit
  | streamed content blocks' hcontent htext =>
      have hblocks : blocks = blocks' := by
        obtain hstart | hmem := List.mem_cons.mp hmem
        · cases hstart
        · obtain hmem | hmem := List.mem_append.mp hmem
          · cases hcontent _ hmem
          · exact (Frame.assistant.inj (List.mem_singleton.mp hmem)).2
      subst hblocks
      have hnone : content.filter (Frame.bounds id) = [] :=
        List.filter_eq_nil_iff.mpr fun f hf ↦ by simp [isContent_bounds (hcontent f hf)]
      rw [List.filter_cons_of_pos bounds_start, List.filter_append, hnone, List.nil_append,
        List.filter_cons_of_pos (bounds_assistant blocks), List.filter_nil] at hfilter
      obtain ⟨before, rest, hsplit, hbefore, -, hrest⟩ := List.filter_eq_cons_iff.mp hfilter
      obtain ⟨between, after, rfl, hbetween, -, hafter⟩ := List.filter_eq_cons_iff.mp hrest
      exact .streamed before between after (by simpa using hbefore) (by simpa using hbetween)
        (by simpa using List.filter_eq_nil_iff.mp hafter) hsplit

theorem framesOf_append (fs fs' : List (String × Value)) :
    framesOf (fs ++ fs') = framesOf fs ++ framesOf fs' :=
  List.map_append

theorem owned_append (id : String) (fs fs' : List (String × Value)) :
    owned id (fs ++ fs') = owned id fs ++ owned id fs' := by
  rw [owned, List.filter_append, List.map_append]
  rfl

theorem opening {pre post : List (String × Value)} (h : Interleaved (pre ++ post))
    (hpre : ∀ frame ∈ framesOf pre, frame.isStart = false) :
    ∀ frame ∈ framesOf pre, ∃ id blocks, frame = .assistant id blocks := by
  intro frame hframe
  obtain ⟨e, he, rfl⟩ := List.mem_map.mp hframe
  have hown : Frame.read e.2 ∈ owned e.1 pre := mem_owned_self he
  have hsubset : ∀ frame ∈ owned e.1 pre, frame ∈ framesOf pre := by
    intro frame hframe
    obtain ⟨e', he', rfl⟩ := List.mem_map.mp hframe
    exact List.mem_map_of_mem (List.mem_of_mem_filter he')
  have hframes := h e (List.mem_append_left _ he)
  rw [owned_append] at hframes
  -- the message's own frames begin within `pre`
  obtain ⟨first, others, hpre'⟩ := List.exists_cons_of_ne_nil (List.ne_nil_of_mem hown)
  rw [hpre'] at hframes hown
  generalize hall : first :: others ++ owned e.1 post = all at hframes
  cases hframes with
  | whole blocks =>
      obtain ⟨rfl, hnil⟩ := List.cons.inj hall
      rw [(List.append_eq_nil_iff.mp hnil).1] at hown
      exact ⟨e.1, blocks, List.mem_singleton.mp hown⟩
  | streamed content blocks hcontent htext =>
      obtain ⟨rfl, -⟩ := List.cons.inj hall
      cases hpre _ (hsubset _ (hpre' ▸ List.mem_cons_self))

end Layout

section Once

variable {id : String} {blocks : List Value} {frames before between after : List Frame}
  {fs : List (String × Value)}

theorem spoken_assistants (id : String) (h : ∀ frame ∈ frames, ∃ id blocks, frame = .assistant id blocks)
    (s : StreamState) (hs : s.streamedText = false) :
    spoken id s frames = consolidated id frames ∧ frames.foldl StreamState.next s = s := by
  induction frames with
  | nil => exact ⟨rfl, rfl⟩
  | cons frame frames ih =>
      obtain ⟨⟨id', blocks, rfl⟩, hframes⟩ := List.forall_mem_cons.mp h
      obtain ⟨hspoken, hstate⟩ := ih hframes
      have hsaid : said id s (.assistant id' blocks) = (Frame.assistant id' blocks).consolidated id := by
        simp [said, hs, Frame.consolidated]
      refine ⟨?_, hstate⟩
      rw [spoken, hsaid, StreamState.next, hspoken]
      rfl

theorem spoken_before {pre post : List (String × Value)} (h : Interleaved (pre ++ post))
    (hpre : ∀ frame ∈ framesOf pre, ¬(frame.isStart ∧ frame.bounds id)) :
    spoken id .default (framesOf pre) = consolidated id (framesOf pre) := by
  let start (e : String × Value) : Bool := (Frame.read e.2).isStart
  have hsplit : pre = pre.takeWhile (fun e ↦ !start e) ++ pre.dropWhile fun e ↦ !start e :=
    List.takeWhile_append_dropWhile.symm
  have hnone : ∀ frame ∈ framesOf (pre.takeWhile fun e ↦ !start e), frame.isStart = false := by
    intro frame hframe
    obtain ⟨e, he, rfl⟩ := List.mem_map.mp hframe
    simpa using List.mem_takeWhile_imp he
  have hhead := List.head?_dropWhile_not (fun e ↦ !start e) pre
  generalize pre.takeWhile (fun e ↦ !start e) = first at hsplit hnone
  generalize pre.dropWhile (fun e ↦ !start e) = others at hsplit hhead
  subst hsplit
  rw [List.append_assoc] at h
  obtain ⟨hspoken, hstate⟩ := spoken_assistants id (opening h hnone) .default rfl
  rw [framesOf_append, spoken_append, hspoken, hstate]
  rw [consolidated, consolidated, List.flatMap_append]
  congr 1
  cases others with
  | nil => rfl
  | cons e others =>
      rw [framesOf_append] at hpre
      obtain ⟨hfirst, hothers⟩ := List.forall_mem_cons.mp (List.forall_mem_append.mp hpre).2
      have hother : ¬((Frame.read e.2).isStart ∧ (Frame.read e.2).bounds id) := hfirst
      have hstart : (Frame.read e.2).isStart = true := by simpa [start] using hhead
      change spoken id .default (Frame.read e.2 :: framesOf others) =
        consolidated id (Frame.read e.2 :: framesOf others)
      generalize Frame.read e.2 = frame at hother hstart
      cases frame with
      | messageStart id' =>
          have hid : id' ≠ id := fun hid ↦ hother ⟨rfl, decide_eq_true hid⟩
          have hsaid : said id .default (.messageStart id') = [] := ite_self _
          rw [spoken, hsaid, List.nil_append]
          exact spoken_elsewhere hothers hid
      | _ => cases hstart

theorem notStart_of_bounds (h : ∀ frame ∈ frames, frame.bounds id = false) :
    ∀ frame ∈ frames, ¬(frame.isStart ∧ frame.bounds id) :=
  fun frame hframe hstart ↦ by
    rw [h frame hframe] at hstart
    exact Bool.false_ne_true hstart.2

theorem window_of_notStart (h : ∀ frame ∈ frames, ¬(frame.isStart ∧ frame.bounds id)) :
    window id frames = [] := by
  have hnone : frames.dropWhile (fun frame ↦ !(frame.isStart && frame.bounds id)) = [] :=
    List.dropWhile_eq_nil_iff.mpr fun frame hframe ↦ by simpa [imp_iff_not_or] using h frame hframe
  rw [window, hnone]
  rfl

theorem window_start (id : String) (after : List Frame) :
    window id (.messageStart id :: after) = after.takeWhile fun frame ↦ !frame.isStart := by
  rw [window, List.dropWhile_cons_of_neg]
  · rfl
  · simp [Frame.isStart, bounds_start]

theorem window_of_start (h : ∀ frame ∈ before, ¬(frame.isStart ∧ frame.bounds id)) :
    window id (before ++ .messageStart id :: after) = window id (.messageStart id :: after) := by
  have hall : ∀ frame ∈ before, (!(frame.isStart && frame.bounds id)) = true :=
    fun frame hframe ↦ by simpa [imp_iff_not_or] using h frame hframe
  rw [window, List.dropWhile_append_of_pos hall]
  rfl

theorem join_eq_empty {texts : List String} (hne : ∀ text ∈ texts, text ≠ "")
    (h : (String.join texts).length = 0) : texts = [] := by
  cases texts with
  | nil => rfl
  | cons text texts =>
      rw [String.join_cons, String.length_append] at h
      have htext : text.length = 0 := by omega
      exact absurd (String.length_eq_zero_iff.mp htext) (hne text List.mem_cons_self)

theorem join_around (texts : List String) {around around' : List String}
    (hne : ∀ text ∈ around, text ≠ "") (hne' : ∀ text ∈ around', text ≠ "") :
    String.join (around ++ texts ++ around') = String.join texts ↔ around = [] ∧ around' = [] := by
  constructor
  · intro h
    have hlength := congrArg String.length h
    rw [String.join_append, String.join_append, String.length_append, String.length_append] at hlength
    exact ⟨join_eq_empty hne (by omega), join_eq_empty hne' (by omega)⟩
  · rintro ⟨rfl, rfl⟩
    rw [List.nil_append, List.append_nil]

theorem taken_ne_empty (kinds : Table ℕ StreamBlockKind) (frames : List Frame) :
    ∀ text ∈ taken kinds frames, text ≠ "" := by
  induction frames generalizing kinds with
  | nil => exact fun _ h ↦ absurd h List.not_mem_nil
  | cons frame frames ih =>
      refine List.forall_mem_append.mpr ⟨?_, ih _⟩
      cases frame with
      | textDelta index text =>
          simp only [Frame.heard]
          split
          · next h => simpa using h.2
          · exact fun _ h ↦ absurd h List.not_mem_nil
      | _ => exact fun _ h ↦ absurd h List.not_mem_nil

theorem first_start (frames : List Frame) :
    (∀ f ∈ frames, f.isStart = false) ∨
      ∃ first id others, (∀ f ∈ first, f.isStart = false) ∧
        frames = first ++ .messageStart id :: others := by
  induction frames with
  | nil => exact Or.inl fun _ h ↦ absurd h List.not_mem_nil
  | cons frame frames ih =>
      cases hframe : frame.isStart with
      | true =>
          cases frame with
          | messageStart id => exact Or.inr ⟨[], id, frames, fun _ h ↦ absurd h List.not_mem_nil, rfl⟩
          | _ => cases hframe
      | false =>
          obtain hnone | ⟨first, id, others, hfirst, rfl⟩ := ih
          · exact Or.inl (List.forall_mem_cons.mpr ⟨hframe, hnone⟩)
          · exact Or.inr ⟨frame :: first, id, others,
              List.forall_mem_cons.mpr ⟨hframe, hfirst⟩, rfl⟩

theorem spoken_behind (s : StreamState) (h : ∀ f ∈ frames, f.bounds id = false) :
    spoken id s (frames.dropWhile fun frame ↦ !frame.isStart) = [] := by
  have hhead := List.head?_dropWhile_not (fun frame : Frame ↦ !frame.isStart) frames
  have hsub := (List.dropWhile_suffix (fun frame : Frame ↦ !frame.isStart) (l := frames)).subset
  generalize frames.dropWhile (fun frame ↦ !frame.isStart) = l at hhead hsub
  cases l with
  | nil => rfl
  | cons frame others =>
      obtain ⟨hframe, hothers⟩ := List.forall_mem_cons.mp fun f hf ↦ h f (hsub hf)
      have hstart : frame.isStart = true := by simpa using hhead
      cases frame with
      | messageStart id' =>
          have hid : id' ≠ id := of_decide_eq_false hframe
          have hsaid : said id s (.messageStart id') = [] := ite_self _
          rw [spoken, hsaid, List.nil_append]
          exact (spoken_elsewhere (notStart_of_bounds hothers) hid).trans
            (consolidated_eq_nil hothers)
      | _ => cases hstart

theorem undisturbed_of_inTime (hstart : ∀ f ∈ between, f.isStart = false)
    (hbetween : ∀ f ∈ between, f.bounds id = false) (hafter : ∀ f ∈ after, f.bounds id = false) :
    String.join (spoken id ⟨id, ∅, false, false⟩ (between ++ .assistant id blocks :: after)) =
        consolidatedText blocks ↔
      Undisturbed id (consolidatedText blocks)
        (.messageStart id :: (between ++ .assistant id blocks :: after)) := by
  -- what comes after the consolidated frame within the window
  have hlate : ∀ f ∈ after.takeWhile (fun frame ↦ !frame.isStart), f.isStart = false :=
    fun f hf ↦ by simpa using List.mem_takeWhile_imp hf
  have hlate' : ∀ f ∈ after.takeWhile (fun frame ↦ !frame.isStart), f.bounds id = false :=
    fun f hf ↦ hafter f ((List.takeWhile_prefix _).subset hf)
  have hwindow : window id (.messageStart id :: (between ++ .assistant id blocks :: after)) =
      between ++ .assistant id blocks :: after.takeWhile fun frame ↦ !frame.isStart := by
    rw [window_start, List.takeWhile_append_of_pos (by simpa using hstart)]
    rfl
  have hsplit : after = after.takeWhile (fun frame ↦ !frame.isStart) ++
      after.dropWhile fun frame ↦ !frame.isStart := List.takeWhile_append_dropWhile.symm
  have hbehind := fun s ↦ spoken_behind s hafter
  generalize after.takeWhile (fun frame ↦ !frame.isStart) = late at *
  generalize after.dropWhile (fun frame ↦ !frame.isStart) = behind at *
  subst hsplit
  obtain ⟨hspoken, hstate⟩ := spoken_window (s := ⟨id, ∅, false, false⟩) hstart hbetween rfl
  obtain ⟨hlateSpoken, -⟩ := spoken_window (s := between.foldl StreamState.next
    ⟨id, ∅, false, false⟩) hlate hlate' (by rw [hstate])
  have hall : spoken id ⟨id, ∅, false, false⟩
      (between ++ .assistant id blocks :: (late ++ behind)) =
        taken ∅ between ++ (if taken ∅ between = [] then blockTexts blocks else []) ++
          taken (between.foldl Frame.announce ∅) late := by
    have hsaid : said id (between.foldl StreamState.next ⟨id, ∅, false, false⟩)
        (.assistant id blocks) = if taken ∅ between = [] then blockTexts blocks else [] := by
      simp [said, hstate]
    rw [spoken_append, hspoken, spoken, hsaid, StreamState.next, spoken_append, hlateSpoken, hbehind,
      hstate, List.append_nil, List.append_assoc]
  have htaken : taken ∅ (between ++ .assistant id blocks :: late) =
      taken ∅ between ++ taken (between.foldl Frame.announce ∅) late := taken_append _ _ _
  have hbefore : (between ++ .assistant id blocks :: late).takeWhile (fun f ↦ !f.bounds id) =
      between := by
    rw [List.takeWhile_append_of_pos (by simpa using hbetween),
      List.takeWhile_cons_of_neg (by simp [bounds_assistant]), List.append_nil]
  have hfound : ∃ f ∈ between ++ .assistant id blocks :: late, f.bounds id :=
    ⟨_, List.mem_append_right _ List.mem_cons_self, bounds_assistant blocks⟩
  rw [hall, Undisturbed, hwindow, htaken, hbefore]
  by_cases hnone : taken ∅ between = []
  · have hjoin := join_around (blockTexts blocks) (taken_ne_empty ∅ [])
      (taken_ne_empty (between.foldl Frame.announce ∅) late)
    rw [taken, List.nil_append, and_iff_right rfl] at hjoin
    rw [if_pos hnone, hnone, List.nil_append, List.nil_append, consolidatedText]
    exact hjoin.trans (or_iff_left fun h ↦ h.2.1 rfl).symm
  · have hsome : taken ∅ between ++ taken (between.foldl Frame.announce ∅) late ≠ [] :=
      fun h ↦ hnone (List.append_eq_nil_iff.mp h).1
    rw [if_neg hnone, List.append_nil, or_iff_right hsome, and_iff_right hfound,
      and_iff_right hnone]

theorem undisturbed_of_overtaken {id' : String} (hid : id' ≠ id)
    (hstart : ∀ f ∈ before, f.isStart = false) (hbefore : ∀ f ∈ before, f.bounds id = false)
    (hbetween : ∀ f ∈ between, f.bounds id = false) (hafter : ∀ f ∈ after, f.bounds id = false) :
    String.join (spoken id ⟨id, ∅, false, false⟩
        (before ++ .messageStart id' :: (between ++ .assistant id blocks :: after))) =
        consolidatedText blocks ↔
      Undisturbed id (consolidatedText blocks) (.messageStart id ::
        (before ++ .messageStart id' :: (between ++ .assistant id blocks :: after))) := by
  have hwindow : window id (.messageStart id ::
      (before ++ .messageStart id' :: (between ++ .assistant id blocks :: after))) = before := by
    rw [window_start, List.takeWhile_append_of_pos (by simpa using hstart)]
    simp [Frame.isStart]
  have hrest : spoken id (before.foldl StreamState.next ⟨id, ∅, false, false⟩)
      (.messageStart id' :: (between ++ .assistant id blocks :: after)) = blockTexts blocks := by
    have hsaid (s) : said id s (.messageStart id') = [] := ite_self _
    have hothers : ∀ f ∈ between ++ .assistant id blocks :: after, ¬(f.isStart ∧ f.bounds id) := by
      refine List.forall_mem_append.mpr ⟨notStart_of_bounds hbetween, ?_⟩
      exact List.forall_mem_cons.mpr ⟨fun h ↦ Bool.false_ne_true h.1, notStart_of_bounds hafter⟩
    rw [spoken, hsaid, List.nil_append, spoken_elsewhere hothers hid]
    exact consolidated_assistant hbetween hafter
  obtain ⟨hspoken, -⟩ := spoken_window (s := ⟨id, ∅, false, false⟩) hstart hbefore rfl
  have hjoin := join_around (blockTexts blocks) (taken_ne_empty ∅ before)
    (taken_ne_empty ∅ [])
  rw [taken, List.append_nil] at hjoin
  rw [spoken_append, hspoken, hrest, consolidatedText, hjoin, Undisturbed, hwindow, and_iff_left rfl]
  refine (or_iff_left ?_).symm
  rintro ⟨⟨frame, hframe, hbounds⟩, -⟩
  rw [hbefore frame hframe] at hbounds
  cases hbounds

variable {content : OtherContent σ ε} {others : FrameParser (ParserState σ) (ClaudeEvent ε)}
  {rest : σ}

/-- Streamed or not, the text of every message comes out once exactly if the message is not
disturbed. -/
theorem text_once_iff_undisturbed (content : OtherContent σ ε)
    (others : FrameParser (ParserState σ) (ClaudeEvent ε)) (rest : σ) {fs : List (String × Value)}
    (h : Interleaved fs) :
    (∀ id blocks, .assistant id blocks ∈ framesOf fs →
      String.join (emitted (contentParser content others) rest id fs) = consolidatedText blocks) ↔
      ∀ id blocks, .assistant id blocks ∈ framesOf fs →
        Undisturbed id (consolidatedText blocks) (framesOf fs) := by
  refine forall_congr' fun id ↦ forall_congr' fun blocks ↦ forall_congr' fun hmem ↦ ?_
  have hemitted : emitted (contentParser content others) rest id fs =
      spoken id .default (framesOf fs) := by
    rw [emitted, deltasOf_thread others _ (read_ne_other h), List.map_map]
    rfl
  rw [hemitted]
  obtain ⟨before, after, hbefore, hafter, hframes⟩ |
    ⟨before, between, after, hbefore, hbetween, hafter, hframes⟩ := layout h hmem
  · have hnone : ∀ frame ∈ framesOf fs, ¬(frame.isStart ∧ frame.bounds id) := by
      rw [hframes]
      refine List.forall_mem_append.mpr ⟨notStart_of_bounds hbefore, ?_⟩
      exact List.forall_mem_cons.mpr ⟨fun h ↦ Bool.false_ne_true h.1, notStart_of_bounds hafter⟩
    rw [← List.append_nil fs] at h
    have htext : String.join (spoken id .default (framesOf fs)) = consolidatedText blocks := by
      rw [spoken_before h hnone, hframes, consolidated_assistant hbefore hafter]
      rfl
    exact iff_of_true htext (Or.inl (by rw [window_of_notStart hnone]; rfl))
  · obtain ⟨pre, post, rfl, hpre, hpost⟩ := List.map_eq_append_iff.mp hframes
    have hbefore' : ∀ frame ∈ framesOf pre, ¬(frame.isStart ∧ frame.bounds id) := by
      rw [framesOf, hpre]
      exact notStart_of_bounds hbefore
    have hspoken : spoken id .default (framesOf (pre ++ post)) =
        spoken id ⟨id, ∅, false, false⟩ (between ++ .assistant id blocks :: after) := by
      have hsaid (s) : said id s (.messageStart id) = [] := ite_self _
      have hpost' : framesOf post = .messageStart id :: (between ++ .assistant id blocks :: after) :=
        hpost
      rw [framesOf_append, spoken_append, spoken_before h hbefore', hpost', framesOf, hpre,
        consolidated_eq_nil hbefore, spoken, hsaid]
      rfl
    have hall : framesOf (pre ++ post) =
        before ++ .messageStart id :: (between ++ .assistant id blocks :: after) := hframes
    have hwindow : Undisturbed id (consolidatedText blocks) (framesOf (pre ++ post)) ↔
        Undisturbed id (consolidatedText blocks)
          (.messageStart id :: (between ++ .assistant id blocks :: after)) := by
      rw [Undisturbed, hall, window_of_start (notStart_of_bounds hbefore)]
      rfl
    rw [hspoken, hwindow]
    obtain hstart | ⟨first, id', others, hfirst, rfl⟩ := first_start between
    · exact undisturbed_of_inTime hstart hbetween hafter
    · obtain ⟨hbefore, hothers⟩ := List.forall_mem_append.mp hbetween
      obtain ⟨hid, hothers⟩ := List.forall_mem_cons.mp hothers
      rw [List.append_assoc, List.cons_append]
      exact undisturbed_of_overtaken (of_decide_eq_false hid) hfirst hbefore hothers hafter

end Once

section Overtaken

-- two messages with one block of text each, streamed one after the other or interleaved

def streamFrame (event : List (String × Value)) : Value :=
  .object [("type", .string "stream_event"), ("event", .object event)]

def startFrame (id : String) : Value :=
  streamFrame [("type", .string "message_start"), ("message", .object [("id", .string id)])]

def blockFrame : Value :=
  streamFrame [("type", .string "content_block_start"), ("index", .number "0"),
    ("content_block", .object [("type", .string "text")])]

def deltaFrame (text : String) : Value :=
  streamFrame [("type", .string "content_block_delta"), ("index", .number "0"),
    ("delta", .object [("type", .string "text_delta"), ("text", .string text)])]

def textBlock (text : String) : Value := .object [("type", .string "text"), ("text", .string text)]

def assistantFrame (id text : String) : Value :=
  .object [("type", .string "assistant"),
    ("message", .object [("id", .string id), ("content", .array [textBlock text])])]

def noContent : OtherContent Unit Unit := ⟨fun s _ ↦ (s, []), fun s _ ↦ (s, [])⟩

def skipFrame (s : ParserState Unit) (_ : Value) :
    ParserState Unit × List (SessionEvent (ClaudeEvent Unit)) := (s, [])

def noHandlers : FrameParser (ParserState Unit) (ClaudeEvent Unit) :=
  ⟨fun _ ↦ none, skipFrame, skipFrame, skipFrame, skipFrame, skipFrame, skipFrame, skipFrame,
    skipFrame⟩

/-- The second message is started before the consolidated frame of the first has come. -/
def overtaken : List (String × Value) :=
  [("a", startFrame "a"), ("a", blockFrame), ("a", deltaFrame "x"), ("b", startFrame "b"),
    ("a", assistantFrame "a" "x"), ("b", blockFrame), ("b", deltaFrame "y"),
    ("b", assistantFrame "b" "y")]

/-- The second message comes whole while the first is streamed. -/
def inTurn : List (String × Value) :=
  [("a", startFrame "a"), ("a", blockFrame), ("b", assistantFrame "b" "y"), ("a", deltaFrame "x"),
    ("a", assistantFrame "a" "x")]

theorem messageFrames_streamed (id text : String) (htext : text ≠ "") :
    MessageFrames id [.messageStart id, .blockStart (some 0) .text, .textDelta (some 0) text,
      .assistant id [textBlock text]] := by
  refine .streamed [.blockStart (some 0) .text, .textDelta (some 0) text] [textBlock text]
    (by simp [Frame.isContent]) ?_
  have htaken : taken ∅ [.blockStart (some 0) .text, .textDelta (some 0) text] = [text] := by
    have hkind : AList.lookup 0 ((∅ : Table ℕ StreamBlockKind).insert 0 .text) = some .text := rfl
    simp only [taken, Frame.heard, Frame.announce, Option.bind_some, hkind, htext, ne_eq,
      not_false_eq_true, and_self, if_true, List.append_nil, List.nil_append]
  rw [htaken]
  rfl

theorem overtaken_interleaved : Interleaved overtaken := by
  have ha : MessageFrames "a" (owned "a" overtaken) := messageFrames_streamed "a" "x" (by decide)
  have hb : MessageFrames "b" (owned "b" overtaken) := messageFrames_streamed "b" "y" (by decide)
  have hids : ∀ e ∈ overtaken, e.1 = "a" ∨ e.1 = "b" := by decide
  intro e he
  obtain hid | hid := hids e he
  · exact hid ▸ ha
  · exact hid ▸ hb

theorem inTurn_interleaved : Interleaved inTurn := by
  have ha : MessageFrames "a" (owned "a" inTurn) := messageFrames_streamed "a" "x" (by decide)
  have hb : MessageFrames "b" (owned "b" inTurn) := .whole [textBlock "y"]
  have hids : ∀ e ∈ inTurn, e.1 = "a" ∨ e.1 = "b" := by decide
  intro e he
  obtain hid | hid := hids e he
  · exact hid ▸ ha
  · exact hid ▸ hb

/-- The text of a message that is overtaken comes out twice. -/
theorem overtaken_text_twice :
    Interleaved overtaken ∧ .assistant "a" [textBlock "x"] ∈ framesOf overtaken ∧
      consolidatedText [textBlock "x"] = "x" ∧
      String.join (emitted (contentParser noContent noHandlers) () "a" overtaken) = "xx" :=
  ⟨overtaken_interleaved,
    List.mem_of_getElem? (show (framesOf overtaken)[4]? = some (.assistant "a" _) from rfl), rfl,
    by decide⟩

/-- Here both messages come out once. -/
theorem inTurn_text_once :
    String.join (emitted (contentParser noContent noHandlers) () "a" inTurn) = "x" ∧
      String.join (emitted (contentParser noContent noHandlers) () "b" inTurn) = "y" := by
  have hframes : framesOf inTurn =
      [.messageStart "a", .blockStart (some 0) .text, .assistant "b" [textBlock "y"],
        .textDelta (some 0) "x", .assistant "a" [textBlock "x"]] := rfl
  have honce := (text_once_iff_undisturbed noContent noHandlers () inTurn_interleaved).mpr ?_
  · exact ⟨honce "a" [textBlock "x"] (by rw [hframes]; simp),
      honce "b" [textBlock "y"] (by rw [hframes]; simp)⟩
  · intro id blocks hmem
    rw [hframes] at hmem ⊢
    simp only [List.mem_cons, reduceCtorEq, Frame.assistant.injEq, List.not_mem_nil, or_false,
      false_or] at hmem
    obtain ⟨rfl, rfl⟩ | ⟨rfl, rfl⟩ := hmem
    · exact Or.inl rfl
    · exact Or.inr ⟨⟨.assistant "a" [textBlock "x"],
        by simp [window, Frame.isStart, Frame.bounds]⟩, by decide, rfl⟩

end Overtaken

end Zaowutai.Adapter
