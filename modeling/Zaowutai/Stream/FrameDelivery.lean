import Mathlib.Data.List.Perm.Basic
import Zaowutai.Stream.BackgroundStream

/-!
# Every content frame is consumed by one relay

A frame is taken by the relays that have consumed it or are bound to.  The
watcher decides, when it reads a frame, whether a relay of its own takes it;
the frame is taken once exactly if it leaves the frames alone that the relay of
a user turn takes, and no others.
-/

namespace Zaowutai.Stream

open Zaowutai.Conversation Zaowutai.Lib

def StreamStep.isQuiet : StreamStep → Bool
  | .send _ | .watch _ _ => false
  | _ => true

namespace SessionStream

variable (s : SessionStream)

def orphanFeed : Receiver Frame :=
  match s.orphan with
  | none => .ended
  | some orphan => orphan.feed

/-- No reader gets the frame any more. -/
def Settled (frame : Frame) : Prop :=
  frame ∉ s.watched ∧ frame ∉ s.relay.queue ∧ frame ∉ s.orphanFeed.queue

def DeliveredOnce : Prop :=
  ∀ frame ∈ s.sent, frame.event.isContent = true →
    s.consumed.count frame ≤ 1 ∧ (s.Settled frame → s.consumed.count frame = 1)

def Drained : Prop := s.watched = [] ∧ s.relay.queue = [] ∧ s.orphanFeed.queue = []

def nextFrame : Option Frame :=
  match s.orphan with
  | none => s.watched.head?
  | some orphan => if orphan.closed then none else s.watched.head?

def userTakes : List Frame := s.consumed ++ s.relay.reads Frame.isTerminal

def leaves : Bool :=
  match s.orphan with
  | none => (s.runtime.activeTurnIdFor s.conversationId).isSome
  | some orphan => s.isForeign orphan.turnId || !orphan.feed.readsOn Frame.isTerminal

def Agrees : StreamStep → Prop
  | .watch _ _ => ∀ frame ∈ s.nextFrame, frame.event.isContent = true →
      (frame ∈ s.userTakes ↔ s.leaves = true)
  | _ => True

/-- The frames that some relay has consumed or is bound to. -/
def taken : List Frame := s.userTakes ++ s.orphanFeed.reads Frame.isTerminal

def added : StreamStep → List Frame
  | .send event => if s.relay.readsOn Frame.isTerminal then [⟨s.sent.length, event⟩] else []
  | .watch _ _ => (s.nextFrame.filter fun frame ↦
      !s.leaves && (s.orphan.isSome || isOrphanTurnContent frame.event)).toList
  | _ => []

section Taken

theorem taken_send (event : AgentStreamEvent) :
    (s.step (.send event)).taken.Perm (s.taken ++ s.added (.send event)) := by
  change (s.consumed ++ (s.relay.send ⟨s.sent.length, event⟩).reads Frame.isTerminal ++
    s.orphanFeed.reads Frame.isTerminal).Perm _
  rw [Receiver.reads_send, taken, userTakes, added]
  simp only [List.append_assoc]
  exact List.Perm.append_left _ (List.Perm.append_left _ List.perm_append_comm)

theorem taken_relayReceives :
    (s.step .relayReceives).taken.Perm (s.taken ++ s.added .relayReceives) := by
  change (s.consumed ++ (s.relay.receive Frame.isTerminal).1.toList ++
    (s.relay.receive Frame.isTerminal).2.reads Frame.isTerminal ++
      s.orphanFeed.reads Frame.isTerminal).Perm (s.taken ++ [])
  rw [List.append_nil, taken, userTakes, List.append_assoc s.consumed, Receiver.reads_receive]

theorem taken_same {s s' : SessionStream} (huser : s'.userTakes = s.userTakes)
    (hfeed : s'.orphanFeed.reads Frame.isTerminal = s.orphanFeed.reads Frame.isTerminal) :
    s'.taken.Perm (s.taken ++ []) := by
  rw [List.append_nil, taken, taken, huser, hfeed]

theorem orphanFeed_some {s : SessionStream} {orphan : OrphanTurn} (h : s.orphan = some orphan) :
    s.orphanFeed = orphan.feed := by
  rw [orphanFeed, h]

theorem taken_orphanReceives :
    (s.step .orphanReceives).taken.Perm (s.taken ++ s.added .orphanReceives) := by
  change s.orphanReceives.taken.Perm (s.taken ++ [])
  rw [orphanReceives]
  cases horphan : s.orphan with
  | none => exact taken_same rfl rfl
  | some orphan =>
      simp only
      split
      · next hclosed =>
          refine taken_same rfl ?_
          rw [orphanFeed_some horphan, Receiver.reads_of_queue_eq_nil hclosed.2]
          rfl
      · change (s.consumed ++ (orphan.feed.receive Frame.isTerminal).1.toList ++
          s.relay.reads Frame.isTerminal ++
            (orphan.feed.receive Frame.isTerminal).2.reads Frame.isTerminal).Perm (s.taken ++ [])
        rw [taken, userTakes, orphanFeed_some horphan, ← orphan.feed.reads_receive]
        simp only [List.append_assoc, List.append_nil]
        refine List.Perm.append_left _ ?_
        rw [← List.append_assoc, ← List.append_assoc]
        exact List.Perm.append_right _ List.perm_append_comm

theorem taken_watchIdle {s : SessionStream} (hnone : s.orphan = none) (turnId : String)
    (fresh : Bool) (frame : Frame) :
    (s.watchIdle turnId fresh frame).taken =
      s.taken ++ if !s.leaves && isOrphanTurnContent frame.event then [frame] else [] := by
  have hfeed : s.orphanFeed = .ended := by
    rw [orphanFeed, hnone]
  have hleaves : s.leaves = (s.runtime.activeTurnIdFor s.conversationId).isSome := by
    rw [leaves, hnone]
  rw [watchIdle]
  split
  · next hevent => simp [hevent, isOrphanTurnContent]
  · next clientMsgId phase hevent =>
      have hsame : (s.noteLifecycle clientMsgId phase).taken = s.taken := by
        cases phase with
        | queued | started => rfl
        | completed | cancelled =>
            rw [noteLifecycle]
            split <;> rfl
      simp [hevent, isOrphanTurnContent, hsame]
  · rw [hleaves]
    split
    · next hactive => simp [hactive]
    · next hactive =>
        rw [Bool.not_eq_true] at hactive
        rw [hactive, Bool.not_false, Bool.true_and]
        split
        · change s.userTakes ++ (Receiver.waiting [frame]).reads Frame.isTerminal =
            s.taken ++ [frame]
          have hreads : (Receiver.waiting [frame]).reads Frame.isTerminal = [frame] := by
            rw [Receiver.reads, Receiver.queue, Receiver.through, Receiver.through]
            exact ite_self _
          rw [hreads, taken, hfeed]
          exact congrArg (· ++ [frame]) (List.append_nil _).symm
        · exact (List.append_nil _).symm

theorem taken_feedOrphan {s : SessionStream} {orphan : OrphanTurn} (horphan : s.orphan = some orphan)
    (frame : Frame) :
    (s.feedOrphan orphan frame).taken = s.taken ++ if !s.leaves then [frame] else [] := by
  have hleaves : s.leaves =
      (s.isForeign orphan.turnId || !orphan.feed.readsOn Frame.isTerminal) := by
    rw [leaves, horphan]
  have htaken : s.taken = s.userTakes ++ orphan.feed.reads Frame.isTerminal := by
    rw [taken, orphanFeed_some horphan]
  rw [feedOrphan, hleaves, htaken]
  split
  · next hforeign =>
      rw [hforeign, Bool.true_or]
      exact (List.append_nil _).symm
  · next hforeign =>
      rw [Bool.not_eq_true] at hforeign
      rw [hforeign, Bool.false_or, Bool.not_not, List.append_assoc, ← Receiver.reads_send]
      rfl

theorem watch_cases (turnId : String) (fresh : Bool) :
    (s.nextFrame = none ∧ s.watch turnId fresh = s) ∨
      ∃ frame watched, s.watched = frame :: watched ∧ s.nextFrame = some frame ∧
        ((s.orphan = none ∧
            s.watch turnId fresh = { s with watched }.watchIdle turnId fresh frame) ∨
          ∃ orphan, s.orphan = some orphan ∧ orphan.closed = false ∧
            s.watch turnId fresh = { s with watched }.feedOrphan orphan frame) := by
  cases hwatched : s.watched with
  | nil =>
      refine .inl ⟨?_, ?_⟩
      · rw [nextFrame, hwatched]
        split
        · rfl
        · split <;> rfl
      · rw [watch, hwatched]
  | cons frame watched =>
      obtain horphan | ⟨orphan, horphan⟩ := Option.eq_none_or_eq_some s.orphan
      · refine .inr ⟨frame, watched, rfl, ?_, .inl ⟨horphan, ?_⟩⟩
        · simp only [nextFrame, horphan, hwatched, List.head?_cons]
        · simp only [watch, horphan, hwatched]
      · by_cases hclosed : orphan.closed = true
        · refine .inl ⟨?_, ?_⟩
          · simp only [nextFrame, horphan, if_pos hclosed]
          · simp only [watch, horphan, hwatched, if_pos hclosed]
        · refine .inr ⟨frame, watched, rfl, ?_, .inr ⟨orphan, horphan, ?_, ?_⟩⟩
          · simp only [nextFrame, horphan, hwatched, if_neg hclosed, List.head?_cons]
          · rwa [Bool.not_eq_true] at hclosed
          · simp only [watch, horphan, hwatched, if_neg hclosed]

theorem taken_watch (turnId : String) (fresh : Bool) :
    (s.step (.watch turnId fresh)).taken = s.taken ++ s.added (.watch turnId fresh) := by
  change (s.watch turnId fresh).taken = _
  rw [added]
  obtain ⟨hnone, hwatch⟩ | ⟨frame, watched, -, hnext, hcases⟩ := s.watch_cases turnId fresh
  · rw [hnone, hwatch]
    exact (List.append_nil _).symm
  · rw [hnext, Option.filter_some]
    obtain ⟨horphan, hwatch⟩ | ⟨orphan, horphan, -, hwatch⟩ := hcases
    · have hidle := taken_watchIdle (s := { s with watched }) horphan turnId fresh frame
      refine (congrArg taken hwatch).trans (hidle.trans (congrArg (s.taken ++ ·) ?_))
      change (if !s.leaves && isOrphanTurnContent frame.event then [frame] else []) = _
      rw [horphan, Option.isSome_none, Bool.false_or]
      split <;> rfl
    · have hfed := taken_feedOrphan (s := { s with watched }) horphan frame
      refine (congrArg taken hwatch).trans (hfed.trans (congrArg (s.taken ++ ·) ?_))
      change (if !s.leaves then [frame] else []) = _
      rw [horphan, Option.isSome_some, Bool.true_or, Bool.and_true]
      split <;> rfl

theorem taken_step (a : StreamStep) : (s.step a).taken.Perm (s.taken ++ s.added a) := by
  cases a with
  | send event => exact s.taken_send event
  | relayReceives => exact s.taken_relayReceives
  | orphanReceives => exact s.taken_orphanReceives
  | watch turnId fresh => exact .of_eq (s.taken_watch turnId fresh)
  | claimTurn turnId =>
      change (s.claimTurn turnId).taken.Perm (s.taken ++ [])
      rw [claimTurn]
      split <;> exact taken_same rfl rfl
  | subscribe =>
      change s.subscribe.taken.Perm (s.taken ++ [])
      rw [subscribe]
      split
      · next h =>
          refine taken_same ?_ rfl
          rw [userTakes, userTakes, h.2]
          rfl
      · exact taken_same rfl rfl
  | sendFails =>
      change s.sendFails.taken.Perm (s.taken ++ [])
      rw [sendFails]
      split
      · next h =>
          refine taken_same ?_ rfl
          rw [userTakes, userTakes, Receiver.reads_of_queue_eq_nil h]
          rfl
      · exact taken_same rfl rfl
  | releaseTurn =>
      change s.releaseTurn.taken.Perm (s.taken ++ [])
      rw [releaseTurn]
      split
      · split <;> exact taken_same rfl rfl
      · exact taken_same rfl rfl
  | orphanIdles =>
      change s.orphanIdles.taken.Perm (s.taken ++ [])
      rw [orphanIdles]
      cases horphan : s.orphan with
      | none => exact taken_same rfl rfl
      | some orphan =>
          simp only
          split
          · exact taken_same rfl (by rw [orphanFeed_some horphan]; rfl)
          · exact taken_same rfl rfl
  | orphanEnds =>
      change s.orphanEnds.taken.Perm (s.taken ++ [])
      rw [orphanEnds]
      cases horphan : s.orphan with
      | none => exact taken_same rfl rfl
      | some orphan =>
          simp only
          split
          · next h => exact taken_same rfl (by rw [orphanFeed_some horphan, h]; rfl)
          · exact taken_same rfl rfl

end Taken

section InOrder

variable {s}

structure InOrder (s : SessionStream) : Prop where
  places : ∀ frame ∈ s.sent, frame.place < s.sent.length
  nodup : s.watched.Nodup
  watched : s.watched ⊆ s.sent
  taken : s.taken ⊆ s.sent
  feed : ∀ frame ∈ s.orphanFeed.queue, frame ∈ s.sent ∧ frame ∉ s.watched
  ahead : ∀ frame ∈ s.watched, s.taken.count frame ≤ 1

theorem inOrder_start (conversationId : String) (runtime : ConversationRuntimeState)
    (turn : Option TurnClaim) : (start conversationId runtime turn).InOrder :=
  ⟨fun _ h ↦ (by cases h), List.nodup_nil, List.nil_subset _, List.nil_subset _,
    fun _ h ↦ (by cases h), fun _ h ↦ (by cases h)⟩

theorem added_quiet {a : StreamStep} (hquiet : a.isQuiet = true) : s.added a = [] := by
  cases a with
  | send _ | watch _ _ => cases hquiet
  | _ => rfl

theorem quiet_step {a : StreamStep} (hquiet : a.isQuiet = true) :
    (s.step a).sent = s.sent ∧ (s.step a).watched = s.watched ∧
      (s.step a).orphanFeed.queue ⊆ s.orphanFeed.queue := by
  have hsame := List.Subset.refl s.orphanFeed.queue
  cases a with
  | send _ | watch _ _ => cases hquiet
  | claimTurn turnId =>
      rw [step, claimTurn]
      split <;> exact ⟨rfl, rfl, hsame⟩
  | subscribe =>
      rw [step, subscribe]
      split <;> exact ⟨rfl, rfl, hsame⟩
  | relayReceives => exact ⟨rfl, rfl, hsame⟩
  | sendFails =>
      rw [step, sendFails]
      split <;> exact ⟨rfl, rfl, hsame⟩
  | releaseTurn =>
      rw [step, releaseTurn]
      split
      · split <;> exact ⟨rfl, rfl, hsame⟩
      · exact ⟨rfl, rfl, hsame⟩
  | orphanReceives =>
      rw [step, orphanReceives]
      split
      · exact ⟨rfl, rfl, hsame⟩
      · next orphan horphan =>
          rw [orphanFeed_some horphan]
          split
          · exact ⟨rfl, rfl, List.nil_subset _⟩
          · exact ⟨rfl, rfl, orphan.feed.queue_receive_subset⟩
  | orphanIdles =>
      rw [step, orphanIdles]
      split
      · exact ⟨rfl, rfl, hsame⟩
      · next orphan horphan =>
          rw [orphanFeed_some horphan] at hsame ⊢
          split
          · exact ⟨rfl, rfl, hsame⟩
          · exact ⟨rfl, rfl, (orphanFeed_some horphan) ▸ hsame⟩
  | orphanEnds =>
      rw [step, orphanEnds]
      split
      · exact ⟨rfl, rfl, hsame⟩
      · split
        · exact ⟨rfl, rfl, List.nil_subset _⟩
        · exact ⟨rfl, rfl, hsame⟩

theorem watch_step (turnId : String) (fresh : Bool) {frame : Frame}
    (hnext : s.nextFrame = some frame) :
    s.watched = frame :: (s.watch turnId fresh).watched ∧
      (s.watch turnId fresh).sent = s.sent ∧
      (s.watch turnId fresh).orphanFeed.queue ⊆ s.orphanFeed.queue ++ [frame] := by
  have hkept : ∀ feed : List Frame, feed ⊆ feed ++ [frame] := fun feed ↦
    List.subset_append_left _ _
  obtain ⟨hnone, -⟩ | ⟨frame', watched, hwatched, hnext', hcases⟩ := s.watch_cases turnId fresh
  · rw [hnext] at hnone
    cases hnone
  · cases Option.some.inj (hnext.symm.trans hnext')
    obtain ⟨horphan, hwatch⟩ | ⟨orphan, horphan, -, hwatch⟩ := hcases
    · rw [hwatch, watchIdle]
      split
      · exact ⟨hwatched, rfl, hkept _⟩
      · next clientMsgId phase _ =>
          cases phase with
          | queued | started => exact ⟨hwatched, rfl, hkept _⟩
          | completed | cancelled =>
              rw [noteLifecycle]
              split <;> exact ⟨hwatched, rfl, hkept _⟩
      · split
        · exact ⟨hwatched, rfl, hkept _⟩
        · split
          · exact ⟨hwatched, rfl, List.subset_append_right _ _⟩
          · exact ⟨hwatched, rfl, hkept _⟩
    · rw [hwatch, feedOrphan, orphanFeed_some horphan]
      split
      · exact ⟨hwatched, rfl, hkept _⟩
      · exact ⟨hwatched, rfl, orphan.feed.queue_send_subset frame⟩

theorem mem_added_watch {turnId : String} {fresh : Bool} {frame : Frame}
    (h : frame ∈ s.added (.watch turnId fresh)) : s.nextFrame = some frame := by
  rw [added, Option.mem_toList, Option.filter_eq_some_iff] at h
  exact h.1

theorem count_taken_step (s : SessionStream) (a : StreamStep) (frame : Frame) :
    (s.step a).taken.count frame = s.taken.count frame + (s.added a).count frame := by
  rw [(s.taken_step a).count_eq, List.count_append]

theorem InOrder.send (h : s.InOrder) (event : AgentStreamEvent) : (s.step (.send event)).InOrder := by
  have hfresh : (⟨s.sent.length, event⟩ : Frame) ∉ s.sent := fun hmem ↦
    lt_irrefl _ (h.places _ hmem)
  have hadded : s.added (.send event) ⊆ [⟨s.sent.length, event⟩] := by
    rw [added]
    split
    · exact List.Subset.refl _
    · exact List.nil_subset _
  refine ⟨?_, ?_, ?_, ?_, ?_, ?_⟩
  · intro frame hframe
    change frame ∈ s.sent ++ [_] at hframe
    change frame.place < (s.sent ++ [_]).length
    rw [List.length_append, List.length_singleton]
    rcases List.mem_append.mp hframe with hframe | hframe
    · exact Nat.lt_succ_of_lt (h.places frame hframe)
    · rw [List.mem_singleton.mp hframe]
      exact Nat.lt_succ_self _
  · change (s.watched ++ [_]).Nodup
    rw [List.nodup_append]
    refine ⟨h.nodup, List.nodup_singleton _, fun frame hframe other hother heq ↦ hfresh ?_⟩
    rw [← List.mem_singleton.mp hother, ← heq]
    exact h.watched hframe
  · exact List.append_subset.mpr ⟨fun _ hmem ↦ List.mem_append_left _ (h.watched hmem),
      List.subset_append_right _ _⟩
  · intro frame hframe
    change frame ∈ s.sent ++ [_]
    rcases List.mem_append.mp ((s.taken_step _).mem_iff.mp hframe) with hframe | hframe
    · exact List.mem_append_left _ (h.taken hframe)
    · exact List.mem_append_right _ (hadded hframe)
  · intro frame hframe
    obtain ⟨hsent, hwatched⟩ := h.feed frame hframe
    refine ⟨List.mem_append_left _ hsent, fun hmem ↦ ?_⟩
    rcases List.mem_append.mp hmem with hmem | hmem
    · exact hwatched hmem
    · exact hfresh (List.mem_singleton.mp hmem ▸ hsent)
  · intro frame hframe
    rw [count_taken_step]
    rcases List.mem_append.mp hframe with hframe | hframe
    · have hnone : (s.added (.send event)).count frame = 0 := by
        refine List.count_eq_zero.mpr fun hmem ↦ hfresh ?_
        rw [← List.mem_singleton.mp (hadded hmem)]
        exact h.watched hframe
      rw [hnone]
      exact h.ahead frame hframe
    · rw [List.mem_singleton] at hframe
      have hnone : s.taken.count frame = 0 :=
        List.count_eq_zero.mpr fun hmem ↦ hfresh (hframe ▸ h.taken hmem)
      rw [hnone, Nat.zero_add, added]
      split
      · rw [hframe, List.count_singleton_self]
      · exact Nat.zero_le _

theorem InOrder.watch (h : s.InOrder) (turnId : String) (fresh : Bool) :
    (s.step (.watch turnId fresh)).InOrder := by
  change (s.watch turnId fresh).InOrder
  cases hnext : s.nextFrame with
  | none =>
      obtain ⟨-, hwatch⟩ | ⟨frame, watched, -, hnext', -⟩ := s.watch_cases turnId fresh
      · rw [hwatch]
        exact h
      · rw [hnext] at hnext'
        cases hnext'
  | some frame =>
      obtain ⟨hwatched, hsent, hfeed⟩ := watch_step turnId fresh hnext
      have hnodup := h.nodup
      rw [hwatched, List.nodup_cons] at hnodup
      have hwatched' := h.watched
      rw [hwatched, List.cons_subset] at hwatched'
      have hadded : ∀ frame' ∈ s.added (.watch turnId fresh), frame' = frame := fun frame' hmem ↦
        Option.some.inj ((mem_added_watch hmem).symm.trans hnext)
      refine ⟨?_, hnodup.2, ?_, ?_, ?_, ?_⟩
      · rw [hsent]
        exact h.places
      · rw [hsent]
        exact hwatched'.2
      · intro frame' hframe'
        rw [hsent]
        rcases List.mem_append.mp ((s.taken_step (.watch turnId fresh)).mem_iff.mp hframe') with
          hframe' | hframe'
        · exact h.taken hframe'
        · exact hadded frame' hframe' ▸ hwatched'.1
      · intro frame' hframe'
        rw [hsent]
        rcases List.mem_append.mp (hfeed hframe') with hframe' | hframe'
        · obtain ⟨hmem, hnot⟩ := h.feed frame' hframe'
          rw [hwatched] at hnot
          exact ⟨hmem, fun hin ↦ hnot (List.mem_cons_of_mem _ hin)⟩
        · rw [List.mem_singleton.mp hframe']
          exact ⟨hwatched'.1, hnodup.1⟩
      · intro frame' hframe'
        have hnone : (s.added (.watch turnId fresh)).count frame' = 0 :=
          List.count_eq_zero.mpr fun hmem ↦ hnodup.1 (hadded frame' hmem ▸ hframe')
        have hcount := s.count_taken_step (.watch turnId fresh) frame'
        rw [hnone] at hcount
        refine hcount.trans_le (h.ahead frame' ?_)
        rw [hwatched]
        exact List.mem_cons_of_mem _ hframe'

theorem InOrder.quiet (h : s.InOrder) {a : StreamStep} (hquiet : a.isQuiet = true) :
    (s.step a).InOrder := by
  obtain ⟨hsent, hwatched, hfeed⟩ := quiet_step (s := s) hquiet
  have htaken := s.taken_step a
  rw [added_quiet hquiet, List.append_nil] at htaken
  refine ⟨?_, ?_, ?_, ?_, ?_, ?_⟩
  · rw [hsent]
    exact h.places
  · rw [hwatched]
    exact h.nodup
  · rw [hwatched, hsent]
    exact h.watched
  · rw [hsent]
    exact fun frame hframe ↦ h.taken (htaken.mem_iff.mp hframe)
  · rw [hwatched, hsent]
    exact fun frame hframe ↦ h.feed frame (hfeed hframe)
  · rw [hwatched]
    exact fun frame hframe ↦ (htaken.count_eq frame).trans_le (h.ahead frame hframe)

theorem InOrder.step (h : s.InOrder) (a : StreamStep) : (s.step a).InOrder := by
  cases a with
  | send event => exact h.send event
  | watch turnId fresh => exact h.watch turnId fresh
  | _ => exact h.quiet rfl

end InOrder

section Delivered

variable {s} {frame : Frame}

def HasRead (s : SessionStream) (frame : Frame) : Prop := frame ∈ s.sent ∧ frame ∉ s.watched

def TakenOnce (s : SessionStream) : Prop :=
  ∀ frame, s.HasRead frame → frame.event.isContent = true → s.taken.count frame = 1

theorem content_isOrphanTurnContent {event : AgentStreamEvent} (h : event.isContent = true) :
    isOrphanTurnContent event = true := by
  cases event with
  | text _ | thinking _ | toolCall _ | acpToolCall _ | toolGroup _ => rfl
  | _ => cases h

theorem count_taken_of_sent (h : s.InOrder) {a : StreamStep} (hsent : frame ∈ s.sent)
    (hnot : ∀ turnId fresh, a = .watch turnId fresh → s.nextFrame ≠ some frame) :
    (s.step a).taken.count frame = s.taken.count frame := by
  have hnone : (s.added a).count frame = 0 := by
    refine List.count_eq_zero.mpr fun hmem ↦ ?_
    cases a with
    | send event =>
        rw [added] at hmem
        split at hmem
        · rw [List.mem_singleton] at hmem
          have hplace := h.places frame hsent
          rw [hmem] at hplace
          exact lt_irrefl _ hplace
        · cases hmem
    | watch turnId fresh => exact hnot turnId fresh rfl (mem_added_watch hmem)
    | _ => cases hmem
  rw [count_taken_step, hnone, Nat.add_zero]

theorem mem_watched_of_next (h : s.nextFrame = some frame) : frame ∈ s.watched := by
  rw [(watch_step "" false h).1]
  exact List.mem_cons_self

theorem count_taken_watch (h : s.InOrder) (turnId : String) (fresh : Bool)
    (hnext : s.nextFrame = some frame) (hcontent : frame.event.isContent = true) :
    (s.step (.watch turnId fresh)).taken.count frame =
      (if frame ∈ s.userTakes then 1 else 0) + if s.leaves then 0 else 1 := by
  have hmem := mem_watched_of_next hnext
  have hfeed : (s.orphanFeed.reads Frame.isTerminal).count frame = 0 :=
    List.count_eq_zero.mpr fun hread ↦
      (h.feed frame (Receiver.mem_queue_of_mem_reads hread)).2 hmem
  have htaken : s.taken.count frame = s.userTakes.count frame := by
    rw [taken, List.count_append, hfeed, Nat.add_zero]
  have huser : s.userTakes.count frame = if frame ∈ s.userTakes then 1 else 0 := by
    split
    · next hin =>
        refine le_antisymm (htaken ▸ h.ahead frame hmem) (List.count_pos_iff.mpr hin)
    · next hout => exact List.count_eq_zero.mpr hout
  rw [count_taken_step, htaken, huser, added, hnext, Option.filter_some,
    content_isOrphanTurnContent hcontent, Bool.or_true, Bool.and_true]
  congr 1
  cases s.leaves with
  | true => rfl
  | false => exact List.count_singleton_self

theorem hasRead_watch (h : s.InOrder) (turnId : String) (fresh : Bool)
    (hnext : s.nextFrame = some frame) : (s.step (.watch turnId fresh)).HasRead frame := by
  obtain ⟨hwatched, hsent, -⟩ := watch_step turnId fresh hnext
  have hnodup := h.nodup
  rw [hwatched, List.nodup_cons] at hnodup
  refine ⟨?_, hnodup.1⟩
  change frame ∈ (s.watch turnId fresh).sent
  rw [hsent]
  exact h.watched (mem_watched_of_next hnext)

theorem hasRead_step (h : s.InOrder) {a : StreamStep}
    (hnot : ∀ turnId fresh, a = .watch turnId fresh → s.nextFrame ≠ some frame) :
    (s.step a).HasRead frame ↔ s.HasRead frame := by
  have hquiet : a.isQuiet = true → _ := quiet_step (s := s)
  cases a with
  | send event =>
      change (frame ∈ s.sent ++ [_] ∧ frame ∉ s.watched ++ [_]) ↔ _
      rw [List.mem_append, List.mem_append, not_or]
      constructor
      · rintro ⟨hsent, hread⟩
        exact ⟨hsent.resolve_right hread.2, hread.1⟩
      · rintro ⟨hsent, hread⟩
        refine ⟨.inl hsent, hread, fun hmem ↦ ?_⟩
        rw [List.mem_singleton] at hmem
        have hplace := h.places frame hsent
        rw [hmem] at hplace
        exact lt_irrefl _ hplace
  | watch turnId fresh =>
      change (s.watch turnId fresh).HasRead frame ↔ _
      obtain ⟨-, hwatch⟩ | ⟨next, watched, -, hnext, -⟩ := s.watch_cases turnId fresh
      · rw [hwatch]
      · obtain ⟨hwatched, hsame, -⟩ := watch_step turnId fresh hnext
        have hne : frame ≠ next := fun heq ↦ hnot turnId fresh rfl (heq ▸ hnext)
        rw [HasRead, HasRead, hsame, hwatched, List.mem_cons, or_iff_right hne]
  | _ =>
      obtain ⟨hsame, hwatched, -⟩ := hquiet rfl
      rw [HasRead, hsame, hwatched, HasRead]

theorem TakenOnce.of_step (h : s.InOrder) {a : StreamStep} (hnext : (s.step a).TakenOnce) :
    s.TakenOnce := by
  intro frame hread hcontent
  have hnot : ∀ turnId fresh, a = .watch turnId fresh → s.nextFrame ≠ some frame :=
    fun _ _ _ heq ↦ hread.2 (mem_watched_of_next heq)
  rw [← count_taken_of_sent h hread.1 hnot]
  exact hnext frame ((hasRead_step h hnot).mpr hread) hcontent

theorem takenOnce_step_iff (h : s.InOrder) (htaken : s.TakenOnce) (a : StreamStep) :
    (s.step a).TakenOnce ↔ s.Agrees a := by
  constructor
  · intro hnext
    cases a with
    | watch turnId fresh =>
        intro frame hframe hcontent
        have hcount := count_taken_watch h turnId fresh hframe hcontent
        rw [hnext frame (hasRead_watch h turnId fresh hframe) hcontent] at hcount
        by_cases huser : frame ∈ s.userTakes
        · by_cases hleaves : s.leaves = true
          · exact iff_of_true huser hleaves
          · rw [if_pos huser, if_neg hleaves] at hcount
            cases hcount
        · by_cases hleaves : s.leaves = true
          · rw [if_neg huser, if_pos hleaves] at hcount
            cases hcount
          · exact iff_of_false huser hleaves
    | _ => trivial
  · intro hagrees frame hread hcontent
    by_cases hwatch : ∃ turnId fresh, a = .watch turnId fresh ∧ s.nextFrame = some frame
    · obtain ⟨turnId, fresh, rfl, hnext⟩ := hwatch
      rw [count_taken_watch h turnId fresh hnext hcontent]
      have hiff := hagrees frame hnext hcontent
      by_cases huser : frame ∈ s.userTakes
      · rw [if_pos huser, if_pos (hiff.mp huser)]
      · rw [if_neg huser, if_neg (hiff.not.mp huser)]
    · have hnot := fun turnId fresh heq hnext ↦ hwatch ⟨turnId, fresh, heq, hnext⟩
      have hold := (hasRead_step h hnot).mp hread
      rw [count_taken_of_sent h hold.1 hnot]
      exact htaken frame hold hcontent

theorem consumed_count_le (s : SessionStream) (frame : Frame) :
    s.consumed.count frame ≤ s.taken.count frame := by
  rw [taken, userTakes, List.append_assoc, List.count_append]
  exact Nat.le_add_right _ _

theorem Settled.count_taken (h : s.Settled frame) :
    s.taken.count frame = s.consumed.count frame := by
  have hrelay : (s.relay.reads Frame.isTerminal).count frame = 0 :=
    List.count_eq_zero.mpr fun hmem ↦ h.2.1 (Receiver.mem_queue_of_mem_reads hmem)
  have hfeed : (s.orphanFeed.reads Frame.isTerminal).count frame = 0 :=
    List.count_eq_zero.mpr fun hmem ↦ h.2.2 (Receiver.mem_queue_of_mem_reads hmem)
  rw [taken, userTakes, List.count_append, List.count_append, hrelay, hfeed,
    Nat.add_zero]

theorem TakenOnce.deliveredOnce (htaken : s.TakenOnce) (h : s.InOrder) : s.DeliveredOnce := by
  intro frame hsent hcontent
  refine ⟨(s.consumed_count_le frame).trans ?_, fun hsettled ↦ ?_⟩
  · by_cases hread : frame ∈ s.watched
    · exact h.ahead frame hread
    · exact (htaken frame ⟨hsent, hread⟩ hcontent).le
  · rw [← hsettled.count_taken]
    exact htaken frame ⟨hsent, hsettled.1⟩ hcontent

theorem Drained.settled (h : s.Drained) (frame : Frame) : s.Settled frame := by
  obtain ⟨hwatched, hrelay, hfeed⟩ := h
  rw [Settled, hwatched, hrelay, hfeed]
  exact ⟨List.not_mem_nil, List.not_mem_nil, List.not_mem_nil⟩

theorem Drained.takenOnce (h : s.Drained) (hdelivered : s.DeliveredOnce) : s.TakenOnce := by
  intro frame hread hcontent
  rw [(h.settled frame).count_taken]
  exact (hdelivered frame hread.1 hcontent).2 (h.settled frame)

theorem TakenOnce.of_run (h : s.InOrder) {steps : List StreamStep}
    (hlast : (run step s steps).TakenOnce) : Throughout step TakenOnce s steps := by
  induction steps generalizing s with
  | nil => exact hlast
  | cons a steps ih =>
      have hrest := ih (h.step a) hlast
      exact ⟨.of_step h hrest.head, hrest⟩

end Delivered

/-- A run in which the watcher leaves alone what the relay of a user turn takes, and nothing else,
consumes every content frame once; a run that ends with nothing left to read consumes them so only
if it is such a run. -/
theorem delivered_once_iff (conversationId : String) (runtime : ConversationRuntimeState)
    (turn : Option TurnClaim) (steps : List StreamStep) :
    (Meets step Agrees (start conversationId runtime turn) steps →
        Throughout step DeliveredOnce (start conversationId runtime turn) steps) ∧
      ((run step (start conversationId runtime turn) steps).Drained →
        Throughout step DeliveredOnce (start conversationId runtime turn) steps →
          Meets step Agrees (start conversationId runtime turn) steps) := by
  have hstart := inOrder_start conversationId runtime turn
  have htaken : (start conversationId runtime turn).TakenOnce :=
    fun _ h ↦ absurd h.1 List.not_mem_nil
  constructor
  · intro hmeets
    have hboth : Throughout step (fun s ↦ InOrder s ∧ TakenOnce s)
        (start conversationId runtime turn) steps :=
      throughout_of_meets (fun _ a h hagrees ↦
        ⟨h.1.step a, (takenOnce_step_iff h.1 h.2 a).mpr hagrees⟩) ⟨hstart, htaken⟩ hmeets
    exact hboth.mono fun _ h ↦ h.2.deliveredOnce h.1
  · intro hdrained hdelivered
    have hlast := TakenOnce.of_run hstart (hdrained.takenOnce hdelivered.last)
    exact meets_of_throughout (Q := InOrder) (fun _ a h ↦ h.step a)
      (fun _ a h ht hnext ↦ (takenOnce_step_iff h ht a).mp hnext) hstart hlast

/-- A slow watcher reads the text after the turn, and consumes it again; a text between the claim
and the subscription is read while the conversation is claimed, and lost. -/
theorem frames_doubled_and_lost :
    (¬ Throughout step DeliveredOnce (start "c" .new none)
      [.claimTurn "t", .subscribe, .send (.text "a"), .relayReceives, .send .finish, .relayReceives,
        .releaseTurn, .watch "o" true, .orphanReceives]) ∧
      ¬ Throughout step DeliveredOnce (start "c" .new none)
        [.claimTurn "t", .send (.text "a"), .watch "o" true] := by
  constructor
  · intro h
    exact absurd (h.last ⟨0, .text "a"⟩ (by decide) rfl).1 (by decide)
  · intro h
    have hsettled : (run step (start "c" .new none)
        [.claimTurn "t", .send (.text "a"), .watch "o" true]).Settled ⟨0, .text "a"⟩ := by
      refine ⟨?_, ?_, ?_⟩ <;> decide
    exact absurd ((h.last ⟨0, .text "a"⟩ (by decide) rfl).2 hsettled) (by decide)

end SessionStream

end Zaowutai.Stream
