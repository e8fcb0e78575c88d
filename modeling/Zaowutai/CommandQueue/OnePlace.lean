import Zaowutai.CommandQueue.DraftQueue
import Zaowutai.CommandQueue.RunnerFlag

/-!
# Every command in one place

A command that has been accepted stays in exactly one place as long as every
write starts from the queue as it is and cuts nothing off.  The copies differ
when the background runner has changed the persisted queue since the cache
fetched it, or when a command has been added since the last render.
-/

namespace Zaowutai.CommandQueue

open Zaowutai.Lib

def ConversationCommandQueueState.ids (state : ConversationCommandQueueState) : List String :=
  state.items.map (·.id)

/-- Normalising cuts no command off. -/
def Fits (state : ConversationCommandQueueState) : Prop :=
  (normalizeQueueState state).ids = state.ids

theorem Normal.fits {state : ConversationCommandQueueState} (h : Normal state) : Fits state := by
  rw [Fits, normalizeQueueState_of_normal h]

namespace BackgroundQueues

variable {b b' : BackgroundQueues} {c : String} {r : ℕ}

def held (b : BackgroundQueues) (c : String) : List String :=
  (b.queue c).ids ++ b.pending.map (·.command.id)

/-- What the operations of the runner keep when all runners are the conversation's own. -/
structure Orderly (b : BackgroundQueues) (c : String) : Prop where
  runners : b.Wellformed
  own : ∀ r < b.created, (b.objects r).conversationId = c
  normal : Normal (b.queue c)

theorem Orderly.store (h : b.Orderly c) {store : QueueStore}
    (hnormal : Normal (readPersistedQueueState store c)) : ({ b with store }).Orderly c :=
  ⟨⟨h.runners.registered, h.runners.listening, h.runners.inactive⟩, h.own, hnormal⟩

theorem Orderly.register (h : b.Orderly c) : (b.register c).Orderly c where
  runners := h.runners.register
  own r hr := by
    simp only [BackgroundQueues.register, Function.update_apply]
    split
    · rfl
    · next hne => exact h.own r (Nat.lt_of_le_of_ne (Nat.le_of_lt_succ hr) hne)
  normal := h.normal

theorem Orderly.drain (h : b.Orderly c) (hr : r < b.created) :
    (b.drain r).Orderly c ∧ ((b.drain r).held c).Perm (b.held c) := by
  by_cases hbusy : (b.objects r).active = true ∨ (b.objects r).executing = true
  · rw [drain_of_busy hbusy]
    exact ⟨h, List.Perm.refl _⟩
  · rw [not_or, Bool.not_eq_true, Bool.not_eq_true] at hbusy
    have hdrained : (b.drain r).Wellformed := h.runners.drain hr
    rcases drain_cases (h.own r hr) hbusy.1 hbusy.2 with
      ⟨heq, -⟩ | ⟨heq, -⟩ | ⟨next, rest, heq, hgo, hitems⟩
    · rw [heq]
      exact ⟨h, List.Perm.refl _⟩
    · rw [heq] at hdrained ⊢
      exact ⟨⟨hdrained, h.own, h.normal⟩, List.Perm.refl _⟩
    · rw [heq] at hdrained ⊢
      have hresumed : (b.queue c).isPaused = false := by
        rcases hgo with hempty | ⟨hresumed, -⟩
        · simp [hitems] at hempty
        · exact hresumed
      have hrest : Normal ⟨rest, false, (b.queue c).mode⟩ :=
        h.normal.sublist (hitems ▸ List.sublist_cons_self next rest) hresumed
      have hqueue : (b.started r next
          (persistQueueState b.store c ⟨rest, false, (b.queue c).mode⟩)).queue c =
            ⟨rest, false, (b.queue c).mode⟩ :=
        (readPersistedQueueState_persistQueueState _ c).trans (normalizeQueueState_of_normal hrest)
      refine ⟨⟨hdrained, fun r' hr' ↦ ?_, by rwa [hqueue]⟩, ?_⟩
      · exact (conversationId_setExecuting true r').trans (h.own r' hr')
      · rw [held, held, hqueue]
        simp only [ConversationCommandQueueState.ids, hitems, started, List.map_append,
          List.map_cons, List.map_nil]
        rw [← List.append_assoc]
        exact List.perm_append_singleton _ _

theorem Orderly.detach (h : b.Orderly c) :
    (b.detach c).Orderly c ∧ ((b.detach c).held c).Perm (b.held c) := by
  obtain heq | heq | ⟨r, hlookup, heq⟩ := detach_cases (s := b) (c := c)
  · rw [heq]
    exact ⟨h, List.Perm.refl _⟩
  · rw [heq]
    exact ⟨⟨h.runners.deleteRunner, h.own, h.normal⟩, List.Perm.refl _⟩
  · rw [heq]
    have hdeactivated : (b.deactivate r).Orderly c :=
      ⟨h.runners.deactivate, fun r' hr' ↦ by rw [objects_deactivate]; exact h.own r' hr', h.normal⟩
    exact hdeactivated.drain (h.runners.registered c r hlookup).2

theorem Orderly.turnCompleted (h : b.Orderly c) (view : RuntimeView) :
    (b.turnCompleted c view).Orderly c ∧ ((b.turnCompleted c view).held c).Perm (b.held c) := by
  obtain heq | ⟨r, hlookup, heq⟩ := turnCompleted_cases (s := b) (c := c) view
  · rw [heq]
    exact ⟨h, List.Perm.refl _⟩
  · rw [heq]
    have hviewed : (b.viewed c view).Orderly c := ⟨h.runners.viewed view, h.own, h.normal⟩
    exact hviewed.drain (h.runners.registered c r hlookup).2

theorem ids_restored {state : ConversationCommandQueueState}
    {command : ConversationCommandQueueItem} {isPaused : Bool} :
    (state.restored command isPaused).ids =
      command.id :: state.ids.filter fun id ↦ id ≠ command.id := by
  simp only [ConversationCommandQueueState.restored, restoreQueuedCommand, removeQueuedCommand, ConversationCommandQueueState.ids,
    List.map_cons, List.filter_map]
  rfl

variable {e : Execution} {index : ℕ} {result : Settlement}

theorem Orderly.told (h : b.Orderly c) {store : QueueStore}
    (hnormal : Normal (readPersistedQueueState store c)) : (b.told index e store).Orderly c where
  runners := h.runners.told
  own r hr := (conversationId_setExecuting false r).trans (h.own r hr)
  normal := hnormal

theorem perm_pending_told (he : b.pending[index]? = some e) (store : QueueStore) :
    (e.command.id :: (b.told index e store).pending.map (·.command.id)).Perm
      (b.pending.map (·.command.id)) := by
  obtain ⟨hlt, rfl⟩ := List.getElem?_eq_some_iff.mp he
  exact (List.getElem_cons_eraseIdx_perm hlt).map (·.command.id)

theorem Orderly.settle_resolved (h : b.Orderly c) (he : b.pending[index]? = some e) :
    (b.settle index .resolved).Orderly c ∧
      (e.command.id :: (b.settle index .resolved).held c).Perm (b.held c) := by
  have htold : (b.told index e b.store).Orderly c := h.told h.normal
  have hr : e.runner < b.created := (h.runners.inactive e (List.mem_of_getElem? he)).2
  obtain ⟨hdrained, hperm⟩ := htold.drain hr
  rw [settle_eq he, if_neg (by simp)]
  refine ⟨hdrained, (hperm.cons e.command.id).trans ?_⟩
  exact List.perm_middle.symm.trans ((perm_pending_told he b.store).append_left (b.queue c).ids)

theorem queue_drain_of_paused (hpaused : (b.queue c).isPaused = true)
    (hc : (b.objects r).conversationId = c) : (b.drain r).queue c = b.queue c := by
  by_cases hbusy : (b.objects r).active = true ∨ (b.objects r).executing = true
  · rw [drain_of_busy hbusy]
  · rw [not_or, Bool.not_eq_true, Bool.not_eq_true] at hbusy
    rcases drain_cases hc hbusy.1 hbusy.2 with ⟨heq, -⟩ | ⟨heq, -⟩ | ⟨next, rest, -, hgo, hitems⟩
    · rw [heq]
    · rw [heq]
      rfl
    · rcases hgo with hempty | ⟨hresumed, -⟩
      · simp [hitems] at hempty
      · rw [hpaused] at hresumed
        cases hresumed

theorem Orderly.settle_failed (h : b.Orderly c) (he : b.pending[index]? = some e)
    (hresult : result ≠ .resolved)
    (hfits : Fits ((b.queue c).restored e.command (result = .rejected)))
    (hnew : e.command.id ∉ (b.queue c).ids) :
    (b.settle index result).Orderly c ∧ ((b.settle index result).held c).Perm (b.held c) ∧
      ((b.settle index result).queue c).ids = e.command.id :: (b.queue c).ids := by
  have hr : e.runner < b.created := (h.runners.inactive e (List.mem_of_getElem? he)).2
  have hc := h.own e.runner hr
  have hstore : b.storeAfter e result =
      persistQueueState b.store c ((b.queue c).restored e.command (result = .rejected)) := by
    cases result with
    | resolved => exact absurd rfl hresult
    | busy => rw [storeAfter, restore, hc]; rfl
    | rejected => rw [storeAfter, restore, hc]; rfl
  let b' := b.told index e (b.storeAfter e result)
  have hqueue : b'.queue c =
      normalizeQueueState ((b.queue c).restored e.command (result = .rejected)) := by
    change readPersistedQueueState (b.storeAfter e result) c = _
    rw [hstore, readPersistedQueueState_persistQueueState]
  have hids : (b'.queue c).ids = e.command.id :: (b.queue c).ids := by
    rw [hqueue, hfits, ids_restored, List.filter_eq_self.mpr]
    intro id hid
    have hne : id ≠ e.command.id := fun heq ↦ hnew (heq ▸ hid)
    simpa using hne
  have htold : b'.Orderly c := by
    refine h.told ?_
    change Normal (b'.queue c)
    rw [hqueue]
    exact normal_normalizeQueueState _
  have hheld : (b'.held c).Perm (b.held c) := by
    rw [held, hids]
    exact List.perm_middle.symm.trans
      ((perm_pending_told he (b.storeAfter e result)).append_left (b.queue c).ids)
  rw [settle_eq he]
  by_cases hbusy : result = .busy
  · rw [if_pos hbusy]
    exact ⟨htold, hheld, hids⟩
  · rw [if_neg hbusy]
    have hrejected : result = .rejected := by
      cases result with
      | resolved => exact absurd rfl hresult
      | busy => exact absurd rfl hbusy
      | rejected => rfl
    have hpaused : (b'.queue c).isPaused = true := by
      have hne : (normalizeQueueState
          ((b.queue c).restored e.command (result = .rejected))).items ≠ [] := by
        intro hempty
        rw [hqueue, ConversationCommandQueueState.ids, hempty] at hids
        cases hids
      rw [hqueue, isPaused_normalizeQueueState hne]
      simp [ConversationCommandQueueState.restored, hrejected]
    obtain ⟨hdrained, hperm⟩ := htold.drain hr
    refine ⟨hdrained, hperm.trans hheld, ?_⟩
    rw [queue_drain_of_paused hpaused ((conversationId_setExecuting false e.runner).trans hc)]
    exact hids

end BackgroundQueues

section Validation

variable {state : ConversationCommandQueueState}

/-- What the checks of a new or changed command establish. -/
structure Validated (state : ConversationCommandQueueState) : Prop where
  count : state.items.length ≤ maxQueuedCommands
  input : ∀ item ∈ state.items, isInputEmpty item.input = false
  length : ∀ item ∈ state.items, utf16Length item.input ≤ maxQueuedCommandInputLength
  files : ∀ item ∈ state.items, item.files.length ≤ maxQueuedCommandFiles
  bytes : measureQueueStateBytes state ≤ maxQueuedCommandStateBytes

theorem validated_of_eq_none (h : getQueueValidationFailureReason state = none) :
    Validated state := by
  rw [getQueueValidationFailureReason] at h
  split at h
  · cases h
  · next hcount =>
      split at h
      · cases h
      · next hinput =>
          split at h
          · cases h
          · next hlength =>
              split at h
              · cases h
              · next hfiles =>
                  split at h
                  · cases h
                  · next hbytes =>
                      simp only [List.any_eq_true, decide_eq_true_eq, not_exists, not_and, not_lt,
                        Bool.not_eq_true] at hcount hinput hlength hfiles hbytes
                      exact ⟨hcount, hinput, hlength, hfiles, hbytes⟩

theorem Validated.normal (h : Validated state) (hne : state.items ≠ [])
    (hitems : ∀ item ∈ state.items, uniqueFiles item.files = item.files ∧
      normalizeSessionRefs item.sessions = item.sessions) : Normal state where
  items item hitem := normalizeQueueItem_of_valid (hitems item hitem).1 (hitems item hitem).2
    (h.input item hitem) (h.length item hitem) (h.files item hitem)
  count := h.count
  bytes _ := h.bytes
  resumed hempty := absurd hempty hne

end Validation

section Arrangement

variable {items : List ConversationCommandQueueItem}

theorem map_id_removeQueuedCommand (commandId : String) :
    (removeQueuedCommand items commandId).map (·.id) =
      (items.map (·.id)).filter fun id ↦ id ≠ commandId := by
  rw [removeQueuedCommand, List.filter_map]
  rfl

theorem count_cons_eq_add (a : String) (l : List String) (id : String) :
    (a :: l).count id = l.count id + [a].count id := by
  simp only [List.count_cons, List.count_nil, Nat.zero_add]

theorem count_filter_ne {l : List String} (hl : l.Nodup) {a : String} (ha : a ∈ l) (id : String) :
    (l.filter fun id ↦ id ≠ a).count id + [a].count id = l.count id := by
  have hperm : (a :: l.filter fun id ↦ id ≠ a).Perm l := by
    have herase := List.perm_cons_erase ha
    rw [hl.erase_eq_filter] at herase
    refine (List.Perm.of_eq ?_).trans herase.symm
    congr 2
    funext id
    simp [bne, beq_eq_decide]
  rw [← hperm.count_eq id]
  exact (count_cons_eq_add a _ id).symm

theorem reorderQueuedCommand_perm (activeCommandId overCommandId : String) :
    (reorderQueuedCommand items activeCommandId overCommandId).Perm items := by
  simp only [reorderQueuedCommand]
  cases hfind : items.find? fun item ↦ item.id = activeCommandId with
  | none => exact List.Perm.refl items
  | some movedItem =>
      let fromIndex := items.findIdx fun item ↦ item.id = activeCommandId
      let targetIndex := items.findIdx fun item ↦ item.id = overCommandId
      by_cases hstay : targetIndex = items.length ∨ fromIndex = targetIndex
      · exact List.Perm.of_eq (if_pos hstay)
      · have hget : items[fromIndex]? = some movedItem :=
          List.find?_eq_getElem?_findIdx.symm.trans hfind
        obtain ⟨hlt, hmoved⟩ := List.getElem?_eq_some_iff.mp hget
        have htarget : targetIndex ≤ (items.eraseIdx fromIndex).length := by
          have hle : targetIndex ≤ items.length := List.findIdx_le_length
          rw [List.length_eraseIdx_of_lt hlt]
          omega
        refine (List.Perm.of_eq (if_neg hstay)).trans ?_
        refine (List.perm_insertIdx movedItem _ htarget).trans ?_
        rw [← hmoved]
        exact List.getElem_cons_eraseIdx_perm hlt

theorem map_id_updateQueuedCommand (commandId input : String) :
    (updateQueuedCommand items commandId input).map (·.id) = items.map (·.id) := by
  rw [updateQueuedCommand, List.map_map]
  refine List.map_congr_left fun item _ ↦ ?_
  simp only [Function.comp_apply]
  split <;> rfl

end Arrangement

namespace DraftQueue

variable {s t : DraftQueue}

def places (s : DraftQueue) : List String :=
  s.background.held s.conversationId ++ s.executions.map (·.command.id) ++ s.finished

def Kept (s : DraftQueue) : Prop := ∀ id ∈ s.accepted, s.places.count id = 1

structure Conserved (s : DraftQueue) : Prop where
  perm : s.places.Perm s.accepted
  nodup : s.accepted.Nodup
  background : s.background.Orderly s.conversationId

theorem Conserved.kept (hs : s.Conserved) : s.Kept := by
  intro id hid
  rw [hs.perm.count_eq]
  exact List.count_eq_one_of_mem hs.nodup hid

def Current (s : DraftQueue) (state : ConversationCommandQueueState) : Prop :=
  state.ids.Perm s.queue.ids

theorem Conserved.queue_nodup (hs : s.Conserved) : s.queue.ids.Nodup := by
  have hplaces : s.places.Nodup := hs.perm.nodup_iff.mpr hs.nodup
  exact hplaces.of_append_left.of_append_left.of_append_left

theorem Conserved.notMem_queue (hs : s.Conserved) {e : ForegroundExecution}
    (he : e ∈ s.executions) : e.command.id ∉ s.queue.ids := by
  have hplaces : s.places.Nodup := hs.perm.nodup_iff.mpr hs.nodup
  intro hqueue
  refine List.disjoint_of_nodup_append hplaces.of_append_left (a := e.command.id) ?_
    (List.mem_map_of_mem he)
  exact List.mem_append_left _ hqueue

theorem Conserved.notMem_queue_of_pending (hs : s.Conserved) {e : Execution}
    (he : e ∈ s.background.pending) : e.command.id ∉ s.queue.ids := by
  have hplaces : s.places.Nodup := hs.perm.nodup_iff.mpr hs.nodup
  intro hqueue
  exact List.disjoint_of_nodup_append hplaces.of_append_left.of_append_left hqueue
    (List.mem_map_of_mem he)

theorem Conserved.of_quiet (hs : s.Conserved) (hconversation : t.conversationId = s.conversationId)
    (hbackground : t.background = s.background) (hexecutions : t.executions = s.executions)
    (haccepted : t.accepted = s.accepted) (hfinished : t.finished = s.finished) :
    t.Conserved where
  perm := by
    rw [places, hconversation, hbackground, hexecutions, haccepted, hfinished]
    exact hs.perm
  nodup := haccepted ▸ hs.nodup
  background := by
    rw [hconversation, hbackground]
    exact hs.background

structure Writes (s t : DraftQueue) (state : ConversationCommandQueueState) : Prop where
  conversation : t.conversationId = s.conversationId
  background : t.background = { s.background with
    store := persistQueueState s.background.store s.conversationId (normalizeQueueState state) }

variable {state : ConversationCommandQueueState}

theorem Writes.queue_eq (h : Writes s t state) : t.queue = normalizeQueueState state := by
  rw [queue, h.conversation, h.background]
  exact (readPersistedQueueState_persistQueueState _ _).trans
    (normalizeQueueState_normalizeQueueState state)

theorem Writes.conserved (h : Writes s t state) (hs : s.Conserved) (hfits : Fits state)
    (hnodup : t.accepted.Nodup)
    (hbalance : ∀ id, state.ids.count id + (t.executions.map (·.command.id)).count id +
        t.finished.count id + s.accepted.count id =
      s.queue.ids.count id + (s.executions.map (·.command.id)).count id +
        s.finished.count id + t.accepted.count id) : t.Conserved where
  perm := by
    refine List.perm_iff_count.mpr fun id ↦ ?_
    have hold := hs.perm.count_eq id
    have hqueue : (t.background.queue t.conversationId).ids = state.ids :=
      (congrArg ConversationCommandQueueState.ids h.queue_eq).trans hfits
    have hpending : t.background.pending = s.background.pending := by rw [h.background]
    have hnew := hbalance id
    simp only [places, BackgroundQueues.held, hqueue, hpending, List.count_append] at hold ⊢
    rw [queue] at hnew
    omega
  nodup := hnodup
  background := by
    rw [h.conversation, h.background]
    refine hs.background.store ?_
    rw [readPersistedQueueState_persistQueueState]
    exact normal_normalizeQueueState _

theorem writes_updateState (number : ℕ)
    (updater : ConversationCommandQueueState → ConversationCommandQueueState) :
    Writes s (s.updateState number updater) (updater s.data) :=
  ⟨rfl, rfl⟩

theorem Conserved.updateState (hs : s.Conserved) (hwrites : Writes s t state) (hfits : Fits state)
    (hexecutions : t.executions = s.executions) (haccepted : t.accepted = s.accepted)
    (hbalance : ∀ id, state.ids.count id + t.finished.count id =
      s.queue.ids.count id + s.finished.count id) : t.Conserved := by
  refine hwrites.conserved hs hfits (haccepted ▸ hs.nodup) fun id ↦ ?_
  have hid := hbalance id
  rw [hexecutions, haccepted]
  omega

theorem Conserved.call (hs : s.Conserved)
    {updater : ConversationCommandQueueState → ConversationCommandQueueState}
    (h : s.hook.isSome → s.Current (updater s.data) ∧ Fits (updater s.data)) :
    (s.call updater).Conserved := by
  rw [DraftQueue.call]
  split
  · exact hs
  · next hook hhook =>
      obtain ⟨hcurrent, hfits⟩ := h (by simp [hhook])
      refine hs.updateState (writes_updateState hook.number updater) hfits rfl rfl fun id ↦ ?_
      exact congrArg (· + s.finished.count id) (hcurrent.count_eq id)

section Enqueue

def enqueued (hook : Hook) (item : ConversationCommandQueueItem) : ConversationCommandQueueState :=
  { normalizeQueueState hook.refs.state with
    items := (normalizeQueueState hook.refs.state).items ++ [item] }

def updated (hook : Hook) (commandId input : String) : ConversationCommandQueueState :=
  { normalizeQueueState hook.refs.state with
    isPaused := false
    items := updateQueuedCommand (normalizeQueueState hook.refs.state).items commandId input }

variable {hook : Hook} {id input commandId : String} {files : List ChatFileRef}
  {sessions : Option (List SessionRef)} {now : ℕ}

theorem enqueue_fits
    (h : getQueueValidationFailureReason
      (enqueued hook ⟨id, input, uniqueFiles files, normalizeSessionRefs sessions, now⟩) = none) :
    Fits (enqueued hook ⟨id, input, uniqueFiles files, normalizeSessionRefs sessions, now⟩) := by
  refine ((validated_of_eq_none h).normal (by simp [enqueued]) fun item hitem ↦ ?_).fits
  rcases List.mem_append.mp hitem with hold | hnew
  · exact files_of_normalizeQueueItem ((normal_normalizeQueueState _).items item hold)
  · obtain rfl := List.mem_singleton.mp hnew
    exact ⟨uniqueFiles_uniqueFiles files, normalizeSessionRefs_normalizeSessionRefs sessions⟩

theorem update_fits (h : getQueueValidationFailureReason (updated hook commandId input) = none) :
    Fits (updated hook commandId input) := by
  by_cases hne : (normalizeQueueState hook.refs.state).items = []
  · have hempty : updated hook commandId input =
        ⟨[], false, (normalizeQueueState hook.refs.state).mode⟩ := by
      simp [updated, hne, updateQueuedCommand]
    rw [Fits, hempty]
    rfl
  · refine ((validated_of_eq_none h).normal (by simpa [updated, updateQueuedCommand] using hne)
      fun item hitem ↦ ?_).fits
    obtain ⟨old, hold, rfl⟩ := List.mem_map.mp hitem
    have hfiles := files_of_normalizeQueueItem ((normal_normalizeQueueState _).items old hold)
    split <;> exact hfiles

theorem enqueue_eq (hhook : s.hook = some hook) :
    s.enqueue id input files sessions now =
      let item := ⟨id, input, uniqueFiles files, normalizeSessionRefs sessions, now⟩
      if id ∈ s.accepted ∨ (getQueueValidationFailureReason (enqueued hook item)).isSome then s
      else
        { s.updateState hook.number fun _ ↦ enqueued hook item with
          accepted := s.accepted ++ [id] } := by
  rw [DraftQueue.enqueue, hhook]
  rfl

theorem update_eq (hhook : s.hook = some hook) : s.update commandId input =
    if (∀ item ∈ (normalizeQueueState hook.refs.state).items, item.id ≠ commandId) ∨
      (getQueueValidationFailureReason (updated hook commandId input)).isSome then s
    else s.updateState hook.number fun _ ↦ updated hook commandId input := by
  rw [DraftQueue.update, hhook]
  rfl

theorem Conserved.enqueue (hs : s.Conserved)
    (h : ∀ hook ∈ s.hook, id ∉ s.accepted → getQueueValidationFailureReason
      (enqueued hook ⟨id, input, uniqueFiles files, normalizeSessionRefs sessions, now⟩) = none →
        s.Current (normalizeQueueState hook.refs.state)) :
    (s.enqueue id input files sessions now).Conserved := by
  cases hhook : s.hook with
  | none =>
      rw [DraftQueue.enqueue, hhook]
      exact hs
  | some hook =>
      rw [enqueue_eq hhook]
      simp only
      split
      · exact hs
      · next haccepted =>
          rw [not_or, Bool.not_eq_true, Option.isSome_eq_false_iff, Option.isNone_iff_eq_none]
            at haccepted
          obtain ⟨hnew, hvalid⟩ := haccepted
          have hcurrent := h hook hhook hnew hvalid
          have hwrites := writes_updateState (s := s) hook.number fun _ ↦
            enqueued hook ⟨id, input, uniqueFiles files, normalizeSessionRefs sessions, now⟩
          refine Writes.conserved ⟨hwrites.conversation, hwrites.background⟩ hs (enqueue_fits hvalid)
            (hs.nodup.append (List.nodup_singleton id) (List.disjoint_singleton.mpr hnew))
            fun id' ↦ ?_
          have hids := hcurrent.count_eq id'
          simp only [ConversationCommandQueueState.ids, enqueued, List.map_append, List.map_cons,
            List.map_nil, List.count_append] at hids ⊢
          change _ + (s.executions.map (·.command.id)).count id' + s.finished.count id' + _ = _
          omega

theorem Conserved.update (hs : s.Conserved)
    (h : ∀ hook ∈ s.hook, (∃ item ∈ (normalizeQueueState hook.refs.state).items,
      item.id = commandId) → getQueueValidationFailureReason (updated hook commandId input) = none →
        s.Current (normalizeQueueState hook.refs.state)) :
    (s.update commandId input).Conserved := by
  cases hhook : s.hook with
  | none =>
      rw [DraftQueue.update, hhook]
      exact hs
  | some hook =>
      rw [update_eq hhook]
      split
      · exact hs
      · next haccepted =>
          rw [not_or, Bool.not_eq_true, Option.isSome_eq_false_iff, Option.isNone_iff_eq_none]
            at haccepted
          obtain ⟨hmem, hvalid⟩ := haccepted
          push Not at hmem
          have hcurrent := h hook hhook hmem hvalid
          refine hs.updateState (writes_updateState hook.number _) (update_fits hvalid) rfl rfl
            fun id ↦ ?_
          have hids : (updated hook commandId input).ids =
              (normalizeQueueState hook.refs.state).ids := map_id_updateQueuedCommand commandId input
          rw [hids, hcurrent.count_eq id]
          rfl

end Enqueue

section Discard

variable {commandId : String}

theorem discard_call_eq {hook : Hook} (hhook : s.hook = some hook)
    (p : ConversationCommandQueueItem → Bool)
    (updater : ConversationCommandQueueState → ConversationCommandQueueState) :
    (s.discard p).call updater =
      ({ s with finished := s.finished ++ (s.data.items.filter p).map (·.id) } :
        DraftQueue).updateState hook.number updater := by
  rw [discard, if_neg (by simp [hhook]), DraftQueue.call]
  simp only [hhook]

theorem Conserved.discard_call (hs : s.Conserved) {p : ConversationCommandQueueItem → Bool}
    {updater : ConversationCommandQueueState → ConversationCommandQueueState}
    (hids : (updater s.data).ids = (s.data.items.filter fun item ↦ !p item).map (·.id))
    (h : s.hook.isSome → s.Current s.data ∧ Fits (updater s.data)) :
    ((s.discard p).call updater).Conserved := by
  cases hhook : s.hook with
  | none =>
      rw [discard, if_pos (by simp [hhook]), DraftQueue.call, hhook]
      exact hs
  | some hook =>
      obtain ⟨hcurrent, hfits⟩ := h (by simp [hhook])
      let discarded : DraftQueue :=
        { s with finished := s.finished ++ (s.data.items.filter p).map (·.id) }
      have hwrites : Writes s (discarded.updateState hook.number updater) (updater s.data) :=
        ⟨rfl, rfl⟩
      rw [discard_call_eq hhook]
      refine hs.updateState hwrites hfits rfl rfl fun id ↦ ?_
      have hsplit := ((List.filter_append_perm p s.data.items).map (·.id)).count_eq id
      have hqueue := hcurrent.count_eq id
      have hfinished : (discarded.updateState hook.number updater).finished.count id =
          s.finished.count id + ((s.data.items.filter p).map (·.id)).count id :=
        List.count_append
      rw [List.map_append, List.count_append] at hsplit
      rw [ConversationCommandQueueState.ids] at hqueue
      rw [hids, hfinished]
      omega

theorem Conserved.remove (hs : s.Conserved)
    (h : s.hook.isSome → s.Current s.data ∧
      Fits (s.data.removed commandId)) :
    (s.remove commandId).Conserved := by
  refine hs.discard_call ?_ h
  simp [ConversationCommandQueueState.ids, ConversationCommandQueueState.removed,
    ConversationCommandQueueState.withItems, removeQueuedCommand]

theorem Conserved.stopWaiting (hs : s.Conserved) : (s.mapHookRefs Refs.stopWaiting).Conserved :=
  hs.of_quiet rfl rfl rfl rfl rfl

theorem Conserved.clear (hs : s.Conserved) (h : s.hook.isSome → s.Current s.data) :
    s.clear.Conserved := by
  refine hs.stopWaiting.discard_call ?_ fun hhook ↦ ⟨h ?_, normal_createDefaultQueueState.fits⟩
  · simp [ConversationCommandQueueState.ids, createDefaultQueueState]
  · simpa [mapHookRefs] using hhook

theorem queue_clear {hook : Hook} (hhook : s.hook = some hook) :
    s.clear.conversationId = s.conversationId ∧ s.clear.queue = createDefaultQueueState := by
  have hstopped : (s.mapHookRefs Refs.stopWaiting).hook =
      some { hook with refs := hook.refs.stopWaiting } := by
    rw [mapHookRefs, hhook]
    rfl
  rw [DraftQueue.clear, discard_call_eq hstopped]
  refine ⟨rfl, (writes_updateState _ _).queue_eq.trans ?_⟩
  exact normalizeQueueState_of_normal normal_createDefaultQueueState

theorem Conserved.deleteConversation (hs : s.Conserved) (h : s.hook.isSome → s.Current s.data) :
    s.deleteConversation.Conserved := by
  cases hhook : s.hook with
  | none =>
      rw [DraftQueue.deleteConversation, if_pos (by simp [hhook])]
      exact hs
  | some hook =>
      have hclear := hs.clear h
      obtain ⟨hconversation, hqueue⟩ := queue_clear hhook
      have hread : readPersistedQueueState (s.clear.background.store.erase s.conversationId)
          s.clear.conversationId = createDefaultQueueState := by
        rw [hconversation, readPersistedQueueState, AList.lookup_erase, Option.getD_none]
      rw [DraftQueue.deleteConversation, if_neg (by simp [hhook])]
      refine ⟨?_, hclear.nodup, hclear.background.store (hread ▸ normal_createDefaultQueueState)⟩
      have hheld : ({ s.clear.background with
          store := s.clear.background.store.erase s.conversationId } : BackgroundQueues).held
            s.clear.conversationId = s.clear.background.held s.clear.conversationId :=
        congrArg (fun state : ConversationCommandQueueState ↦
          state.ids ++ s.clear.background.pending.map (·.command.id)) (hread.trans hqueue.symm)
      rw [places, hheld]
      exact hclear.perm

end Discard

section Arrange

/-- An update of the cached queue starts from the persisted one and cuts nothing off. -/
def Rewritable (s : DraftQueue)
    (updater : ConversationCommandQueueState → ConversationCommandQueueState) : Prop :=
  s.Current s.data ∧ Fits (updater s.data)

theorem Conserved.arrange (hs : s.Conserved)
    {updater : ConversationCommandQueueState → ConversationCommandQueueState}
    (hids : s.data.ids.Nodup → (updater s.data).ids.Perm s.data.ids)
    (h : s.hook.isSome → s.Rewritable updater) : (s.call updater).Conserved := by
  refine hs.call fun hhook ↦ ?_
  obtain ⟨hcurrent, hfits⟩ := h hhook
  exact ⟨(hids (hcurrent.nodup_iff.mpr hs.queue_nodup)).trans hcurrent, hfits⟩

theorem ids_prioritized_perm {commandId : String} (hnodup : state.ids.Nodup) :
    (state.prioritized commandId).ids.Perm state.ids := by
  rw [ConversationCommandQueueState.prioritized]
  split
  · exact List.Perm.refl _
  · next target hfind =>
      have hid : target.id = commandId := by simpa using List.find?_some hfind
      have hmem : commandId ∈ state.ids := hid ▸ List.mem_map_of_mem (List.mem_of_find?_eq_some hfind)
      refine List.perm_iff_count.mpr fun id ↦ ?_
      rw [← count_filter_ne hnodup hmem id, ConversationCommandQueueState.ids, List.map_cons,
        map_id_removeQueuedCommand, hid, count_cons_eq_add]
      rfl

theorem ids_reordered_perm {activeCommandId overCommandId : String} :
    (state.reordered activeCommandId overCommandId).ids.Perm state.ids :=
  (reorderQueuedCommand_perm activeCommandId overCommandId).map ConversationCommandQueueItem.id

theorem ids_paused : state.paused.ids = state.ids := by
  rw [ConversationCommandQueueState.paused]
  split
  · next hempty =>
      rw [ConversationCommandQueueState.ids, ConversationCommandQueueState.ids, hempty]
      rfl
  · rfl

end Arrange

section Execute

variable {hook : Hook} {e : ForegroundExecution}

theorem Conserved.execute (hs : s.Conserved) (hwrites : Writes s t state) (hfits : Fits state)
    (hexecutions : t.executions = s.executions ++ [e])
    (haccepted : t.accepted = s.accepted) (hfinished : t.finished = s.finished)
    (hbalance : ∀ id, state.ids.count id + [e.command.id].count id = s.queue.ids.count id) :
    t.Conserved := by
  refine hwrites.conserved hs hfits (haccepted ▸ hs.nodup) fun id ↦ ?_
  have hid := hbalance id
  have hstarted : (t.executions.map (·.command.id)).count id =
      (s.executions.map (·.command.id)).count id + [e.command.id].count id := by
    rw [hexecutions, List.map_append, List.count_append]
    rfl
  rw [hstarted, haccepted, hfinished]
  omega

theorem Conserved.sendNow (hs : s.Conserved) {commandId : String}
    (h : ∀ hook ∈ s.hook, (∃ item ∈ (normalizeQueueState hook.refs.state).items,
      item.id = commandId) → commandId ∈ s.queue.ids ∧ s.Rewritable (·.removed commandId)) :
    (s.sendNow commandId).Conserved := by
  rw [DraftQueue.sendNow]
  split
  · exact hs
  · next hook hhook =>
      split
      · exact hs
      · next target hfind =>
          have hid : target.id = commandId := by simpa using List.find?_some hfind
          obtain ⟨hmem, hcurrent, hfits⟩ :=
            h hook hhook ⟨target, List.mem_of_find?_eq_some hfind, hid⟩
          have hnodup : s.data.ids.Nodup := hcurrent.nodup_iff.mpr hs.queue_nodup
          have hwrites := writes_updateState (s := s.mapRefs hook.number fun refs ↦
            { refs with
              waitingForTurnStart := true
              waitingForTurnCompletion := false
              observedBusyBlockedGate := false }) hook.number (·.removed commandId)
          refine hs.execute ⟨hwrites.conversation, hwrites.background⟩ hfits rfl rfl
            rfl fun id ↦ ?_
          rw [← hcurrent.count_eq id, ← count_filter_ne hnodup (hcurrent.mem_iff.mpr hmem) id, hid]
          congr 2
          exact map_id_removeQueuedCommand commandId

theorem Conserved.of_background (hs : s.Conserved) (hconversation : t.conversationId = s.conversationId)
    (hbackground : t.background.Orderly s.conversationId ∧
      (t.background.held s.conversationId).Perm (s.background.held s.conversationId))
    (hexecutions : t.executions = s.executions) (haccepted : t.accepted = s.accepted)
    (hfinished : t.finished = s.finished) : t.Conserved where
  perm := by
    rw [places, hconversation, hexecutions, haccepted, hfinished]
    exact ((hbackground.2.append_right _).append_right _).trans hs.perm
  nodup := haccepted ▸ hs.nodup
  background := hconversation ▸ hbackground.1

/-- What the effects of a render leave before the automatic dequeue. -/
def effected (s : DraftQueue) (hook : Hook) : DraftQueue :=
  { s with
    background := if hook.effected.isNone then s.background.register s.conversationId
      else s.background
    hook := some { hook.runRefEffects with effected := some hook.rendered } }

theorem Conserved.effected (hs : s.Conserved) (hook : Hook) : (s.effected hook).Conserved := by
  refine hs.of_background rfl ?_ rfl rfl rfl
  change (ite _ _ _ : BackgroundQueues).Orderly _ ∧ ((ite _ _ _ : BackgroundQueues).held _).Perm _
  split
  · exact ⟨hs.background.register, List.Perm.refl _⟩
  · exact ⟨hs.background, List.Perm.refl _⟩

theorem queue_effected (hook : Hook) : (s.effected hook).queue = s.queue := by
  change (ite _ _ _ : BackgroundQueues).queue _ = _
  split <;> rfl

theorem items_of_dequeues {taken : ConversationCommandQueueItem × List ConversationCommandQueueItem}
    (h : hook.dequeues = some taken) : hook.rendered.data.items = taken.1 :: taken.2 := by
  simp only [Hook.dequeues] at h
  split at h
  · cases h
  · split at h
    · cases h
    · next hitems =>
        obtain rfl := Option.some.inj h
        exact hitems

theorem Conserved.effects (hs : s.Conserved)
    (h : ∀ hook ∈ s.hook, ∀ taken ∈ hook.runRefEffects.dequeues,
      s.Current hook.rendered.data ∧ Fits (s.data.withItems taken.2)) : s.effects.Conserved := by
  cases hhook : s.hook with
  | none =>
      rw [DraftQueue.effects, hhook]
      exact hs
  | some hook =>
      have heffected := hs.effected hook
      cases hdequeues : hook.runRefEffects.dequeues with
      | none =>
          have heq : s.effects = s.effected hook := by
            rw [DraftQueue.effects, hhook]
            simp only [hdequeues]
            rfl
          rw [heq]
          exact heffected
      | some taken =>
          obtain ⟨nextCommand, remainingCommands⟩ := taken
          obtain ⟨hcurrent, hfits⟩ := h hook hhook _ hdequeues
          have hitems : hook.rendered.data.items = nextCommand :: remainingCommands :=
            items_of_dequeues hdequeues
          let waiting := (s.effected hook).mapRefs hook.number fun refs ↦
            { refs with
              waitingForTurnStart := true
              observedBusyBlockedGate := false }
          have heq : s.effects = { waiting.updateState hook.number (·.withItems remainingCommands) with
              executions := s.executions ++ [⟨hook.number, nextCommand⟩] } := by
            rw [DraftQueue.effects, hhook]
            simp only [hdequeues]
            rfl
          have hwrites := writes_updateState (s := waiting) hook.number (·.withItems remainingCommands)
          rw [heq]
          refine heffected.execute ⟨hwrites.conversation, hwrites.background⟩ hfits rfl
            rfl rfl fun id ↦ ?_
          rw [queue_effected, ← hcurrent.count_eq id, ConversationCommandQueueState.ids,
            ConversationCommandQueueState.ids, hitems]
          exact (count_cons_eq_add nextCommand.id _ id).symm

end Execute

section Settle

variable {index : ℕ} {result : Settlement}

theorem count_executions {e : ForegroundExecution} (he : s.executions[index]? = some e)
    (id : String) : ((s.executions.eraseIdx index).map (·.command.id)).count id +
      [e.command.id].count id = (s.executions.map (·.command.id)).count id := by
  obtain ⟨hlt, rfl⟩ := List.getElem?_eq_some_iff.mp he
  have hperm := (List.getElem_cons_eraseIdx_perm hlt).map fun e : ForegroundExecution ↦ e.command.id
  rw [← hperm.count_eq id]
  exact (count_cons_eq_add _ _ id).symm

theorem Conserved.resolved (hs : s.Conserved) {e : ForegroundExecution}
    (he : s.executions[index]? = some e) :
    ({ s with
      executions := s.executions.eraseIdx index
      finished := s.finished ++ [e.command.id] } : DraftQueue).Conserved where
  perm := by
    refine List.perm_iff_count.mpr fun id ↦ ?_
    have hid := count_executions he id
    rw [← hs.perm.count_eq id]
    simp only [places, List.count_append]
    omega
  nodup := hs.nodup
  background := hs.background

theorem Conserved.restore (hs : s.Conserved) {e : ForegroundExecution}
    (he : s.executions[index]? = some e) (busy : Bool)
    (h : s.Rewritable (·.restored e.command !busy)) :
    (({ s with executions := s.executions.eraseIdx index } : DraftQueue).restore e busy).Conserved ∧
      (({ s with executions := s.executions.eraseIdx index } : DraftQueue).restore
        e busy).queue.ids = e.command.id :: s.data.ids := by
  obtain ⟨hcurrent, hfits⟩ := h
  have hnew : e.command.id ∉ s.data.ids :=
    mt hcurrent.mem_iff.mp (hs.notMem_queue (List.mem_of_getElem? he))
  have hids : (s.data.restored e.command !busy).ids = e.command.id :: s.data.ids := by
    rw [BackgroundQueues.ids_restored, List.filter_eq_self.mpr]
    intro id hid
    have hne : id ≠ e.command.id := fun heq ↦ hnew (heq ▸ hid)
    simpa using hne
  let waiting := ({ s with executions := s.executions.eraseIdx index } : DraftQueue).mapRefs
    e.hook fun refs ↦ refs.failed busy
  have hwrites := writes_updateState (s := waiting) e.hook (·.restored e.command !busy)
  have hrestored : Writes s (({ s with executions := s.executions.eraseIdx index } :
      DraftQueue).restore e busy) (s.data.restored e.command !busy) :=
    ⟨hwrites.conversation, hwrites.background⟩
  refine ⟨hrestored.conserved hs hfits hs.nodup fun id ↦ ?_, ?_⟩
  · have hid := count_executions he id
    have hqueue := hcurrent.count_eq id
    rw [hids, count_cons_eq_add]
    change _ + ((s.executions.eraseIdx index).map (·.command.id)).count id + s.finished.count id +
      s.accepted.count id = _
    have haccepted : (({ s with executions := s.executions.eraseIdx index } : DraftQueue).restore
      e busy).accepted = s.accepted := rfl
    rw [haccepted]
    omega
  · rw [hrestored.queue_eq, ← hids]
    exact hfits

theorem Conserved.settle (hs : s.Conserved)
    (h : ∀ e ∈ s.executions[index]?, result ≠ .resolved →
      s.Rewritable (·.restored e.command (result = .rejected))) :
    (s.settle index result).Conserved := by
  rw [DraftQueue.settle]
  split
  · exact hs
  · next e he =>
      cases result with
      | resolved => exact hs.resolved he
      | busy => exact (hs.restore he true (h e he (by simp))).1
      | rejected => exact (hs.restore he false (h e he (by simp))).1

theorem Conserved.settleBackground (hs : s.Conserved)
    (h : ∀ e ∈ s.background.pending[index]?, result ≠ .resolved →
      Fits (s.queue.restored e.command (result = .rejected))) :
    (s.settleBackground index result).Conserved := by
  rw [DraftQueue.settleBackground]
  split
  · exact hs
  · next e he =>
      by_cases hresult : result = .resolved
      · subst hresult
        obtain ⟨horderly, hperm⟩ := hs.background.settle_resolved he
        rw [if_pos rfl]
        refine ⟨List.perm_iff_count.mpr fun id ↦ ?_, hs.nodup, horderly⟩
        have hid := hperm.count_eq id
        rw [count_cons_eq_add] at hid
        rw [← hs.perm.count_eq id]
        simp only [places, List.count_append]
        omega
      · obtain ⟨horderly, hperm, -⟩ := hs.background.settle_failed he hresult (h e he hresult)
          (hs.notMem_queue_of_pending (List.mem_of_getElem? he))
        rw [if_neg hresult]
        exact hs.of_background rfl ⟨horderly, hperm⟩ rfl rfl rfl

end Settle

section Run

/-- Every write starts from the commands that are persisted and cuts none of them off. -/
def Undisturbed (s : DraftQueue) : DraftAction → Prop
  | .effects => ∀ hook ∈ s.hook, ∀ taken ∈ hook.runRefEffects.dequeues,
      s.Current hook.rendered.data ∧ Fits (s.data.withItems taken.2)
  | .enqueue id input files sessions now => ∀ hook ∈ s.hook, id ∉ s.accepted →
      getQueueValidationFailureReason (enqueued hook
        ⟨id, input, uniqueFiles files, normalizeSessionRefs sessions, now⟩) = none →
      s.Current (normalizeQueueState hook.refs.state)
  | .update commandId input => ∀ hook ∈ s.hook,
      (∃ item ∈ (normalizeQueueState hook.refs.state).items, item.id = commandId) →
      getQueueValidationFailureReason (updated hook commandId input) = none →
      s.Current (normalizeQueueState hook.refs.state)
  | .remove commandId => s.hook.isSome → s.Rewritable (·.removed commandId)
  | .prioritize commandId => s.hook.isSome → s.Rewritable (·.prioritized commandId)
  | .sendNow commandId => ∀ hook ∈ s.hook,
      (∃ item ∈ (normalizeQueueState hook.refs.state).items, item.id = commandId) →
      commandId ∈ s.queue.ids ∧ s.Rewritable (·.removed commandId)
  | .reorder activeCommandId overCommandId =>
      s.hook.isSome → s.Rewritable (·.reordered activeCommandId overCommandId)
  | .pause => s.hook.isSome → s.Rewritable (·.paused)
  | .resume => s.hook.isSome → s.Rewritable (·.resumed)
  | .toggleMode => s.hook.isSome → s.Rewritable (·.toggled)
  | .clear | .deleteConversation => s.hook.isSome → s.Current s.data
  | .settle index result => ∀ e ∈ s.executions[index]?, result ≠ .resolved →
      s.Rewritable (·.restored e.command (result = .rejected))
  | .settleBackground index result => ∀ e ∈ s.background.pending[index]?, result ≠ .resolved →
      Fits (s.queue.restored e.command (result = .rejected))
  | .mount _ | .unmount | .render _ | .fetch | .fetched | .lockInteraction | .unlockInteraction
  | .resetActiveExecution | .turnCompleted _ | .setView _ => True

section Decidable

variable (s)

instance (state : ConversationCommandQueueState) : Decidable (s.Current state) :=
  inferInstanceAs (Decidable (state.ids.Perm s.queue.ids))

instance (state : ConversationCommandQueueState) : Decidable (Fits state) :=
  inferInstanceAs (Decidable (_ = _))

instance (updater : ConversationCommandQueueState → ConversationCommandQueueState) :
    Decidable (s.Rewritable updater) :=
  inferInstanceAs (Decidable (_ ∧ _))

instance : ∀ a, Decidable (s.Undisturbed a)
  | .effects => inferInstanceAs (Decidable (∀ hook ∈ s.hook, ∀ taken ∈ _, _ ∧ _))
  | .enqueue _ _ _ _ _ => inferInstanceAs (Decidable (∀ hook ∈ s.hook, _ → _ → _))
  | .update _ _ => inferInstanceAs (Decidable (∀ hook ∈ s.hook, _ → _ → _))
  | .remove _ => inferInstanceAs (Decidable (_ → _))
  | .prioritize _ => inferInstanceAs (Decidable (_ → _))
  | .sendNow _ => inferInstanceAs (Decidable (∀ hook ∈ s.hook, _ → _ ∧ _))
  | .reorder _ _ => inferInstanceAs (Decidable (_ → _))
  | .pause => inferInstanceAs (Decidable (_ → _))
  | .resume => inferInstanceAs (Decidable (_ → _))
  | .toggleMode => inferInstanceAs (Decidable (_ → _))
  | .clear => inferInstanceAs (Decidable (_ → _))
  | .deleteConversation => inferInstanceAs (Decidable (_ → _))
  | .settle _ _ => inferInstanceAs (Decidable (∀ e ∈ _, _ → _))
  | .settleBackground _ _ => inferInstanceAs (Decidable (∀ e ∈ _, _ → _))
  | .mount _ => isTrue trivial
  | .unmount => isTrue trivial
  | .render _ => isTrue trivial
  | .fetch => isTrue trivial
  | .fetched => isTrue trivial
  | .lockInteraction => isTrue trivial
  | .unlockInteraction => isTrue trivial
  | .resetActiveExecution => isTrue trivial
  | .turnCompleted _ => isTrue trivial
  | .setView _ => isTrue trivial

end Decidable

theorem Conserved.unmount (hs : s.Conserved) : s.unmount.Conserved := by
  rw [DraftQueue.unmount]
  split
  · exact hs
  · refine hs.of_background rfl ?_ rfl rfl rfl
    change (ite _ _ _ : BackgroundQueues).Orderly _ ∧ ((ite _ _ _ : BackgroundQueues).held _).Perm _
    split
    · exact hs.background.detach
    · exact ⟨hs.background, List.Perm.refl _⟩

theorem Conserved.step (hs : s.Conserved) {a : DraftAction} (h : s.Undisturbed a) :
    (s.step a).Conserved := by
  cases a with
  | mount gate =>
      rw [DraftQueue.step, DraftQueue.mount]
      split
      · exact hs
      · exact hs.of_quiet rfl rfl rfl rfl rfl
  | unmount => exact hs.unmount
  | render gate => exact hs.of_quiet rfl rfl rfl rfl rfl
  | effects => exact hs.effects h
  | fetch =>
      rw [DraftQueue.step]
      split
      · exact hs
      · exact hs.of_quiet rfl rfl rfl rfl rfl
  | fetched => exact hs.of_quiet rfl rfl rfl rfl rfl
  | enqueue id input files sessions now => exact hs.enqueue h
  | update commandId input => exact hs.update h
  | remove commandId => exact hs.remove h
  | prioritize commandId => exact hs.arrange ids_prioritized_perm h
  | sendNow commandId => exact hs.sendNow h
  | reorder activeCommandId overCommandId => exact hs.arrange (fun _ ↦ ids_reordered_perm) h
  | pause =>
      refine hs.stopWaiting.arrange (fun _ ↦ List.Perm.of_eq ids_paused) fun hhook ↦ h ?_
      simpa [mapHookRefs] using hhook
  | resume => exact hs.arrange (fun _ ↦ List.Perm.refl _) h
  | toggleMode => exact hs.arrange (fun _ ↦ List.Perm.refl _) h
  | clear => exact hs.clear h
  | deleteConversation => exact hs.deleteConversation h
  | lockInteraction => exact hs.of_quiet rfl rfl rfl rfl rfl
  | unlockInteraction => exact hs.of_quiet rfl rfl rfl rfl rfl
  | resetActiveExecution => exact hs.of_quiet rfl rfl rfl rfl rfl
  | settle index result => exact hs.settle h
  | turnCompleted view =>
      exact hs.of_background rfl (hs.background.turnCompleted view) rfl rfl rfl
  | settleBackground index result => exact hs.settleBackground h
  | setView view =>
      refine hs.of_background rfl ⟨?_, List.Perm.refl _⟩ rfl rfl rfl
      exact ⟨hs.background.runners.viewed view, hs.background.own, hs.background.normal⟩

def RestoresFront (s : DraftQueue) (a : DraftAction) : Prop :=
  match a with
  | .settle index result => ∀ e ∈ s.executions[index]?, result ≠ .resolved →
      (s.step a).queue.ids.head? = some e.command.id
  | .settleBackground index result => ∀ e ∈ s.background.pending[index]?, result ≠ .resolved →
      (s.step a).queue.ids.head? = some e.command.id
  | _ => True

theorem Conserved.restoresFront (hs : s.Conserved) {a : DraftAction} (h : s.Undisturbed a) :
    s.RestoresFront a := by
  cases a with
  | settle index result =>
      intro e he hresult
      have hfront : (s.settle index result).queue.ids = e.command.id :: s.data.ids := by
        rw [DraftQueue.settle, Option.mem_def.mp he]
        cases result with
        | resolved => exact absurd rfl hresult
        | busy => exact (hs.restore he true (h e he hresult)).2
        | rejected => exact (hs.restore he false (h e he hresult)).2
      exact congrArg List.head? hfront
  | settleBackground index result =>
      intro e he hresult
      obtain ⟨-, -, hfront⟩ := hs.background.settle_failed he hresult (h e he hresult)
        (hs.notMem_queue_of_pending (List.mem_of_getElem? he))
      have hqueue : (s.settleBackground index result).queue =
          (s.background.settle index result).queue s.conversationId := by
        rw [DraftQueue.settleBackground, Option.mem_def.mp he]
        rfl
      exact congrArg List.head? ((congrArg ConversationCommandQueueState.ids hqueue).trans hfront)
  | _ => trivial

theorem conserved_new (c : String) (views : String → RuntimeView) : (new c views).Conserved where
  perm := List.Perm.refl []
  nodup := List.nodup_nil
  background :=
    { runners := BackgroundQueues.wellformed_new ∅ views
      own := fun r hr ↦ absurd hr (Nat.not_lt_zero r)
      normal := normal_createDefaultQueueState }

/-- No command is lost or repeated along a run in which every write starts from the persisted
commands and cuts none of them off. -/
theorem kept_of_undisturbed (c : String) (views : String → RuntimeView) (as : List DraftAction)
    (h : Meets DraftQueue.step Undisturbed (new c views) as) :
    Throughout DraftQueue.step Kept (new c views) as ∧
      Meets DraftQueue.step RestoresFront (new c views) as := by
  have hstep : ∀ (s : DraftQueue) a, s.Conserved → s.Undisturbed a → (s.step a).Conserved :=
    fun s a hs hg ↦ hs.step hg
  have hnew := conserved_new c views
  refine ⟨(throughout_of_meets hstep hnew h).mono fun s hs ↦ hs.kept, ?_⟩
  exact meets_of_meets hstep (fun s a hs hg ↦ hs.restoresFront hg) hnew h

def refusedWhileBusy : List DraftAction :=
  [.mount ⟨true, true, false⟩, .effects, .enqueue "1" "first" [] none 0, .toggleMode,
    .render ⟨true, true, false⟩, .effects, .enqueue "2" "second" [] none 1, .settle 0 .busy]

theorem refusedWhileBusy_kept :
    Throughout DraftQueue.step Kept (new "c" fun _ ↦ ⟨true, true, false⟩) refusedWhileBusy ∧
      Meets DraftQueue.step RestoresFront (new "c" fun _ ↦ ⟨true, true, false⟩) refusedWhileBusy :=
  kept_of_undisturbed "c" _ refusedWhileBusy (by decide)

def refusedAfterRemount : List DraftAction :=
  [.mount ⟨true, false, true⟩, .effects, .enqueue "1" "first" [] none 0, .toggleMode, .unmount,
    .mount ⟨true, false, true⟩, .effects, .fetch, .fetched, .render ⟨true, false, true⟩, .effects,
    .settleBackground 0 .busy, .enqueue "2" "second" [] none 1]

theorem restored_command_lost :
    ¬Throughout DraftQueue.step Kept (new "c" fun _ ↦ ⟨true, true, false⟩) refusedAfterRemount :=
  fun h ↦ absurd (h.last "1" (by decide)) (by decide)

end Run

end DraftQueue

end Zaowutai.CommandQueue
