import Mathlib
import Zaowutai.Session.ConversationSession

/-!
# The pending queue

The ids and the ordinals of the queue are distinct, and its messages stand in
the order of their ordinals.  Apart from a send, a step works on each entry on
its own: it changes a status or removes the entry, and never makes a message
`Held` again.
-/

namespace Zaowutai.Session

variable {Content : Type*}

theorem clientMsgIdOf_injective {msgIdPrefix : String} {i j : ℕ}
    (h : clientMsgIdOf msgIdPrefix i = clientMsgIdOf msgIdPrefix j) : i = j := by
  apply Nat.repr_injective
  exact (String.append_right_inj _).mp h

structure QueueInvariant (msgIdPrefix : String) (p : Pending Content) : Prop where
  ids : ∀ m ∈ p.queue, m.clientMsgId = clientMsgIdOf msgIdPrefix m.enqueueOrdinal
  ordered : (p.queue.map PendingMessage.enqueueOrdinal).Pairwise (· < ·)
  bounded : ∀ m ∈ p.queue, m.enqueueOrdinal ≤ p.nextId

section Queue

variable {msgIdPrefix : String} {p : Pending Content}

theorem QueueInvariant.eq_of_ordinal (h : QueueInvariant msgIdPrefix p)
    {m m' : PendingMessage Content} (hm : m ∈ p.queue) (hm' : m' ∈ p.queue)
    (heq : m.enqueueOrdinal = m'.enqueueOrdinal) : m = m' :=
  List.inj_on_of_nodup_map (h.ordered.imp fun hlt ↦ hlt.ne) hm hm' heq

theorem QueueInvariant.eq_of_id (h : QueueInvariant msgIdPrefix p)
    {m m' : PendingMessage Content} (hm : m ∈ p.queue) (hm' : m' ∈ p.queue)
    (heq : m.clientMsgId = m'.clientMsgId) : m = m' := by
  apply h.eq_of_ordinal hm hm'
  rw [h.ids m hm, h.ids m' hm'] at heq
  exact clientMsgIdOf_injective heq

theorem QueueInvariant.nodup_ids (h : QueueInvariant msgIdPrefix p) :
    (p.queue.map PendingMessage.clientMsgId).Nodup := by
  have hnodup : p.queue.Nodup := List.Nodup.of_map PendingMessage.enqueueOrdinal
    (h.ordered.imp fun hlt ↦ hlt.ne)
  exact hnodup.map_on fun m hm m' hm' heq ↦ h.eq_of_id hm hm' heq

theorem queueInvariant_enqueue (h : QueueInvariant msgIdPrefix p) (content : Content) :
    QueueInvariant msgIdPrefix (p.enqueue msgIdPrefix content) := by
  constructor
  · intro m hm
    rcases List.mem_append.mp hm with hm | hm
    · exact h.ids m hm
    · rw [List.mem_singleton.mp hm]
  · simp only [Pending.enqueue, List.map_append, List.map_cons, List.map_nil]
    refine List.pairwise_append.mpr ⟨h.ordered, List.pairwise_singleton _ _, ?_⟩
    intro i hi j hj
    obtain ⟨m, hm, rfl⟩ := List.mem_map.mp hi
    have hle := h.bounded m hm
    rw [List.mem_singleton.mp hj]
    omega
  · intro m hm
    rcases List.mem_append.mp hm with hm | hm
    · exact (h.bounded m hm).trans (Nat.le_succ _)
    · rw [List.mem_singleton.mp hm]
      exact le_rfl

/-- What an operation makes of one entry: it may change the status, though not to `Held`, or
remove the entry. -/
def Entrywise (f : PendingMessage Content → Option (PendingMessage Content)) : Prop :=
  ∀ m m', f m = some m' → m'.clientMsgId = m.clientMsgId ∧
    m'.enqueueOrdinal = m.enqueueOrdinal ∧ (m'.status = .held → m' = m)

theorem queueInvariant_filterMap (h : QueueInvariant msgIdPrefix p)
    {f : PendingMessage Content → Option (PendingMessage Content)} (hf : Entrywise f) :
    QueueInvariant msgIdPrefix { p with queue := p.queue.filterMap f } := by
  constructor
  · intro m' hm'
    obtain ⟨m, hm, hfm⟩ := List.mem_filterMap.mp hm'
    obtain ⟨hid, hordinal, -⟩ := hf m m' hfm
    rw [hid, hordinal]
    exact h.ids m hm
  · rw [List.pairwise_map]
    refine (List.pairwise_map.mp h.ordered).filterMap f ?_
    intro m m' hlt n hn n' hn'
    rw [(hf m n hn).2.1, (hf m' n' hn').2.1]
    exact hlt
  · intro m' hm'
    obtain ⟨m, hm, hfm⟩ := List.mem_filterMap.mp hm'
    rw [(hf m m' hfm).2.1]
    exact h.bounded m hm

def restatus (clientMsgId : String) (status : MsgStatus) (m : PendingMessage Content) :
    Option (PendingMessage Content) :=
  some (if m.clientMsgId = clientMsgId then { m with status := status } else m)

def dropHeld (clientMsgId : String) (m : PendingMessage Content) :
    Option (PendingMessage Content) :=
  if isHeldWith clientMsgId m then none else some m

theorem entrywise_some : Entrywise (some : PendingMessage Content → _) := by
  rintro m _ ⟨⟩
  exact ⟨rfl, rfl, fun _ ↦ rfl⟩

theorem entrywise_restatus (clientMsgId : String) {status : MsgStatus} (h : status ≠ .held) :
    Entrywise (restatus clientMsgId status : PendingMessage Content → _) := by
  rintro m _ ⟨⟩
  split
  · exact ⟨rfl, rfl, fun hheld ↦ (h hheld).elim⟩
  · exact ⟨rfl, rfl, fun _ ↦ rfl⟩

theorem restatus_held {clientMsgId : String} {status : MsgStatus} (h : status ≠ .held)
    {m m' : PendingMessage Content} (hm : restatus clientMsgId status m = some m')
    (hheld : m'.status = .held) : m'.clientMsgId ≠ clientMsgId := by
  rw [restatus, Option.some_inj] at hm
  split at hm
  · rw [← hm] at hheld
    exact (h hheld).elim
  · next hid =>
      rw [← hm]
      exact hid

theorem entrywise_dropHeld (clientMsgId : String) :
    Entrywise (dropHeld clientMsgId : PendingMessage Content → _) := by
  intro m m' hm
  simp only [dropHeld] at hm
  split at hm
  · cases hm
  · cases hm
    exact ⟨rfl, rfl, fun _ ↦ rfl⟩

theorem entrywise_cancelOutstanding :
    Entrywise (fun m : PendingMessage Content ↦ some (cancelOutstanding m)) := by
  rintro m _ ⟨⟩
  simp only [cancelOutstanding]
  split
  · exact ⟨rfl, rfl, fun hheld ↦ by cases hheld⟩
  · exact ⟨rfl, rfl, fun _ ↦ rfl⟩

theorem setStatus_of_not_mem {clientMsgId : String} (status : MsgStatus)
    {queue : List (PendingMessage Content)} (h : ∀ m ∈ queue, m.clientMsgId ≠ clientMsgId) :
    setStatus clientMsgId status queue = queue := by
  induction queue with
  | nil => rfl
  | cons m rest ih =>
      rw [setStatus, if_neg (h m List.mem_cons_self),
        ih fun m' hm' ↦ h m' (List.mem_cons_of_mem _ hm')]

theorem setStatus_eq_filterMap (clientMsgId : String) (status : MsgStatus)
    {queue : List (PendingMessage Content)}
    (h : (queue.map PendingMessage.clientMsgId).Nodup) :
    setStatus clientMsgId status queue = queue.filterMap (restatus clientMsgId status) := by
  induction queue with
  | nil => rfl
  | cons m rest ih =>
      rw [List.map_cons, List.nodup_cons] at h
      have hrest := ih h.2
      have hcons : (m :: rest).filterMap (restatus clientMsgId status) =
          (if m.clientMsgId = clientMsgId then { m with status := status } else m) ::
            rest.filterMap (restatus clientMsgId status) := List.filterMap_cons_some rfl
      rw [setStatus, hcons, ← hrest]
      split
      · next heq =>
          rw [setStatus_of_not_mem]
          intro m' hm' hid
          exact h.1 (List.mem_map.mpr ⟨m', hm', hid.trans heq.symm⟩)
      · rfl

theorem eraseP_eq_filterMap (clientMsgId : String) {queue : List (PendingMessage Content)}
    (h : (queue.map PendingMessage.clientMsgId).Nodup) :
    queue.eraseP (isHeldWith clientMsgId) = queue.filterMap (dropHeld clientMsgId) := by
  induction queue with
  | nil => rfl
  | cons m rest ih =>
      rw [List.map_cons, List.nodup_cons] at h
      by_cases hm : isHeldWith clientMsgId m = true
      · rw [List.eraseP_cons_of_pos hm, List.filterMap_cons_none (by simp [dropHeld, hm])]
        have hother : ∀ m' ∈ rest, dropHeld clientMsgId m' = some m' := by
          intro m' hm'
          have hid : m'.clientMsgId ≠ clientMsgId := by
            rintro rfl
            simp only [isHeldWith, Bool.and_eq_true, beq_iff_eq] at hm
            exact h.1 (List.mem_map.mpr ⟨m', hm', hm.1.symm⟩)
          simp [dropHeld, isHeldWith, hid]
        rw [List.filterMap_congr hother, List.filterMap_some]
      · have hkept : dropHeld clientMsgId m = some m := by
          simp only [dropHeld, if_neg hm]
        rw [List.eraseP_cons_of_neg hm, ih h.2, List.filterMap_cons_some hkept]

theorem cancelAllOutstanding_eq (p : Pending Content) :
    p.cancelAllOutstanding =
      { p with queue := p.queue.filterMap fun m ↦ some (cancelOutstanding m) } := by
  simp only [Pending.cancelAllOutstanding]
  rw [← List.filterMap_eq_map]
  rfl

theorem mem_of_head {m : PendingMessage Content} (h : p.head = some m) :
    m ∈ p.queue ∧ m.status = .held := by
  have hmem := List.mem_filter.mp (List.argmin_mem h)
  exact ⟨hmem.1, by simpa using hmem.2⟩

theorem head_lt (h : QueueInvariant msgIdPrefix p) {m m' : PendingMessage Content}
    (hm : p.head = some m) (hm' : m' ∈ p.queue) (hheld : m'.status = .held) (hne : m' ≠ m) :
    m.enqueueOrdinal < m'.enqueueOrdinal := by
  have hfilter : m' ∈ p.queue.filter fun m ↦ m.status = .held :=
    List.mem_filter.mpr ⟨hm', by simpa using hheld⟩
  have hle := List.le_of_mem_argmin hfilter hm
  refine lt_of_le_of_ne hle fun heq ↦ hne ?_
  exact h.eq_of_ordinal hm' (mem_of_head hm).1 heq.symm

end Queue

namespace ConversationSession

variable (c : ConversationSession Content)

/-- What a step other than a send makes of an entry of the queue. -/
def entryUpdate (a : SessionAction Content) :
    PendingMessage Content → Option (PendingMessage Content) :=
  match a with
  | .writeStatus =>
      match c.flush with
      | some ⟨_, .returned clientMsgId isOk⟩ =>
          restatus clientMsgId (if isOk then .sent else .error)
      | _ => some
  | .cancelHeld clientMsgId => dropHeld clientMsgId
  | .cancelAllOutstanding => fun m ↦ some (cancelOutstanding m)
  | .drainPendingOn clientMsgId => restatus clientMsgId .accepted
  | _ => some

theorem entrywise_entryUpdate (a : SessionAction Content) : Entrywise (c.entryUpdate a) := by
  cases a with
  | writeStatus =>
      simp only [entryUpdate]
      split
      · apply entrywise_restatus
        split <;> simp
      · exact entrywise_some
  | cancelHeld clientMsgId => exact entrywise_dropHeld clientMsgId
  | cancelAllOutstanding => exact entrywise_cancelOutstanding
  | drainPendingOn clientMsgId => exact entrywise_restatus clientMsgId (by simp)
  | _ => exact entrywise_some

@[simp] theorem pending_release (fromRisingEdge : Bool) :
    (c.release fromRisingEdge).pending = c.pending := rfl

theorem pending_flush (acceptsProactiveInput : Bool) {a : SessionAction Content}
    (h : a = .select ∨ a = .startTurn ∨ a = .nextSnapshot ∨ (∃ isOk, a = .dispatchReturns isOk) ∨
      ∃ fromRisingEdge, a = .acquire fromRisingEdge) :
    (c.step acceptsProactiveInput a).pending = c.pending := by
  rcases h with rfl | rfl | rfl | ⟨isOk, rfl⟩ | ⟨fromRisingEdge, rfl⟩
  · rcases c.select_cases with ⟨_, _, -, -, h⟩ | ⟨_, -, -, h⟩ | ⟨-, h⟩ <;> simp [step, h]
  · rcases c.startTurn_cases with ⟨_, _, _, -, h⟩ | h <;> simp [step, h]
  · rcases c.nextSnapshot_cases with ⟨_, -, -, -, h⟩ | ⟨_, -, -, h⟩ | h <;> simp [step, h]
  · rcases c.dispatchReturns_cases isOk with ⟨_, _, _, -, h⟩ | ⟨_, _, _, -, h⟩ | h <;>
      simp [step, h]
  · rcases c.acquire_cases fromRisingEdge with ⟨-, -, -, h⟩ | ⟨-, -, -, h⟩ | h <;>
      simp [step, h, stopWaiting]

variable {c}

theorem pending_step (h : QueueInvariant c.msgIdPrefix c.pending) (acceptsProactiveInput : Bool)
    {a : SessionAction Content} (ha : ∀ content, a ≠ .send content) :
    (c.step acceptsProactiveInput a).pending =
      { c.pending with queue := c.pending.queue.filterMap (c.entryUpdate a) } := by
  have hsame : c.pending = { c.pending with queue := c.pending.queue.filterMap some } := by
    rw [List.filterMap_some]
  cases a with
  | send content => exact (ha content rfl).elim
  | acquire fromRisingEdge => exact (c.pending_flush acceptsProactiveInput (by simp)).trans hsame
  | select => exact (c.pending_flush acceptsProactiveInput (by simp)).trans hsame
  | startTurn => exact (c.pending_flush acceptsProactiveInput (by simp)).trans hsame
  | dispatchReturns isOk => exact (c.pending_flush acceptsProactiveInput (by simp)).trans hsame
  | nextSnapshot => exact (c.pending_flush acceptsProactiveInput (by simp)).trans hsame
  | loop a => exact hsame
  | writeStatus =>
      rcases hflush : c.flush with _ | ⟨fromRisingEdge, _ | _ | _ | ⟨clientMsgId, isOk⟩⟩ <;>
        simp only [step, writeStatus, entryUpdate, hflush]
      case some.returned =>
        simp only [pending_release, Pending.markStatus]
        rw [setStatus_eq_filterMap _ _ h.nodup_ids]
      all_goals exact hsame
  | cancelHeld clientMsgId =>
      simp only [step, Pending.cancelHeld, entryUpdate]
      rw [eraseP_eq_filterMap _ h.nodup_ids]
  | cancelAllOutstanding => exact cancelAllOutstanding_eq c.pending
  | drainPendingOn clientMsgId =>
      simp only [step, Pending.drain, Pending.markStatus, entryUpdate]
      rw [setStatus_eq_filterMap _ _ h.nodup_ids]

theorem queueInvariant_step (h : QueueInvariant c.msgIdPrefix c.pending)
    (acceptsProactiveInput : Bool) (a : SessionAction Content) :
    QueueInvariant (c.step acceptsProactiveInput a).msgIdPrefix
      (c.step acceptsProactiveInput a).pending := by
  rw [(c.ids_step acceptsProactiveInput a).2]
  by_cases hsend : ∃ content, a = .send content
  · obtain ⟨content, rfl⟩ := hsend
    exact queueInvariant_enqueue h content
  · rw [pending_step h acceptsProactiveInput fun content heq ↦ hsend ⟨content, heq⟩]
    exact queueInvariant_filterMap h (c.entrywise_entryUpdate a)

theorem held_of_step (h : QueueInvariant c.msgIdPrefix c.pending) (acceptsProactiveInput : Bool)
    {a : SessionAction Content} (ha : ∀ content, a ≠ .send content) {m : PendingMessage Content}
    (hm : m ∈ (c.step acceptsProactiveInput a).pending.queue) (hheld : m.status = .held) :
    m ∈ c.pending.queue := by
  rw [pending_step h acceptsProactiveInput ha] at hm
  obtain ⟨m₀, hm₀, hupdate⟩ := List.mem_filterMap.mp hm
  rw [(c.entrywise_entryUpdate a m₀ m hupdate).2.2 hheld]
  exact hm₀

theorem held_of_writeStatus (h : QueueInvariant c.msgIdPrefix c.pending)
    {m : PendingMessage Content} (hm : m ∈ c.writeStatus.pending.queue)
    (hheld : m.status = .held) {fromRisingEdge isOk : Bool} {clientMsgId : String}
    (hflush : c.flush = some ⟨fromRisingEdge, .returned clientMsgId isOk⟩) :
    m.clientMsgId ≠ clientMsgId := by
  have hpending := congrArg Pending.queue (pending_step (a := .writeStatus) h true (by simp))
  simp only [entryUpdate, hflush] at hpending
  have hm' : m ∈ (c.step true .writeStatus).pending.queue := hm
  rw [hpending] at hm'
  obtain ⟨m₀, -, hupdate⟩ := List.mem_filterMap.mp hm'
  exact restatus_held (by split <;> simp) hupdate hheld

end ConversationSession

end Zaowutai.Session
