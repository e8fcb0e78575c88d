import Zaowutai.Lib.Run
import Zaowutai.Agent.TaskManager

/-!
# Leaked agents

An agent is reachable as long as the slot that its factory fills is still in
the map.  A kill that removes a slot under its factory leaves the agent to
nobody but its caller, and the next call builds a second one.
-/

namespace Zaowutai.Agent

open Zaowutai.Lib

namespace TaskCall

def hasKilled (conversationId : String) : TaskCall → Bool
  | .kill other _ phase => other = conversationId && phase ≠ .entered
  | .clear (.removing rest) => conversationId ∉ rest
  | .clear .done => true
  | .clear .entered | .getOrBuildTask _ _ _ => false

theorem hasKilled_of_isDone {conversationId : String} {call : TaskCall}
    (hkills : call.kills conversationId = true) (hdone : call.isDone = true) :
    call.hasKilled conversationId = true := by
  cases call with
  | getOrBuildTask _ _ _ => cases hkills
  | kill other waits phase => cases phase with
    | done => simpa [hasKilled, kills] using hkills
    | entered | waiting _ => cases hdone
  | clear phase => cases phase with
    | done => rfl
    | entered | removing _ => cases hdone

end TaskCall

namespace WorkerTaskManager

variable (s : WorkerTaskManager)

def Reachable : Prop :=
  ∀ agent x, s.agents.lookup agent = some x → x.killed = false →
    ∃ slot capabilities, s.tasks.lookup x.conversationId = some slot ∧
      s.cell slot = .ready agent capabilities

def NotAskedSince (conversationId : String) (startedAt : ℕ) : Prop :=
  ∀ asked, s.asked.lookup conversationId = some asked → asked < startedAt

structure Sound : Prop where
  unique : ∀ first second x y, s.agents.lookup first = some x → s.agents.lookup second = some y →
    x.killed = false → y.killed = false → x.conversationId = y.conversationId → first = second
  reachable : s.Reachable
  stopped : ∀ get kill built killing conversationId agent, s.calls.lookup get = some built →
    s.calls.lookup kill = some killing → built.startedAt < killing.startedAt →
      built.call.gets conversationId = true → killing.call.kills conversationId = true →
        built.call.isDone = true → killing.call.isDone = true →
          s.NotAskedSince conversationId killing.startedAt →
            s.agents.lookup get = some agent → agent.conversationId = conversationId →
              agent.killed = true

def killedSince (conversationId : String) (startedAt : ℕ) : Bool :=
  s.calls.entries.any fun entry ↦
    entry.2.call.kills conversationId && startedAt ≤ entry.2.startedAt &&
      (s.asked.lookup conversationId).all (· < entry.2.startedAt)

def isInPlace (ok : Bool) (started : StartedCall) : Bool :=
  match started.call with
  | .getOrBuildTask conversationId _ .inserting =>
      !s.killedSince conversationId started.startedAt
  | .getOrBuildTask conversationId _ (.building slot) =>
      !ok || s.tasks.lookup conversationId = some slot
  | .getOrBuildTask _ _ _ | .kill _ _ _ | .clear _ => true

def InPlace : TaskAction → Prop
  | .advance call ok => (s.calls.lookup call).all (s.isInPlace ok) = true
  | .start _ _ | .reorder _ => True

structure Kept : Prop where
  reachable : s.Reachable
  built : ∀ call started conversationId capabilities slot, s.calls.lookup call = some started →
    started.call = .getOrBuildTask conversationId capabilities (.building slot) →
      s.cell slot = .building call
  gone : ∀ call started conversationId, s.calls.lookup call = some started →
    started.call.hasKilled conversationId = true →
      s.NotAskedSince conversationId started.startedAt → s.tasks.lookup conversationId = none
  clock : ∀ call started, s.calls.lookup call = some started → started.startedAt < s.clock
  asked : ∀ call started conversationId, s.calls.lookup call = some started →
    started.call.gets conversationId = true →
      ∃ asked, s.asked.lookup conversationId = some asked ∧ started.startedAt ≤ asked

variable {s}

theorem Reachable.unique (h : s.Reachable) {first second : ℕ} {x y : AgentInstance}
    (hfirst : s.agents.lookup first = some x) (hsecond : s.agents.lookup second = some y)
    (hx : x.killed = false) (hy : y.killed = false)
    (hsame : x.conversationId = y.conversationId) : first = second := by
  obtain ⟨slot, capabilities, hslot, hcell⟩ := h first x hfirst hx
  obtain ⟨slot', capabilities', hslot', hcell'⟩ := h second y hsecond hy
  obtain rfl : slot = slot' := Option.some.inj (hslot.symm.trans (hsame ▸ hslot'))
  cases hcell.symm.trans hcell'
  rfl

theorem Kept.sound (h : s.Kept) : s.Sound := by
  refine ⟨fun _ _ _ _ ↦ h.reachable.unique, h.reachable, ?_⟩
  intro get kill built killing conversationId agent _ hkill _ _ hkills _ hdone hasked hagent hconv
  by_contra halive
  obtain ⟨slot, capabilities, hslot, -⟩ :=
    h.reachable get agent hagent (Bool.eq_false_iff.mpr halive)
  have hgone := h.gone kill killing conversationId hkill
    (TaskCall.hasKilled_of_isDone hkills hdone) hasked
  rw [hconv, hgone] at hslot
  cases hslot

section Effects

@[simp] theorem cell_setCell (slot other : ℕ) (cell : TaskSlot) :
    (s.setCell slot cell).cell other = if other = slot then cell else s.cell other := by
  simp only [WorkerTaskManager.cell, setCell, Table.lookup_insert_eq]
  split <;> rfl

theorem lookup_killAgent {agent other : ℕ} {x : AgentInstance}
    (h : (s.killAgent agent).agents.lookup other = some x) (halive : x.killed = false) :
    s.agents.lookup other = some x ∧ other ≠ agent := by
  simp only [killAgent, Table.lookup_modify] at h
  split at h
  · obtain ⟨before, -, rfl⟩ := Option.map_eq_some_iff.mp h
    cases halive
  · next hne => exact ⟨h, hne⟩

theorem Reachable.killAgent (h : s.Reachable) (agent : ℕ) : (s.killAgent agent).Reachable :=
  fun other x hx halive ↦ h other x (lookup_killAgent hx halive).1 halive

theorem removeTask_cases (conversationId : String) :
    s.tasks.lookup conversationId = none ∧ s.removeTask conversationId = s ∨
      ∃ slot, s.tasks.lookup conversationId = some slot ∧
        ((∃ agent capabilities, s.cell slot = .ready agent capabilities ∧
            s.removeTask conversationId =
              { s with tasks := s.tasks.erase conversationId }.killAgent agent) ∨
          (∀ agent capabilities, s.cell slot ≠ .ready agent capabilities) ∧
            s.removeTask conversationId = { s with tasks := s.tasks.erase conversationId }) := by
  simp only [removeTask]
  split
  · next hnone => exact .inl ⟨hnone, rfl⟩
  · next slot hslot =>
      refine .inr ⟨slot, hslot, ?_⟩
      split
      · next agent capabilities hcell => exact .inl ⟨agent, capabilities, hcell, rfl⟩
      · next hcell => exact .inr ⟨fun _ _ h ↦ (by cases hcell.symm.trans h), rfl⟩
      · next hcell => exact .inr ⟨fun _ _ h ↦ (by cases hcell.symm.trans h), rfl⟩

theorem lookup_removeTask (conversationId other : String) :
    (s.removeTask conversationId).tasks.lookup other =
      if other = conversationId then none else s.tasks.lookup other := by
  rcases s.removeTask_cases conversationId with
    ⟨hnone, heq⟩ | ⟨_, -, ⟨_, _, -, heq⟩ | ⟨-, heq⟩⟩ <;> rw [heq]
  · split
    · next hsame => rw [hsame, hnone]
    · rfl
  · exact Table.lookup_erase_eq
  · exact Table.lookup_erase_eq

theorem removeTask_frame (conversationId : String) :
    (s.removeTask conversationId).slots = s.slots ∧
      (s.removeTask conversationId).asked = s.asked ∧
        (s.removeTask conversationId).clock = s.clock := by
  rcases s.removeTask_cases conversationId with
    ⟨-, heq⟩ | ⟨_, -, ⟨_, _, -, heq⟩ | ⟨-, heq⟩⟩ <;> rw [heq] <;> exact ⟨rfl, rfl, rfl⟩

theorem cell_removeTask (conversationId : String) (slot : ℕ) :
    (s.removeTask conversationId).cell slot = s.cell slot := by
  rw [WorkerTaskManager.cell, WorkerTaskManager.cell, (s.removeTask_frame conversationId).1]

theorem Reachable.removeTask (h : s.Reachable) (conversationId : String) :
    (s.removeTask conversationId).Reachable := by
  intro agent x hx halive
  have hbefore : s.agents.lookup agent = some x ∧ x.conversationId ≠ conversationId := by
    rcases s.removeTask_cases conversationId with
      ⟨hnone, heq⟩ | ⟨slot, hslot, ⟨killed, capabilities, hcell, heq⟩ | ⟨hidle, heq⟩⟩ <;>
      rw [heq] at hx
    · obtain ⟨slot, -, hmapped, -⟩ := h agent x hx halive
      refine ⟨hx, ?_⟩
      rintro rfl
      cases hnone.symm.trans hmapped
    · obtain ⟨hx, hne⟩ := lookup_killAgent hx halive
      refine ⟨hx, ?_⟩
      rintro rfl
      obtain ⟨slot', _, hmapped, hready⟩ := h agent x hx halive
      obtain rfl : slot = slot' := Option.some.inj (hslot.symm.trans hmapped)
      cases hcell.symm.trans hready
      exact hne rfl
    · refine ⟨hx, ?_⟩
      rintro rfl
      obtain ⟨slot', _, hmapped, hready⟩ := h agent x hx halive
      obtain rfl : slot = slot' := Option.some.inj (hslot.symm.trans hmapped)
      exact hidle _ _ hready
  obtain ⟨slot, capabilities, hslot, hcell⟩ := h agent x hbefore.1 halive
  refine ⟨slot, capabilities, ?_, ?_⟩
  · rw [lookup_removeTask, if_neg hbefore.2, hslot]
  · rw [cell_removeTask, hcell]

end Effects

section Steps

variable {call : ℕ} {started : StartedCall} {t : WorkerTaskManager} {next : TaskCall}

theorem hasKilled_kills {conversationId : String} {c : TaskCall}
    (h : c.hasKilled conversationId = true) : c.kills conversationId = true := by
  cases c with
  | getOrBuildTask _ _ _ => cases h
  | kill other waits phase => exact (Bool.and_eq_true_iff.mp h).1
  | clear phase => rfl

theorem Kept.progress (h : s.Kept) (hcall : s.calls.lookup call = some started)
    (hreachable : t.Reachable) (hasked : t.asked = s.asked) (hclock : t.clock = s.clock)
    (hgets : ∀ conversationId, next.gets conversationId = started.call.gets conversationId)
    (hcells : ∀ slot other, other ≠ call → s.cell slot = .building other →
      t.cell slot = .building other)
    (hbuilt : ∀ conversationId capabilities slot,
      next = .getOrBuildTask conversationId capabilities (.building slot) →
        t.cell slot = .building call)
    (hgone : ∀ other killing conversationId, s.calls.lookup other = some killing →
      killing.call.hasKilled conversationId = true →
        s.NotAskedSince conversationId killing.startedAt → t.tasks.lookup conversationId = none)
    (hkilled : ∀ conversationId, next.hasKilled conversationId = true →
      started.call.hasKilled conversationId = true ∨ t.tasks.lookup conversationId = none) :
    Kept { t with calls := s.calls.insert call ⟨started.startedAt, next⟩ } := by
  refine ⟨hreachable, ?_, ?_, ?_, ?_⟩
  · intro other other' conversationId capabilities slot hother hbuilding
    rw [Table.lookup_insert_eq] at hother
    split at hother
    · next heq =>
        cases hother
        exact heq ▸ hbuilt conversationId capabilities slot hbuilding
    · next hne =>
        exact hcells slot other hne
          (h.built other other' conversationId capabilities slot hother hbuilding)
  · intro other other' conversationId hother hother' hnotAsked
    have hnotAsked : s.NotAskedSince conversationId other'.startedAt := by
      intro asked hlookup
      exact hnotAsked asked (hasked ▸ hlookup)
    rw [Table.lookup_insert_eq] at hother
    split at hother
    · cases hother
      rcases hkilled conversationId hother' with hbefore | hnone
      · exact hgone call started conversationId hcall hbefore hnotAsked
      · exact hnone
    · exact hgone other other' conversationId hother hother' hnotAsked
  · intro other other' hother
    rw [Table.lookup_insert_eq] at hother
    rw [hclock]
    split at hother
    · cases hother
      exact h.clock call started hcall
    · exact h.clock other other' hother
  · intro other other' conversationId hother hother'
    rw [Table.lookup_insert_eq] at hother
    rw [hasked]
    split at hother
    · cases hother
      exact h.asked call started conversationId hcall (hgets conversationId ▸ hother')
    · exact h.asked other other' conversationId hother hother'

theorem removeTask_gone {conversationId : String} (other : String)
    (h : s.tasks.lookup conversationId = none) :
    (s.removeTask other).tasks.lookup conversationId = none := by
  rw [lookup_removeTask, h, ite_self]

theorem Kept.quiet (h : s.Kept) (hcall : s.calls.lookup call = some started)
    (hreachable : t.Reachable) (htasks : t.tasks = s.tasks) (hslots : t.slots = s.slots)
    (hasked : t.asked = s.asked) (hclock : t.clock = s.clock)
    (hgets : ∀ conversationId, next.gets conversationId = started.call.gets conversationId)
    (hbuilt : ∀ conversationId capabilities slot,
      next ≠ .getOrBuildTask conversationId capabilities (.building slot))
    (hkilled : ∀ conversationId, next.hasKilled conversationId = true →
      started.call.hasKilled conversationId = true ∨ s.tasks.lookup conversationId = none) :
    Kept { t with calls := s.calls.insert call ⟨started.startedAt, next⟩ } := by
  refine h.progress hcall hreachable hasked hclock hgets ?_
    (fun conversationId capabilities slot hnext ↦ absurd hnext (hbuilt _ _ _)) ?_ ?_
  · intro slot other _ hcell
    rwa [cell, hslots]
  · intro other killing conversationId hother hdone hnotAsked
    rw [htasks]
    exact h.gone other killing conversationId hother hdone hnotAsked
  · intro conversationId hdone
    rw [htasks]
    exact hkilled conversationId hdone

theorem Kept.removeTask (h : s.Kept) (hcall : s.calls.lookup call = some started)
    (removed : String)
    (hgets : ∀ conversationId, next.gets conversationId = started.call.gets conversationId)
    (hbuilt : ∀ conversationId capabilities slot,
      next ≠ .getOrBuildTask conversationId capabilities (.building slot))
    (hkilled : ∀ conversationId, next.hasKilled conversationId = true →
      started.call.hasKilled conversationId = true ∨ conversationId = removed) :
    Kept { s.removeTask removed with calls := s.calls.insert call ⟨started.startedAt, next⟩ } := by
  obtain ⟨_, hasked, hclock⟩ := s.removeTask_frame removed
  refine h.progress hcall (h.reachable.removeTask removed) hasked hclock hgets
    (fun slot other _ hcell ↦ (cell_removeTask removed slot).trans hcell)
    (fun conversationId capabilities slot hnext ↦ absurd hnext (hbuilt _ _ _)) ?_ ?_
  · intro other killing conversationId hother hdone hnotAsked
    exact removeTask_gone removed (h.gone other killing conversationId hother hdone hnotAsked)
  · intro conversationId hdone
    rcases hkilled conversationId hdone with hbefore | hsame
    · exact .inl hbefore
    · right
      rw [lookup_removeTask, if_pos hsame]

variable {startedAt : ℕ} {conversationId : String}

theorem Kept.advanceKill (h : s.Kept) {waits : Bool} {phase : KillPhase}
    (hcall : s.calls.lookup call = some ⟨startedAt, .kill conversationId waits phase⟩) :
    Kept { (s.advanceKill conversationId waits phase).1 with
      calls := s.calls.insert call
        ⟨startedAt, .kill conversationId waits (s.advanceKill conversationId waits phase).2⟩ } := by
  have hwaited : ∀ slot, phase = .waiting slot → ∀ other next,
      (TaskCall.kill conversationId waits next).hasKilled other = true →
        (TaskCall.kill conversationId waits phase).hasKilled other = true := by
    rintro slot rfl other next hdone
    exact Bool.and_eq_true_iff.mpr ⟨(Bool.and_eq_true_iff.mp hdone).1, rfl⟩
  cases phase with
  | entered =>
      have heq : (s.advanceKill conversationId waits .entered).1 = s.removeTask conversationId := by
        simp only [WorkerTaskManager.advanceKill]
        split
        · next hnone => rw [WorkerTaskManager.removeTask, hnone]
        · rfl
      rw [heq]
      refine h.removeTask hcall conversationId (fun _ ↦ rfl) (fun _ _ _ hnext ↦ by cases hnext) ?_
      intro other hdone
      right
      exact (of_decide_eq_true (Bool.and_eq_true_iff.mp hdone).1).symm
  | waiting slot =>
      simp only [WorkerTaskManager.advanceKill]
      split
      · next agent _ _ =>
          exact h.quiet hcall (h.reachable.killAgent agent) rfl rfl rfl rfl (fun _ ↦ rfl)
            (fun _ _ _ hnext ↦ by cases hnext) fun other hdone ↦ .inl (hwaited slot rfl other _ hdone)
      · exact h.quiet hcall h.reachable rfl rfl rfl rfl (fun _ ↦ rfl)
          (fun _ _ _ hnext ↦ by cases hnext) fun _ hdone ↦ .inl hdone
      · exact h.quiet hcall h.reachable rfl rfl rfl rfl (fun _ ↦ rfl)
          (fun _ _ _ hnext ↦ by cases hnext) fun other hdone ↦ .inl (hwaited slot rfl other _ hdone)
  | done =>
      exact h.quiet hcall h.reachable rfl rfl rfl rfl (fun _ ↦ rfl)
        (fun _ _ _ hnext ↦ by cases hnext) fun _ hdone ↦ .inl hdone

theorem Kept.advanceClear (h : s.Kept) {phase : ClearPhase}
    (hcall : s.calls.lookup call = some ⟨startedAt, .clear phase⟩) :
    Kept { (s.advanceClear phase).1 with
      calls := s.calls.insert call ⟨startedAt, .clear (s.advanceClear phase).2⟩ } := by
  cases phase with
  | entered =>
      refine h.quiet hcall h.reachable rfl rfl rfl rfl (fun _ ↦ rfl)
        (fun _ _ _ hnext ↦ by cases hnext) fun other hdone ↦ .inr ?_
      have hnot : other ∉ s.tasks.keys := of_decide_eq_true hdone
      exact AList.lookup_eq_none.mpr hnot
  | removing rest => cases rest with
    | nil =>
        exact h.quiet hcall h.reachable rfl rfl rfl rfl (fun _ ↦ rfl)
          (fun _ _ _ hnext ↦ by cases hnext) fun _ _ ↦ .inl rfl
    | cons removed rest =>
        refine h.removeTask hcall removed (fun _ ↦ rfl) (fun _ _ _ hnext ↦ by cases hnext) ?_
        intro other hdone
        by_cases hsame : other = removed
        · exact .inr hsame
        · left
          have hrest : other ∉ rest := of_decide_eq_true hdone
          exact decide_eq_true (by simp [hsame, hrest])
  | done =>
      exact h.quiet hcall h.reachable rfl rfl rfl rfl (fun _ ↦ rfl)
        (fun _ _ _ hnext ↦ by cases hnext) fun _ hdone ↦ .inl hdone

theorem killedSince_eq_true {conversationId : String} {startedAt : ℕ} {other : ℕ}
    {killing : StartedCall} (hother : s.calls.lookup other = some killing)
    (hkills : killing.call.kills conversationId = true) (hle : startedAt ≤ killing.startedAt)
    (hasked : s.NotAskedSince conversationId killing.startedAt) :
    s.killedSince conversationId startedAt = true := by
  refine List.any_eq_true.mpr ⟨⟨other, killing⟩, Table.mem_entries_iff.mpr hother, ?_⟩
  simp only [Bool.and_eq_true, decide_eq_true_eq]
  refine ⟨⟨hkills, hle⟩, ?_⟩
  rw [Option.all_eq_true]
  intro asked hlookup
  exact decide_eq_true (hasked asked hlookup)

theorem Reachable.setCell (h : s.Reachable) {slot : ℕ}
    (hidle : ∀ agent capabilities, s.cell slot ≠ .ready agent capabilities) (cell : TaskSlot) :
    (s.setCell slot cell).Reachable := by
  intro agent x hx halive
  obtain ⟨slot', capabilities, hslot, hcell⟩ := h agent x hx halive
  have hne : slot' ≠ slot := by
    rintro rfl
    exact hidle _ _ hcell
  exact ⟨slot', capabilities, hslot, by rw [cell_setCell, if_neg hne, hcell]⟩

theorem Kept.building_setCell (h : s.Kept) {slot : ℕ}
    (hcall : s.calls.lookup call = some started) {capabilities : RuntimeCapabilities}
    (hbuilding : started.call = .getOrBuildTask conversationId capabilities (.building slot))
    (cell : TaskSlot) (slot' other : ℕ) (hne : other ≠ call)
    (hcell : s.cell slot' = .building other) :
    (s.setCell slot cell).cell slot' = .building other := by
  have hslot : slot' ≠ slot := by
    rintro rfl
    cases hcell.symm.trans (h.built call started conversationId capabilities slot' hcall hbuilding)
    exact hne rfl
  rw [cell_setCell, if_neg hslot, hcell]

theorem Kept.advanceGet (h : s.Kept) {capabilities : RuntimeCapabilities} {phase : GetPhase}
    (ok : Bool)
    (hcall : s.calls.lookup call =
      some ⟨startedAt, .getOrBuildTask conversationId capabilities phase⟩)
    (hplace : s.isInPlace ok ⟨startedAt, .getOrBuildTask conversationId capabilities phase⟩ = true) :
    Kept { (s.advanceGet call conversationId capabilities ok phase).1 with
      calls := s.calls.insert call ⟨startedAt, .getOrBuildTask conversationId capabilities
        (s.advanceGet call conversationId capabilities ok phase).2⟩ } := by
  cases phase with
  | entered =>
      refine h.quiet hcall h.reachable rfl rfl rfl rfl (fun _ ↦ rfl) ?_ fun _ hdone ↦ .inl hdone
      intro _ _ slot hnext
      simp only [WorkerTaskManager.advanceGet] at hnext
      split at hnext <;> cases hnext
  | rebuilding =>
      refine h.removeTask hcall conversationId (fun _ ↦ rfl) ?_ fun _ hdone ↦ .inl hdone
      intro _ _ slot hnext
      simp only [WorkerTaskManager.advanceGet] at hnext
      split at hnext <;> cases hnext
  | inserting =>
      simp only [WorkerTaskManager.advanceGet]
      cases hslot : s.tasks.lookup conversationId with
      | some slot =>
          exact h.quiet hcall h.reachable rfl rfl rfl rfl (fun _ ↦ rfl)
            (fun _ _ _ hnext ↦ by cases hnext) fun _ hdone ↦ .inl hdone
      | none =>
          have hkept : ∀ other, other ≠ conversationId →
              (s.tasks.insert conversationId s.nextSlot).lookup other = s.tasks.lookup other :=
            fun other hne ↦ AList.lookup_insert_ne hne
          refine h.progress hcall ?_ rfl rfl (fun _ ↦ rfl) (fun _ _ _ hcell ↦ hcell)
            (fun _ _ _ hnext ↦ by cases hnext) ?_ fun _ hdone ↦ .inl hdone
          · intro agent x hx halive
            obtain ⟨slot, capabilities, hmapped, hcell⟩ := h.reachable agent x hx halive
            have hne : x.conversationId ≠ conversationId := by
              rintro heq
              rw [heq, hslot] at hmapped
              cases hmapped
            exact ⟨slot, capabilities, (hkept _ hne).trans hmapped, hcell⟩
          · intro other killing gone hother hdone hnotAsked
            have hne : gone ≠ conversationId := by
              rintro rfl
              obtain ⟨asked, hasked, hle⟩ := h.asked call _ gone hcall (decide_eq_true rfl)
              have hsince : s.killedSince gone startedAt = true :=
                killedSince_eq_true hother (hasKilled_kills hdone)
                  (hle.trans (hnotAsked asked hasked).le) hnotAsked
              have hfree : (!s.killedSince gone startedAt) = true := hplace
              rw [hsince] at hfree
              cases hfree
            exact (hkept _ hne).trans (h.gone other killing gone hother hdone hnotAsked)
  | waiting slot =>
      simp only [WorkerTaskManager.advanceGet]
      split
      · exact h.quiet hcall h.reachable rfl rfl rfl rfl (fun _ ↦ rfl)
          (fun _ _ _ hnext ↦ by cases hnext) fun _ hdone ↦ .inl hdone
      · exact h.quiet hcall h.reachable rfl rfl rfl rfl (fun _ ↦ rfl)
          (fun _ _ _ hnext ↦ by cases hnext) fun _ hdone ↦ .inl hdone
      · next hempty =>
          have hidle : ∀ agent capabilities, s.cell slot ≠ .ready agent capabilities :=
            fun _ _ hready ↦ by cases hempty.symm.trans hready
          refine h.progress hcall (h.reachable.setCell hidle _) rfl rfl (fun _ ↦ rfl) ?_ ?_ h.gone
            fun _ hdone ↦ .inl hdone
          · intro slot' other _ hcell
            have hne : slot' ≠ slot := by
              rintro rfl
              cases hempty.symm.trans hcell
            rw [cell_setCell, if_neg hne, hcell]
          · intro _ _ slot' hnext
            cases hnext
            rw [cell_setCell, if_pos rfl]
  | building slot =>
      have hbuilding := h.built call _ conversationId capabilities slot hcall rfl
      have hidle : ∀ agent capabilities, s.cell slot ≠ .ready agent capabilities :=
        fun _ _ hready ↦ by cases hbuilding.symm.trans hready
      cases ok with
      | false =>
          exact h.progress hcall (h.reachable.setCell hidle _) rfl rfl (fun _ ↦ rfl)
            (h.building_setCell hcall rfl .empty) (fun _ _ _ hnext ↦ by cases hnext) h.gone
            fun _ hdone ↦ .inl hdone
      | true =>
          have hmapped : s.tasks.lookup conversationId = some slot := of_decide_eq_true hplace
          refine h.progress hcall ?_ rfl rfl (fun _ ↦ rfl) (h.building_setCell hcall rfl _)
            (fun _ _ _ hnext ↦ by cases hnext) h.gone fun _ hdone ↦ .inl hdone
          intro agent x hx halive
          have hlookup : (s.agents.insert call ⟨conversationId, false⟩).lookup agent = some x := hx
          rw [Table.lookup_insert_eq] at hlookup
          split at hlookup
          · next heq =>
              cases hlookup
              refine ⟨slot, capabilities, hmapped, ?_⟩
              have hcell : (s.setCell slot (.ready call capabilities)).cell slot =
                  .ready call capabilities := by rw [cell_setCell, if_pos rfl]
              rw [heq]
              exact hcell
          · exact h.reachable.setCell hidle _ agent x hlookup halive
  | returned agent =>
      exact h.quiet hcall h.reachable rfl rfl rfl rfl (fun _ ↦ rfl)
        (fun _ _ _ hnext ↦ by cases hnext) fun _ hdone ↦ .inl hdone

theorem Kept.advance (h : s.Kept) (ok : Bool) (hcall : s.calls.lookup call = some started)
    (hplace : s.isInPlace ok started = true) :
    Kept { (s.advance call ok started.call).1 with
      calls := s.calls.insert call ⟨started.startedAt, (s.advance call ok started.call).2⟩ } := by
  obtain ⟨startedAt, under⟩ := started
  cases under with
  | getOrBuildTask conversationId capabilities phase => exact h.advanceGet ok hcall hplace
  | kill conversationId waits phase => exact h.advanceKill hcall
  | clear phase => exact h.advanceClear hcall

end Steps

theorem kept_new : new.Kept :=
  ⟨fun _ _ h ↦ (by cases h), fun _ _ _ _ _ h ↦ (by cases h), fun _ _ _ h ↦ (by cases h),
    fun _ _ h ↦ (by cases h), fun _ _ _ h ↦ (by cases h)⟩

theorem not_hasKilled_of_isEntered {conversationId : String} {request : TaskCall}
    (h : request.isEntered = true) : request.hasKilled conversationId = false := by
  cases request with
  | getOrBuildTask _ _ _ => rfl
  | kill _ _ phase =>
      have hphase : phase = .entered := of_decide_eq_true h
      simp [TaskCall.hasKilled, hphase]
  | clear phase =>
      obtain rfl : phase = .entered := of_decide_eq_true h
      rfl

theorem asked_start (call : ℕ) (request : TaskCall) (conversationId : String) :
    (s.start call request).asked.lookup conversationId =
      if request.gets conversationId = true then some s.clock else s.asked.lookup conversationId := by
  cases request with
  | getOrBuildTask other capabilities phase =>
      have hinsert : (s.start call (.getOrBuildTask other capabilities phase)).asked =
        s.asked.insert other s.clock := rfl
      simp [hinsert, Table.lookup_insert_eq, TaskCall.gets, eq_comm]
  | kill _ _ _ | clear _ => rfl

theorem lookup_start {call other : ℕ} {request : TaskCall} {x : StartedCall}
    (h : (s.start call request).calls.lookup other = some x) :
    x = ⟨s.clock, request⟩ ∨ s.calls.lookup other = some x := by
  have hinsert : (s.calls.insert call ⟨s.clock, request⟩).lookup other = some x := h
  rw [Table.lookup_insert_eq] at hinsert
  split at hinsert
  · exact .inl (Option.some.inj hinsert).symm
  · exact .inr hinsert

theorem Kept.start (h : s.Kept) {call : ℕ} {request : TaskCall} (hentered : request.isEntered = true) :
    (s.start call request).Kept := by
  refine ⟨h.reachable, ?_, ?_, ?_, ?_⟩
  · intro other x conversationId capabilities slot hx hbuilding
    rcases lookup_start hx with rfl | hx
    · cases (show request = _ from hbuilding)
      cases hentered
    · exact h.built other x conversationId capabilities slot hx hbuilding
  · intro other x conversationId hx hdone hnotAsked
    rcases lookup_start hx with rfl | hx
    · cases (not_hasKilled_of_isEntered hentered).symm.trans hdone
    · refine h.gone other x conversationId hx hdone fun asked hasked ↦ ?_
      by_cases hgets : request.gets conversationId = true
      · have hlate := hnotAsked s.clock (by rw [asked_start, if_pos hgets])
        exact absurd hlate (h.clock other x hx).asymm
      · exact hnotAsked asked (by rw [asked_start, if_neg hgets, hasked])
  · intro other x hx
    rcases lookup_start hx with rfl | hx
    · exact Nat.lt_succ_self _
    · exact (h.clock other x hx).trans (Nat.lt_succ_self _)
  · intro other x conversationId hx hgets
    rw [asked_start]
    rcases lookup_start hx with rfl | hx
    · exact ⟨s.clock, if_pos hgets, le_rfl⟩
    · split
      · exact ⟨s.clock, rfl, (h.clock other x hx).le⟩
      · exact h.asked other x conversationId hx hgets

theorem Kept.reorder (h : s.Kept) (rank : String → ℕ) :
    Kept { s with tasks := s.tasks.reorder rank } := by
  refine ⟨?_, h.built, ?_, h.clock, h.asked⟩
  · intro agent x hx halive
    obtain ⟨slot, capabilities, hslot, hcell⟩ := h.reachable agent x hx halive
    exact ⟨slot, capabilities, (Table.lookup_reorder rank).trans hslot, hcell⟩
  · intro call started conversationId hcall hdone hnotAsked
    exact (Table.lookup_reorder rank).trans (h.gone call started conversationId hcall hdone hnotAsked)

theorem Kept.step (h : s.Kept) {a : TaskAction} (hplace : s.InPlace a) : (s.step a).Kept := by
  cases a with
  | start call request =>
      simp only [WorkerTaskManager.step]
      split
      · next hnew => exact h.start (Bool.and_eq_true_iff.mp hnew).2
      · exact h
  | advance call ok =>
      simp only [WorkerTaskManager.step]
      split
      · exact h
      · next started hcall =>
          apply h.advance ok hcall
          rw [InPlace, hcall] at hplace
          exact hplace
  | reorder rank => exact h.reorder rank

/-- No agent is leaked and none is doubled in a run in which every slot is taken before a kill starts
and filled while it is in the map. -/
theorem sound_of_inPlace (as : List TaskAction) (h : Meets step InPlace new as) :
    Throughout step Sound new as :=
  (throughout_of_meets (fun _ _ hkept ↦ hkept.step) kept_new h).mono fun _ ↦ Kept.sound

instance (s : WorkerTaskManager) (a : TaskAction) : Decidable (s.InPlace a) := by
  cases a <;> unfold InPlace <;> infer_instance

def building : List TaskAction :=
  .start 0 (.getOrBuildTask "conversation" ⟨none⟩ .entered) :: List.replicate 3 (.advance 0 true)

/-- The agent is built, killed, and built again. -/
theorem rebuilt_sound :
    Throughout step Sound new
      (building ++ [.advance 0 true, .start 1 (.kill "conversation" false .entered),
        .advance 1 true, .start 2 (.getOrBuildTask "conversation" ⟨some 2⟩ .entered)] ++
        List.replicate 4 (.advance 2 true)) :=
  sound_of_inPlace _ (by decide)

/-- The conversation is killed while the factory builds its agent. -/
theorem killed_build_leaks : ¬∀ as, Throughout step Sound new as := by
  intro h
  have hlast := (h (building ++ [.start 1 (.kill "conversation" false .entered),
    .advance 1 true, .advance 0 true])).last
  obtain ⟨slot, capabilities, hslot, -⟩ := hlast.reachable 0 ⟨"conversation", false⟩ rfl rfl
  cases hslot

end WorkerTaskManager

end Zaowutai.Agent
