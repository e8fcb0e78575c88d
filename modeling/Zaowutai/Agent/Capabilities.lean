import Zaowutai.Agent.AgentLeaks

/-!
# Agents and what was asked of them

A call looks at the capabilities of an agent only when it enters, before it
takes a slot.  Every caller gets an agent that it asked for when the check
still holds where the slot is taken, when nobody who waits for a factory asks
for more than the caller whose options it got, and when an agent is replaced
only while the check of an unfinished call is against it.
-/

namespace Zaowutai.Agent

open Zaowutai.Lib

theorem RuntimeCapabilities.satisfies_refl (capabilities : RuntimeCapabilities) :
    capabilities.satisfies capabilities = true := by
  obtain ⟨version⟩ := capabilities
  cases version with
  | none => rfl
  | some version => simp [satisfies]

namespace GetPhase

def isReturned : GetPhase → Bool
  | .returned _ => true
  | .entered | .rebuilding | .inserting | .waiting _ | .building _ => false

def awaits (slot : ℕ) : GetPhase → Bool
  | .waiting other => other = slot
  | .entered | .rebuilding | .inserting | .building _ | .returned _ => false

end GetPhase

namespace TaskCall

def asks (conversationId : String) : TaskCall → Option RuntimeCapabilities
  | .getOrBuildTask other requested phase =>
      if other = conversationId && !phase.isReturned then some requested else none
  | .kill _ _ _ | .clear _ => none

/-- What the call asks of the agent for whose cell it waits. -/
def awaits (slot : ℕ) : TaskCall → Option RuntimeCapabilities
  | .getOrBuildTask _ requested phase => if phase.awaits slot then some requested else none
  | .kill _ _ _ | .clear _ => none

end TaskCall

namespace WorkerTaskManager

variable (s : WorkerTaskManager)

def Recorded (agent : ℕ) (capabilities : RuntimeCapabilities) : Prop :=
  ∃ slot, s.cell slot = .ready agent capabilities

structure Equipped : Prop where
  recorded : ∀ agent first second, s.Recorded agent first → s.Recorded agent second →
    first = second
  returned : ∀ call startedAt conversationId requested agent,
    s.calls.lookup call =
      some ⟨startedAt, .getOrBuildTask conversationId requested (.returned (some agent))⟩ →
        ∃ capabilities, s.Recorded agent capabilities ∧ capabilities.satisfies requested = true
  waiting : ∀ call started slot requested agent capabilities,
    s.calls.lookup call = some started → started.call.awaits slot = some requested →
      s.cell slot = .ready agent capabilities → capabilities.satisfies requested = true

def Justified : TaskAction → Prop
  | .advance call _ => ∀ startedAt conversationId requested slot agent capabilities,
      s.calls.lookup call = some ⟨startedAt, .getOrBuildTask conversationId requested .rebuilding⟩ →
        s.tasks.lookup conversationId = some slot → s.cell slot = .ready agent capabilities →
          ∃ other asking lacked, s.calls.lookup other = some asking ∧
            asking.call.asks conversationId = some lacked ∧ capabilities.satisfies lacked = false
  | .start _ _ | .reorder _ => True

def hasAgent (conversationId : String) : Bool :=
  (s.tasks.lookup conversationId).any fun slot ↦
    match s.cell slot with
    | .ready _ _ => true
    | .empty | .building _ => false

def isChecked (ok : Bool) (started : StartedCall) : Bool :=
  match started.call with
  | .getOrBuildTask conversationId _ .rebuilding =>
      !s.hasAgent conversationId || s.calls.entries.any fun entry ↦
        (entry.2.call.asks conversationId).any (s.needsRebuild conversationId)
  | .getOrBuildTask conversationId requested .inserting =>
      !s.needsRebuild conversationId requested
  | .getOrBuildTask _ capabilities (.building slot) =>
      !ok || s.calls.entries.all fun entry ↦
        (entry.2.call.awaits slot).all capabilities.satisfies
  | .getOrBuildTask _ _ _ | .kill _ _ _ | .clear _ => true

def Checked : TaskAction → Prop
  | .advance call ok => (s.calls.lookup call).all (s.isChecked ok) = true
  | .start _ _ | .reorder _ => True

/-- How the cells, the map and the calls belong together. -/
structure Wired : Prop where
  built : ∀ call startedAt conversationId capabilities slot,
    s.calls.lookup call =
      some ⟨startedAt, .getOrBuildTask conversationId capabilities (.building slot)⟩ →
        s.cell slot = .building call
  made : ∀ slot agent capabilities, s.cell slot = .ready agent capabilities →
    ∃ startedAt conversationId, s.calls.lookup agent =
      some ⟨startedAt, .getOrBuildTask conversationId capabilities (.returned (some agent))⟩
  fresh : ∀ slot, s.nextSlot ≤ slot → s.cell slot = .empty
  mapped : ∀ conversationId slot, s.tasks.lookup conversationId = some slot → slot < s.nextSlot
  bounded : ∀ call started slot requested, s.calls.lookup call = some started →
    started.call.awaits slot = some requested → slot < s.nextSlot

variable {s} {t : WorkerTaskManager} {call : ℕ} {started : StartedCall} {next : TaskCall}
  {ok : Bool} {startedAt : ℕ} {conversationId : String}

theorem Wired.recorded (h : s.Wired) {agent : ℕ} {first second : RuntimeCapabilities}
    (hfirst : s.Recorded agent first) (hsecond : s.Recorded agent second) : first = second := by
  obtain ⟨slot, hslot⟩ := hfirst
  obtain ⟨slot', hslot'⟩ := hsecond
  obtain ⟨_, _, hlookup⟩ := h.made slot agent first hslot
  obtain ⟨_, _, hlookup'⟩ := h.made slot' agent second hslot'
  cases hlookup.symm.trans hlookup'
  rfl

theorem lookup_advanced {other : ℕ} {x : StartedCall}
    (hcalls : t.calls = s.calls.insert call ⟨startedAt, next⟩)
    (h : t.calls.lookup other = some x) :
    other = call ∧ x = ⟨startedAt, next⟩ ∨
      other ≠ call ∧ s.calls.lookup other = some x := by
  rw [hcalls, Table.lookup_insert_eq] at h
  split at h
  · next heq => exact .inl ⟨heq, (Option.some.inj h).symm⟩
  · next hne => exact .inr ⟨hne, h⟩

theorem Wired.progress (h : s.Wired) (hcall : s.calls.lookup call = some started)
    (hcalls : t.calls = s.calls.insert call ⟨startedAt, next⟩)
    (hslots : s.nextSlot ≤ t.nextSlot)
    (hready : ∀ slot agent capabilities, t.cell slot = .ready agent capabilities →
      s.cell slot = .ready agent capabilities ∨ agent = call ∧
        ∃ conversationId,
          next = .getOrBuildTask conversationId capabilities (.returned (some call)))
    (hbuilding : ∀ slot other, other ≠ call → s.cell slot = .building other →
      t.cell slot = .building other)
    (hreturned : ∀ conversationId capabilities agent,
      started.call = .getOrBuildTask conversationId capabilities (.returned agent) →
        next = started.call)
    (hbuilt : ∀ conversationId capabilities slot,
      next = .getOrBuildTask conversationId capabilities (.building slot) →
        t.cell slot = .building call)
    (hfresh : ∀ slot, t.nextSlot ≤ slot → t.cell slot = .empty)
    (hmapped : ∀ conversationId slot, t.tasks.lookup conversationId = some slot →
      slot < t.nextSlot)
    (hbounded : ∀ slot requested, next.awaits slot = some requested → slot < t.nextSlot) :
    t.Wired := by
  refine ⟨?_, ?_, hfresh, hmapped, ?_⟩
  · intro other startedAt conversationId capabilities slot hother
    rcases lookup_advanced hcalls hother with ⟨rfl, hx⟩ | ⟨hne, hother⟩
    · exact hbuilt conversationId capabilities slot (congrArg StartedCall.call hx).symm
    · exact hbuilding slot other hne
        (h.built other startedAt conversationId capabilities slot hother)
  · intro slot agent capabilities hcell
    rw [hcalls]
    rcases hready slot agent capabilities hcell with hbefore | ⟨rfl, conversationId, rfl⟩
    · obtain ⟨madeAt, conversationId, hlookup⟩ := h.made slot agent capabilities hbefore
      by_cases heq : agent = call
      · subst heq
        cases hcall.symm.trans hlookup
        rw [hreturned conversationId capabilities (some agent) rfl]
        exact ⟨startedAt, conversationId, AList.lookup_insert _⟩
      · exact ⟨madeAt, conversationId, (AList.lookup_insert_ne heq).trans hlookup⟩
    · exact ⟨startedAt, conversationId, AList.lookup_insert _⟩
  · intro other x slot requested hother hawaits
    rcases lookup_advanced hcalls hother with ⟨-, rfl⟩ | ⟨-, hother⟩
    · exact hbounded slot requested hawaits
    · exact (h.bounded other x slot requested hother hawaits).trans_le hslots

theorem Equipped.progress (h : s.Equipped) (hwired : t.Wired)
    (hcalls : t.calls = s.calls.insert call ⟨startedAt, next⟩)
    (hkept : ∀ slot agent capabilities, s.cell slot = .ready agent capabilities →
      t.cell slot = .ready agent capabilities)
    (hready : ∀ slot agent capabilities, t.cell slot = .ready agent capabilities →
      s.cell slot = .ready agent capabilities ∨ ∀ other x requested, other ≠ call →
        s.calls.lookup other = some x → x.call.awaits slot = some requested →
          capabilities.satisfies requested = true)
    (hreturned : ∀ conversationId requested agent,
      next = .getOrBuildTask conversationId requested (.returned (some agent)) →
        ∃ capabilities, t.Recorded agent capabilities ∧ capabilities.satisfies requested = true)
    (hwaiting : ∀ slot requested agent capabilities, next.awaits slot = some requested →
      t.cell slot = .ready agent capabilities → capabilities.satisfies requested = true) :
    t.Equipped := by
  refine ⟨fun _ _ _ ↦ hwired.recorded, ?_, ?_⟩
  · intro other startedAt conversationId requested agent hother
    rcases lookup_advanced hcalls hother with ⟨-, hx⟩ | ⟨-, hother⟩
    · exact hreturned conversationId requested agent (congrArg StartedCall.call hx).symm
    · obtain ⟨capabilities, ⟨slot, hcell⟩, hsatisfies⟩ :=
        h.returned other startedAt conversationId requested agent hother
      exact ⟨capabilities, ⟨slot, hkept slot agent capabilities hcell⟩, hsatisfies⟩
  · intro other x slot requested agent capabilities hother hawaits hcell
    rcases lookup_advanced hcalls hother with ⟨-, rfl⟩ | ⟨hne, hother⟩
    · exact hwaiting slot requested agent capabilities hawaits hcell
    · rcases hready slot agent capabilities hcell with hbefore | hnew
      · exact h.waiting other x slot requested agent capabilities hother hawaits hbefore
      · exact hnew other x requested hne hother hawaits

theorem Wired.quiet (h : s.Wired) (hcall : s.calls.lookup call = some started)
    (hcalls : t.calls = s.calls.insert call ⟨startedAt, next⟩)
    (hslots : t.slots = s.slots) (hnextSlot : t.nextSlot = s.nextSlot)
    (htasks : ∀ conversationId slot, t.tasks.lookup conversationId = some slot →
      s.tasks.lookup conversationId = some slot)
    (hkept : ∀ conversationId capabilities agent,
      started.call = .getOrBuildTask conversationId capabilities (.returned agent) →
        next = started.call)
    (hbuilt : ∀ conversationId capabilities slot,
      next ≠ .getOrBuildTask conversationId capabilities (.building slot))
    (hreturned : ∀ conversationId requested agent,
      next = .getOrBuildTask conversationId requested (.returned (some agent)) → s.Equipped →
        ∃ capabilities, s.Recorded agent capabilities ∧ capabilities.satisfies requested = true)
    (hbounded : ∀ slot requested, next.awaits slot = some requested → slot < s.nextSlot)
    (hwaiting : s.isChecked ok started = true → ∀ slot requested agent capabilities,
      next.awaits slot = some requested → s.cell slot = .ready agent capabilities →
        s.Equipped → capabilities.satisfies requested = true) :
    t.Wired ∧ (s.Equipped → s.isChecked ok started = true → t.Equipped) := by
  have hcell : ∀ slot, t.cell slot = s.cell slot := fun slot ↦ by rw [cell, hslots, ← cell]
  have hwired : t.Wired := by
    refine h.progress hcall hcalls hnextSlot.ge (fun slot agent capabilities hready ↦ ?_)
      (fun slot other _ hbuilding ↦ (hcell slot).trans hbuilding) hkept
      (fun conversationId capabilities slot hnext ↦ absurd hnext (hbuilt _ _ _)) ?_ ?_ ?_
    · exact .inl ((hcell slot).symm.trans hready)
    · intro slot hslot
      rw [hcell, h.fresh slot (hnextSlot ▸ hslot)]
    · intro conversationId slot hmapped
      rw [hnextSlot]
      exact h.mapped conversationId slot (htasks conversationId slot hmapped)
    · intro slot requested hawaits
      rw [hnextSlot]
      exact hbounded slot requested hawaits
  refine ⟨hwired, fun hequipped hchecked ↦ hequipped.progress hwired hcalls
    (fun slot agent capabilities hready ↦ (hcell slot).trans hready)
    (fun slot agent capabilities hready ↦ .inl ((hcell slot).symm.trans hready)) ?_ ?_⟩
  · intro conversationId requested agent hnext
    obtain ⟨capabilities, ⟨slot, hslot⟩, hsatisfies⟩ :=
      hreturned conversationId requested agent hnext hequipped
    exact ⟨capabilities, ⟨slot, (hcell slot).trans hslot⟩, hsatisfies⟩
  · intro slot requested agent capabilities hawaits hready
    exact hwaiting hchecked slot requested agent capabilities hawaits
      ((hcell slot).symm.trans hready) hequipped

theorem awaits_eq_some {capabilities requested : RuntimeCapabilities} {phase : GetPhase}
    {slot : ℕ} :
    (TaskCall.getOrBuildTask conversationId capabilities phase).awaits slot = some requested ↔
      phase = .waiting slot ∧ capabilities = requested := by
  rw [TaskCall.awaits]
  cases phase with
  | waiting other => by_cases hslot : other = slot <;> simp [GetPhase.awaits, hslot]
  | entered | rebuilding | inserting | building _ | returned _ => simp [GetPhase.awaits]

theorem lookup_of_lookup_removeTask {other : String} {slot : ℕ}
    (h : (s.removeTask conversationId).tasks.lookup other = some slot) :
    s.tasks.lookup other = some slot := by
  rw [lookup_removeTask] at h
  split at h
  · cases h
  · exact h

theorem nextSlot_removeTask : (s.removeTask conversationId).nextSlot = s.nextSlot := by
  rcases s.removeTask_cases conversationId with
    ⟨-, heq⟩ | ⟨_, -, ⟨_, _, -, heq⟩ | ⟨-, heq⟩⟩
  · rw [heq]
  · rw [heq]
    rfl
  · rw [heq]

def Frames (s t : WorkerTaskManager) : Prop :=
  t.slots = s.slots ∧ t.nextSlot = s.nextSlot ∧
    ∀ other slot, t.tasks.lookup other = some slot → s.tasks.lookup other = some slot

theorem frames_refl (s : WorkerTaskManager) : s.Frames s := ⟨rfl, rfl, fun _ _ h ↦ h⟩

theorem frames_removeTask : s.Frames (s.removeTask conversationId) :=
  ⟨(s.removeTask_frame conversationId).1, nextSlot_removeTask,
    fun _ _ ↦ lookup_of_lookup_removeTask⟩

theorem frames_advanceKill {waits : Bool} {phase : KillPhase} :
    s.Frames (s.advanceKill conversationId waits phase).1 := by
  cases phase with
  | entered =>
      simp only [WorkerTaskManager.advanceKill]
      split
      · exact s.frames_refl
      · exact frames_removeTask
  | waiting slot =>
      simp only [WorkerTaskManager.advanceKill]
      split <;> exact s.frames_refl
  | done => exact s.frames_refl

theorem frames_advanceClear {phase : ClearPhase} : s.Frames (s.advanceClear phase).1 := by
  cases phase with
  | entered | done => exact s.frames_refl
  | removing rest => cases rest with
    | nil => exact s.frames_refl
    | cons removed rest => exact frames_removeTask

theorem Wired.other (h : s.Wired) (ok : Bool) (hcall : s.calls.lookup call = some started)
    (hcalls : t.calls = s.calls.insert call ⟨startedAt, next⟩) (hframes : s.Frames t)
    (hstarted : ∀ conversationId requested phase,
      started.call ≠ .getOrBuildTask conversationId requested phase)
    (hnext : ∀ conversationId requested phase,
      next ≠ .getOrBuildTask conversationId requested phase) :
    t.Wired ∧ (s.Equipped → s.isChecked ok started = true → t.Equipped) := by
  have hawaits : ∀ slot requested, next.awaits slot ≠ some requested := by
    intro slot requested hawaits
    cases next with
    | getOrBuildTask conversationId requested phase => exact hnext _ _ _ rfl
    | kill _ _ _ | clear _ => cases hawaits
  exact h.quiet hcall hcalls hframes.1 hframes.2.1 hframes.2.2
    (fun _ _ _ heq ↦ absurd heq (hstarted _ _ _)) (fun _ _ _ ↦ hnext _ _ _)
    (fun _ _ _ heq ↦ absurd heq (hnext _ _ _))
    (fun slot requested hsome ↦ absurd hsome (hawaits slot requested))
    (fun _ slot requested _ _ hsome ↦ absurd hsome (hawaits slot requested))

theorem needsRebuild_of_ready {requested capabilities : RuntimeCapabilities} {slot agent : ℕ}
    (hslot : s.tasks.lookup conversationId = some slot)
    (hcell : s.cell slot = .ready agent capabilities) :
    s.needsRebuild conversationId requested = !capabilities.satisfies requested := by
  rw [needsRebuild, hslot, Option.any_some, hcell]

def Writes (call : ℕ) (capabilities : RuntimeCapabilities) (slot : ℕ) (cell : TaskSlot)
    (phase : GetPhase) : Prop :=
  cell = .building call ∧ phase = .building slot ∨
    cell = .ready call capabilities ∧ phase = .returned (some call) ∨
      cell = .empty ∧ phase = .returned none

theorem hasAgent_eq_true (h : s.hasAgent conversationId = true) :
    ∃ slot agent capabilities, s.tasks.lookup conversationId = some slot ∧
      s.cell slot = .ready agent capabilities := by
  obtain ⟨slot, hslot, hcell⟩ := (Option.any_eq_true _ _).mp h
  cases hready : s.cell slot with
  | ready agent capabilities => exact ⟨slot, agent, capabilities, hslot, hready⟩
  | empty | building _ =>
      rw [hready] at hcell
      cases hcell

theorem hasAgent_of_needsRebuild {requested : RuntimeCapabilities}
    (h : s.needsRebuild conversationId requested = true) : s.hasAgent conversationId = true := by
  obtain ⟨slot, hslot, hcell⟩ := (Option.any_eq_true _ _).mp h
  cases hready : s.cell slot with
  | ready agent capabilities => rw [hasAgent, hslot, Option.any_some, hready]
  | empty | building _ =>
      rw [hready] at hcell
      cases hcell

theorem Wired.setCell (h : s.Wired) {capabilities : RuntimeCapabilities}
    {phase nextPhase : GetPhase} {slot : ℕ} {cell : TaskSlot}
    (hcall : s.calls.lookup call =
      some ⟨startedAt, .getOrBuildTask conversationId capabilities phase⟩)
    (hcalls : t.calls = s.calls.insert call
      ⟨startedAt, .getOrBuildTask conversationId capabilities nextPhase⟩)
    (hslots : t.slots = (s.setCell slot cell).slots) (hnextSlot : t.nextSlot = s.nextSlot)
    (htasks : t.tasks = s.tasks) (hslot : slot < s.nextSlot)
    (hidle : s.cell slot = .empty ∨ s.cell slot = .building call)
    (hphase : phase.isReturned = false) (hwrites : Writes call capabilities slot cell nextPhase)
    (hchecked : s.isChecked ok ⟨startedAt, .getOrBuildTask conversationId capabilities phase⟩ =
      true → cell = .ready call capabilities → ∀ other x requested,
        s.calls.lookup other = some x → x.call.awaits slot = some requested →
          capabilities.satisfies requested = true) :
    t.Wired ∧ (s.Equipped → s.isChecked ok
      ⟨startedAt, .getOrBuildTask conversationId capabilities phase⟩ = true → t.Equipped) := by
  have hcell : ∀ other, t.cell other = if other = slot then cell else s.cell other := by
    intro other
    rw [WorkerTaskManager.cell, hslots]
    exact cell_setCell slot other cell
  have hkept : ∀ other agent made, s.cell other = .ready agent made →
      t.cell other = .ready agent made := by
    intro other agent made hother
    have hne : other ≠ slot := by
      rintro rfl
      rcases hidle with hidle | hidle <;> cases hidle.symm.trans hother
    rw [hcell, if_neg hne, hother]
  have hready : ∀ other agent made, t.cell other = .ready agent made →
      s.cell other = .ready agent made ∨
        other = slot ∧ agent = call ∧ made = capabilities ∧ cell = .ready call capabilities ∧
          nextPhase = .returned (some call) := by
    intro other agent made hother
    rw [hcell] at hother
    split at hother
    · next heq =>
        rcases hwrites with ⟨rfl, -⟩ | ⟨rfl, hnext⟩ | ⟨rfl, -⟩
        · cases hother
        · cases hother
          exact .inr ⟨heq, rfl, rfl, rfl, hnext⟩
        · cases hother
    · exact .inl hother
  have hawaits : ∀ other requested,
      (TaskCall.getOrBuildTask conversationId capabilities nextPhase).awaits other ≠
        some requested := by
    intro other requested hsome
    obtain ⟨rfl, -⟩ := awaits_eq_some.mp hsome
    rcases hwrites with ⟨-, hnext⟩ | ⟨-, hnext⟩ | ⟨-, hnext⟩ <;> cases hnext
  have hwired : t.Wired := by
    refine h.progress hcall hcalls hnextSlot.ge ?_ ?_ ?_ ?_ ?_ ?_ ?_
    · intro other agent made hother
      rcases hready other agent made hother with hbefore | ⟨-, rfl, rfl, -, rfl⟩
      · exact .inl hbefore
      · exact .inr ⟨rfl, conversationId, rfl⟩
    · intro other building hne hother
      have hother' : other ≠ slot := by
        rintro rfl
        rcases hidle with hidle | hidle
        · cases hidle.symm.trans hother
        · cases hidle.symm.trans hother
          exact hne rfl
      rw [hcell, if_neg hother', hother]
    · rintro _ _ agent ⟨⟩
      cases hphase
    · rintro _ _ other ⟨⟩
      rcases hwrites with ⟨rfl, hnext⟩ | ⟨-, hnext⟩ | ⟨-, hnext⟩
      · cases hnext
        rw [hcell, if_pos rfl]
      · cases hnext
      · cases hnext
    · intro other hother
      rw [hnextSlot] at hother
      rw [hcell, if_neg (hslot.trans_le hother).ne', h.fresh other hother]
    · intro other mapped hmapped
      rw [htasks] at hmapped
      rw [hnextSlot]
      exact h.mapped other mapped hmapped
    · exact fun other requested hsome ↦ absurd hsome (hawaits other requested)
  refine ⟨hwired, fun hequipped hstill ↦ hequipped.progress hwired hcalls hkept ?_ ?_ ?_⟩
  · intro other agent made hother
    rcases hready other agent made hother with hbefore | ⟨rfl, -, rfl, hmade, -⟩
    · exact .inl hbefore
    · exact .inr fun waiting x requested _ ↦ hchecked hstill hmade waiting x requested
  · rintro _ _ agent ⟨⟩
    rcases hwrites with ⟨-, hnext⟩ | ⟨rfl, hnext⟩ | ⟨-, hnext⟩
    · cases hnext
    · cases hnext
      exact ⟨capabilities, ⟨slot, by rw [hcell, if_pos rfl]⟩, capabilities.satisfies_refl⟩
    · cases hnext
  · exact fun other requested _ _ hsome ↦ absurd hsome (hawaits other requested)

theorem Wired.take (h : s.Wired) {capabilities : RuntimeCapabilities} {slot : ℕ}
    (hcall : s.calls.lookup call =
      some ⟨startedAt, .getOrBuildTask conversationId capabilities .inserting⟩)
    (hcalls : t.calls = s.calls.insert call
      ⟨startedAt, .getOrBuildTask conversationId capabilities (.waiting slot)⟩)
    (hslots : t.slots = s.slots) (hnextSlot : s.nextSlot ≤ t.nextSlot) (hslot : slot < t.nextSlot)
    (htasks : ∀ other mapped, t.tasks.lookup other = some mapped → mapped < t.nextSlot)
    (hready : s.isChecked ok ⟨startedAt, .getOrBuildTask conversationId capabilities .inserting⟩ =
      true → ∀ agent made, s.cell slot = .ready agent made → made.satisfies capabilities = true) :
    t.Wired ∧ (s.Equipped → s.isChecked ok
      ⟨startedAt, .getOrBuildTask conversationId capabilities .inserting⟩ = true →
        t.Equipped) := by
  have hcell : ∀ other, t.cell other = s.cell other := fun other ↦ by rw [cell, hslots, ← cell]
  have hwired : t.Wired := by
    refine h.progress hcall hcalls hnextSlot
      (fun other agent made hother ↦ .inl ((hcell other).symm.trans hother))
      (fun other building _ hother ↦ (hcell other).trans hother) (fun _ _ _ heq ↦ by cases heq)
      (fun _ _ _ heq ↦ by cases heq) ?_ htasks ?_
    · intro other hother
      rw [hcell, h.fresh other (hnextSlot.trans hother)]
    · intro other requested hsome
      obtain ⟨hwaiting, -⟩ := awaits_eq_some.mp hsome
      cases hwaiting
      exact hslot
  refine ⟨hwired, fun hequipped hchecked ↦ hequipped.progress hwired hcalls
    (fun other agent made hother ↦ (hcell other).trans hother)
    (fun other agent made hother ↦ .inl ((hcell other).symm.trans hother))
    (fun _ _ _ heq ↦ by cases heq) ?_⟩
  intro other requested agent made hsome hother
  obtain ⟨hwaiting, rfl⟩ := awaits_eq_some.mp hsome
  cases hwaiting
  exact hready hchecked agent made ((hcell slot).symm.trans hother)

theorem Wired.advanceGet (h : s.Wired) {capabilities : RuntimeCapabilities} {phase : GetPhase}
    (hcall : s.calls.lookup call =
      some ⟨startedAt, .getOrBuildTask conversationId capabilities phase⟩) :
    Wired { (s.advanceGet call conversationId capabilities ok phase).1 with
      calls := s.calls.insert call ⟨startedAt, .getOrBuildTask conversationId capabilities
        (s.advanceGet call conversationId capabilities ok phase).2⟩ } ∧
    (s.Equipped →
      s.isChecked ok ⟨startedAt, .getOrBuildTask conversationId capabilities phase⟩ = true →
        Equipped { (s.advanceGet call conversationId capabilities ok phase).1 with
          calls := s.calls.insert call ⟨startedAt, .getOrBuildTask conversationId capabilities
            (s.advanceGet call conversationId capabilities ok phase).2⟩ }) := by
  cases phase with
  | entered =>
      simp only [WorkerTaskManager.advanceGet]
      split
      all_goals
        exact h.quiet hcall rfl rfl rfl (fun _ _ hslot ↦ hslot) (fun _ _ _ heq ↦ by cases heq)
          (fun _ _ _ heq ↦ by cases heq) (fun _ _ _ heq ↦ by cases heq)
          (fun _ _ hsome ↦ by cases hsome) (fun _ _ _ _ _ hsome ↦ by cases hsome)
  | rebuilding =>
      simp only [WorkerTaskManager.advanceGet]
      have hslots := (s.removeTask_frame conversationId).1
      cases ok with
      | true =>
          exact h.quiet hcall rfl hslots nextSlot_removeTask
            (fun _ _ ↦ lookup_of_lookup_removeTask) (fun _ _ _ heq ↦ by cases heq)
            (fun _ _ _ heq ↦ by cases heq) (fun _ _ _ heq ↦ by cases heq)
            (fun _ _ hsome ↦ by cases hsome) (fun _ _ _ _ _ hsome ↦ by cases hsome)
      | false =>
          exact h.quiet hcall rfl hslots nextSlot_removeTask
            (fun _ _ ↦ lookup_of_lookup_removeTask) (fun _ _ _ heq ↦ by cases heq)
            (fun _ _ _ heq ↦ by cases heq) (fun _ _ _ heq ↦ by cases heq)
            (fun _ _ hsome ↦ by cases hsome) (fun _ _ _ _ _ hsome ↦ by cases hsome)
  | inserting =>
      simp only [WorkerTaskManager.advanceGet]
      cases hslot : s.tasks.lookup conversationId with
      | some slot =>
          refine h.take hcall rfl rfl le_rfl (h.mapped conversationId slot hslot) h.mapped ?_
          intro hchecked agent made hcell
          have hkept : (!s.needsRebuild conversationId capabilities) = true := hchecked
          rw [needsRebuild_of_ready hslot hcell, Bool.not_not] at hkept
          exact hkept
      | none =>
          refine h.take hcall rfl rfl (Nat.le_succ _) (Nat.lt_succ_self _) ?_ ?_
          · intro other mapped hmapped
            rcases eq_or_ne other conversationId with rfl | hne
            · have hinsert := hmapped.symm.trans (AList.lookup_insert _)
              cases hinsert
              exact Nat.lt_succ_self _
            · exact (h.mapped other mapped
                ((AList.lookup_insert_ne hne).symm.trans hmapped)).trans (Nat.lt_succ_self _)
          · intro _ agent made hcell
            cases (h.fresh s.nextSlot le_rfl).symm.trans hcell
  | waiting slot =>
      have hslot := h.bounded call _ slot capabilities hcall (awaits_eq_some.mpr ⟨rfl, rfl⟩)
      simp only [WorkerTaskManager.advanceGet]
      split
      · next agent made hready =>
          refine h.quiet hcall rfl rfl rfl (fun _ _ hslot ↦ hslot) (fun _ _ _ heq ↦ by cases heq)
            (fun _ _ _ heq ↦ by cases heq) ?_ (fun _ _ hsome ↦ by cases hsome)
            (fun _ _ _ _ _ hsome ↦ by cases hsome)
          rintro _ _ _ ⟨⟩ hequipped
          exact ⟨made, ⟨slot, hready⟩, hequipped.waiting call _ slot capabilities agent made hcall
            (awaits_eq_some.mpr ⟨rfl, rfl⟩) hready⟩
      · next hbuilding =>
          refine h.quiet hcall rfl rfl rfl (fun _ _ hslot ↦ hslot) (fun _ _ _ heq ↦ by cases heq)
            (fun _ _ _ heq ↦ by cases heq) (fun _ _ _ heq ↦ by cases heq) ?_ ?_
          · intro other requested hsome
            obtain ⟨hwaiting, -⟩ := awaits_eq_some.mp hsome
            cases hwaiting
            exact hslot
          · intro _ other requested agent made hsome hready
            obtain ⟨hwaiting, -⟩ := awaits_eq_some.mp hsome
            cases hwaiting
            cases hbuilding.symm.trans hready
      · next hempty =>
          exact h.setCell hcall rfl rfl rfl rfl hslot (.inl hempty) rfl (.inl ⟨rfl, rfl⟩)
            fun _ heq ↦ by cases heq
  | building slot =>
      have hbuilding := h.built call startedAt conversationId capabilities slot hcall
      have hslot : slot < s.nextSlot := by
        by_contra hle
        cases hbuilding.symm.trans (h.fresh slot (not_lt.mp hle))
      simp only [WorkerTaskManager.advanceGet]
      cases ok with
      | false =>
          exact h.setCell hcall rfl rfl rfl rfl hslot (.inr hbuilding) rfl
            (.inr (.inr ⟨rfl, rfl⟩)) fun _ heq ↦ by cases heq
      | true =>
          refine h.setCell hcall rfl rfl rfl rfl hslot (.inr hbuilding) rfl
            (.inr (.inl ⟨rfl, rfl⟩)) ?_
          intro hchecked _ other x requested hother hawaits
          have hall := List.all_eq_true.mp (hchecked : (!true || s.calls.entries.all fun entry ↦
            (entry.2.call.awaits slot).all capabilities.satisfies) = true) ⟨other, x⟩
              (Table.mem_entries_iff.mpr hother)
          rw [hawaits] at hall
          exact hall
  | returned agent =>
      refine h.quiet hcall rfl rfl rfl (fun _ _ hslot ↦ hslot) (fun _ _ _ _ ↦ rfl)
        (fun _ _ _ heq ↦ by cases heq) ?_ (fun _ _ hsome ↦ by cases hsome)
        (fun _ _ _ _ _ hsome ↦ by cases hsome)
      rintro _ _ _ ⟨⟩ hequipped
      exact hequipped.returned call startedAt conversationId capabilities _ hcall

theorem wired_new : new.Wired :=
  ⟨fun _ _ _ _ _ h ↦ (by cases h), fun _ _ _ h ↦ (by cases h), fun _ _ ↦ rfl,
    fun _ _ h ↦ (by cases h), fun _ _ _ _ h ↦ (by cases h)⟩

theorem equipped_new : new.Equipped :=
  ⟨fun _ _ _ ↦ wired_new.recorded, fun _ _ _ _ _ h ↦ (by cases h),
    fun _ _ _ _ _ _ h ↦ (by cases h)⟩

theorem awaits_of_isEntered {request : TaskCall} (h : request.isEntered = true) (slot : ℕ) :
    request.awaits slot = none := by
  cases request with
  | getOrBuildTask _ _ phase =>
      obtain rfl : phase = .entered := of_decide_eq_true h
      rfl
  | kill _ _ _ | clear _ => rfl

theorem Wired.start (h : s.Wired) {request : TaskCall} (hnew : s.calls.lookup call = none)
    (hentered : request.isEntered = true) :
    (s.start call request).Wired ∧ (s.Equipped → (s.start call request).Equipped) := by
  have hphase : ∀ conversationId requested phase,
      request = .getOrBuildTask conversationId requested phase → phase = .entered := by
    rintro _ _ phase rfl
    exact of_decide_eq_true hentered
  have hwired : (s.start call request).Wired := by
    refine ⟨?_, ?_, h.fresh, h.mapped, ?_⟩
    · intro other startedAt conversationId requested slot hother
      rcases lookup_start hother with heq | hother
      · cases hphase _ _ _ (congrArg StartedCall.call heq).symm
      · exact h.built other startedAt conversationId requested slot hother
    · intro slot agent requested hcell
      obtain ⟨madeAt, conversationId, hagent⟩ := h.made slot agent requested hcell
      have hne : agent ≠ call := by
        rintro rfl
        cases hnew.symm.trans hagent
      exact ⟨madeAt, conversationId, (AList.lookup_insert_ne hne).trans hagent⟩
    · intro other x slot requested hother hawaits
      rcases lookup_start hother with rfl | hother
      · cases (awaits_of_isEntered hentered slot).symm.trans hawaits
      · exact h.bounded other x slot requested hother hawaits
  refine ⟨hwired, fun hequipped ↦ ⟨fun _ _ _ ↦ hwired.recorded, ?_, ?_⟩⟩
  · intro other startedAt conversationId requested agent hother
    rcases lookup_start hother with heq | hother
    · cases hphase _ _ _ (congrArg StartedCall.call heq).symm
    · exact hequipped.returned other startedAt conversationId requested agent hother
  · intro other x slot requested agent made hother hawaits hcell
    rcases lookup_start hother with rfl | hother
    · cases (awaits_of_isEntered hentered slot).symm.trans hawaits
    · exact hequipped.waiting other x slot requested agent made hother hawaits hcell

theorem Wired.step (h : s.Wired) (a : TaskAction) :
    (s.step a).Wired ∧ (s.Equipped → s.Checked a → (s.step a).Equipped) := by
  cases a with
  | start call request =>
      simp only [WorkerTaskManager.step]
      split
      · next hnew =>
          obtain ⟨hnew, hentered⟩ := Bool.and_eq_true_iff.mp hnew
          obtain ⟨hwired, hequipped⟩ := h.start (Option.isNone_iff_eq_none.mp hnew) hentered
          exact ⟨hwired, fun hs _ ↦ hequipped hs⟩
      · exact ⟨h, fun hs _ ↦ hs⟩
  | advance call ok =>
      simp only [WorkerTaskManager.step, Checked]
      cases hcall : s.calls.lookup call with
      | none => exact ⟨h, fun hs _ ↦ hs⟩
      | some started =>
          obtain ⟨startedAt, under⟩ := started
          cases under with
          | getOrBuildTask conversationId capabilities phase => exact h.advanceGet hcall
          | kill conversationId waits phase =>
              exact h.other ok hcall rfl frames_advanceKill (fun _ _ _ heq ↦ by cases heq)
                fun _ _ _ heq ↦ by cases heq
          | clear phase =>
              exact h.other ok hcall rfl frames_advanceClear (fun _ _ _ heq ↦ by cases heq)
                fun _ _ _ heq ↦ by cases heq
  | reorder rank =>
      have hmapped : ∀ conversationId slot,
          (s.tasks.reorder rank).lookup conversationId = some slot → slot < s.nextSlot :=
        fun conversationId slot hslot ↦
          h.mapped conversationId slot ((Table.lookup_reorder rank).symm.trans hslot)
      exact ⟨⟨h.built, h.made, h.fresh, hmapped, h.bounded⟩,
        fun hs _ ↦ ⟨hs.recorded, hs.returned, hs.waiting⟩⟩

theorem justified_of_checked {a : TaskAction} (h : s.Checked a) : s.Justified a := by
  cases a with
  | start _ _ => trivial
  | reorder _ => trivial
  | advance call ok =>
      intro startedAt conversationId requested slot agent capabilities hcall hslot hcell
      rw [Checked, hcall, Option.all_some] at h
      have hagent : s.hasAgent conversationId = true := by
        rw [hasAgent, hslot, Option.any_some, hcell]
      have hany : (s.calls.entries.any fun entry ↦
          (entry.2.call.asks conversationId).any (s.needsRebuild conversationId)) = true := by
        rcases Bool.or_eq_true_iff.mp h with hnone | hany
        · rw [hagent] at hnone
          cases hnone
        · exact hany
      obtain ⟨⟨other, asking⟩, hmem, hasks⟩ := List.any_eq_true.mp hany
      obtain ⟨lacked, hlacked, hneeds⟩ := (Option.any_eq_true _ _).mp hasks
      rw [needsRebuild_of_ready hslot hcell, Bool.not_eq_true'] at hneeds
      exact ⟨other, asking, lacked, Table.mem_entries_iff.mp hmem, hlacked, hneeds⟩

theorem isChecked_rebuilding {capabilities : RuntimeCapabilities}
    (hcall : s.calls.lookup call =
      some ⟨startedAt, .getOrBuildTask conversationId capabilities .rebuilding⟩)
    (hjustified : s.Justified (.advance call ok)) :
    s.isChecked ok ⟨startedAt, .getOrBuildTask conversationId capabilities .rebuilding⟩ = true := by
  refine Bool.or_eq_true_iff.mpr (or_iff_not_imp_left.mpr fun hagent ↦ ?_)
  rw [Bool.not_eq_true', Bool.not_eq_false] at hagent
  obtain ⟨slot, agent, made, hslot, hcell⟩ := hasAgent_eq_true hagent
  obtain ⟨other, asking, lacked, hother, hasks, hlacks⟩ :=
    hjustified startedAt conversationId capabilities slot agent made hcall hslot hcell
  refine List.any_eq_true.mpr ⟨⟨other, asking⟩, Table.mem_entries_iff.mpr hother, ?_⟩
  rw [hasks, Option.any_some, needsRebuild_of_ready hslot hcell, hlacks]
  rfl

theorem isChecked_inserting {capabilities : RuntimeCapabilities}
    (hcall : s.calls.lookup call =
      some ⟨startedAt, .getOrBuildTask conversationId capabilities .inserting⟩)
    (hnext : (s.step (.advance call ok)).Equipped) :
    s.isChecked ok ⟨startedAt, .getOrBuildTask conversationId capabilities .inserting⟩ = true := by
  refine (Bool.not_eq_true' _).mpr (Bool.eq_false_iff.mpr fun hneeds ↦ ?_)
  obtain ⟨slot, agent, made, hslot, hcell⟩ := hasAgent_eq_true (hasAgent_of_needsRebuild hneeds)
  simp only [WorkerTaskManager.step, hcall, WorkerTaskManager.advance,
    WorkerTaskManager.advanceGet, hslot] at hnext
  have hsatisfies := hnext.waiting call _ slot capabilities agent made (AList.lookup_insert _)
    (awaits_eq_some.mpr ⟨rfl, rfl⟩) hcell
  rw [needsRebuild_of_ready hslot hcell, hsatisfies] at hneeds
  cases hneeds

theorem isChecked_building {capabilities : RuntimeCapabilities} {slot : ℕ}
    (hcall : s.calls.lookup call =
      some ⟨startedAt, .getOrBuildTask conversationId capabilities (.building slot)⟩)
    (hnext : (s.step (.advance call ok)).Equipped) :
    s.isChecked ok ⟨startedAt, .getOrBuildTask conversationId capabilities (.building slot)⟩ =
      true := by
  refine Bool.or_eq_true_iff.mpr (or_iff_not_imp_left.mpr fun hok ↦ ?_)
  obtain rfl : ok = true := by simpa using hok
  simp only [WorkerTaskManager.step, hcall] at hnext
  refine List.all_eq_true.mpr ?_
  rintro ⟨other, x⟩ hmem
  have hother := Table.mem_entries_iff.mp hmem
  refine (Option.all_eq_true _ _).mpr fun requested hawaits ↦ ?_
  have hne : other ≠ call := by
    rintro rfl
    cases hcall.symm.trans hother
    cases hawaits
  exact hnext.waiting other x slot requested call capabilities
    ((AList.lookup_insert_ne hne).trans hother) hawaits
    ((cell_setCell slot slot _).trans (if_pos rfl))

/-- Where the check does not hold, a caller is left to an agent that it did not ask for, or an agent
is replaced without need. -/
theorem checked_of_equipped {a : TaskAction} (hnext : (s.step a).Equipped)
    (hjustified : s.Justified a) : s.Checked a := by
  cases a with
  | start _ _ => trivial
  | reorder _ => trivial
  | advance call ok =>
      rw [Checked]
      cases hcall : s.calls.lookup call with
      | none => rfl
      | some started =>
          rw [Option.all_some]
          obtain ⟨startedAt, under⟩ := started
          cases under with
          | kill _ _ _ => rfl
          | clear _ => rfl
          | getOrBuildTask conversationId capabilities phase => cases phase with
            | entered | waiting _ | returned _ => rfl
            | rebuilding => exact isChecked_rebuilding hcall hjustified
            | inserting => exact isChecked_inserting hcall hnext
            | building slot => exact isChecked_building hcall hnext

end WorkerTaskManager

end Zaowutai.Agent
