import Zaowutai.Lib.Run

/-!
# The plugins of the channel manager

The manager starts and stops the plugin instance of one owner and plugin id.
Its operations are futures: between two awaited calls any other operation on
the same key may take steps, and any awaited call may fail.  A task stands for
an operation in progress and says what it does next; a step of the system
begins an operation or advances one task, with the answer of the call it
waited for.
-/

namespace Zaowutai.Channel

open Zaowutai.Lib

inductive PluginStatus
  | created
  | initializing
  | ready
  | starting
  | running
  | stopping
  | stopped
  | error
  deriving DecidableEq, Repr

structure ChannelPluginRow where
  enabled : Bool
  status : Option PluginStatus
  deriving DecidableEq, Repr

inductive PluginOp
  | enablePlugin
  | disablePlugin
  | restorePlugins
  | shutdownForUser
  deriving DecidableEq, Repr

/-- The next step of an operation in progress; instances are numbered as they are created. -/
inductive PluginTask
  | loadStoredConfig
  | takeEntry (caller : PluginOp)
  | stop (caller : PluginOp) (plugin : ℕ)
  | upsertPlugin
  | getAllPlugins
  | factory (caller : PluginOp)
  | initializePlugin (caller : PluginOp) (plugin : ℕ)
  | start (caller : PluginOp) (plugin : ℕ)
  | updateRunning (caller : PluginOp) (plugin : ℕ)
  | insertEntry (plugin : ℕ)
  /-- `update_plugin_error`, with the instance that was started and dropped before, if any. -/
  | updateError (dropped : Option ℕ)
  | updateStopped
  | listKeys
  deriving DecidableEq, Repr

structure ChannelManager where
  row : Option ChannelPluginRow
  /-- The entry of the key in `plugins`. -/
  entry : Option ℕ
  /-- The instances whose `start` returned and whose `stop` was not called to its end. -/
  started : List ℕ
  created : ℕ
  /-- The operation that stopped an instance last. -/
  stoppedBy : Option PluginOp
  tasks : List PluginTask
  deriving DecidableEq, Repr

inductive PluginStep
  | begin (op : PluginOp)
  | advance (task : ℕ) (ok : Bool)
  deriving DecidableEq, Repr

def PluginOp.begin : PluginOp → PluginTask
  | .enablePlugin => .loadStoredConfig
  | .disablePlugin => .takeEntry .disablePlugin
  | .restorePlugins => .getAllPlugins
  | .shutdownForUser => .listKeys

/-- What follows `stop_plugin_by_key`. -/
def PluginOp.afterStop : PluginOp → Option PluginTask
  | .enablePlugin => some .upsertPlugin
  | .disablePlugin => some .updateStopped
  | _ => none

/-- A restore that finds no usable instance is recorded as an error; `enable_plugin` returns at once
when there is no implementation. -/
def PluginOp.afterMissing : PluginOp → Option PluginTask
  | .enablePlugin => none
  | _ => some (.updateError none)

/-- A status write that fails ends `enable_plugin`; a restore is recorded as an error. -/
def PluginOp.afterUnrecorded (plugin : ℕ) : PluginOp → Option PluginTask
  | .enablePlugin => none
  | _ => some (.updateError (some plugin))

namespace ChannelManager

variable (s : ChannelManager)

def updatePluginStatus (ok : Bool) (f : ChannelPluginRow → ChannelPluginRow) :
    Option ChannelManager :=
  if ok then s.row.map fun row ↦ { s with row := some (f row) } else none

def perform (task : PluginTask) (ok : Bool) : ChannelManager × Option PluginTask :=
  match task with
  | .loadStoredConfig => (s, if ok then some (.takeEntry .enablePlugin) else none)
  | .takeEntry caller =>
      match s.entry with
      | none => (s, caller.afterStop)
      | some plugin => ({ s with entry := none }, some (.stop caller plugin))
  | .stop caller plugin =>
      ({ s with started := s.started.erase plugin, stoppedBy := some caller }, caller.afterStop)
  | .upsertPlugin =>
      if ok then ({ s with row := some ⟨true, some .created⟩ }, some (.factory .enablePlugin))
      else (s, none)
  | .getAllPlugins =>
      (s, if ok && s.row.any ChannelPluginRow.enabled then some (.factory .restorePlugins) else none)
  | .factory caller =>
      if ok then ({ s with created := s.created + 1 }, some (.initializePlugin caller s.created))
      else (s, caller.afterMissing)
  | .initializePlugin caller plugin =>
      (s, some (if ok then .start caller plugin else .updateError none))
  | .start caller plugin =>
      if ok then ({ s with started := s.started ++ [plugin] },
        some (.updateRunning caller plugin))
      else (s, some (.updateError none))
  | .updateRunning caller plugin =>
      match s.updatePluginStatus ok fun row ↦ { row with status := some .running } with
      | some s' => (s', some (.insertEntry plugin))
      | none => (s, caller.afterUnrecorded plugin)
  | .insertEntry plugin => ({ s with entry := some plugin }, none)
  | .updateError _ =>
      ((s.updatePluginStatus ok fun row ↦ { row with status := some .error }).getD s, none)
  | .updateStopped =>
      ((s.updatePluginStatus ok fun _ ↦ ⟨false, some .stopped⟩).getD s, none)
  | .listKeys => (s, if s.entry.isSome then some (.takeEntry .shutdownForUser) else none)

def step (s : ChannelManager) : PluginStep → ChannelManager
  | .begin op => { s with tasks := s.tasks ++ [op.begin] }
  | .advance index ok =>
      match s.tasks[index]? with
      | none => s
      | some task =>
          let (s', next) := s.perform task ok
          { s' with tasks := next.elim (s.tasks.eraseIdx index) (s.tasks.set index) }

/-- The key before the first operation of the process: what an earlier process left running was
shut down with it. -/
structure Initial (s : ChannelManager) : Prop where
  entry : s.entry = none
  started : s.started = []
  tasks : s.tasks = []
  row : (s.row.bind ChannelPluginRow.status) = some .running → s.stoppedBy = some .shutdownForUser

end ChannelManager

/-!
## A plugin runs when it is enabled

While no operation is in progress the instance that runs is the one in the map
and the row agrees with it.  Operations that overlap break this, and so does
one that stopped or started an instance and then fails to write the row, and a
restore of a plugin that runs already.
-/

namespace ChannelManager

variable {s : ChannelManager}

def rowEnabled (s : ChannelManager) : Bool := s.row.any ChannelPluginRow.enabled

def rowRunning (s : ChannelManager) : Bool :=
  s.row.any fun row ↦ decide (row.status = some .running)

/-- At most one instance runs, and where no operation is in progress the map and the row agree with
it. -/
structure Consistent (s : ChannelManager) : Prop where
  single : s.started.length ≤ 1
  held : s.tasks = [] → ∀ plugin ∈ s.started, s.entry = some plugin
  enabled : s.tasks = [] → s.entry.isSome = true → s.rowEnabled = true
  running : s.tasks = [] → s.entry.isSome = true → s.rowRunning = true
  stopped : s.tasks = [] → s.rowRunning = true → s.entry = none →
    s.stoppedBy = some .shutdownForUser

def OneAtATime (s : ChannelManager) : PluginStep → Prop
  | .begin _ => s.tasks = []
  | .advance _ _ => True

def HarmlessAnswer (s : ChannelManager) (ok : Bool) : PluginTask → Prop
  -- an instance is started, or an error is recorded, while another instance runs
  | .start _ _ | .updateError none => ok = true → s.entry = none
  -- the row is not written although it still says that the stopped instance runs
  | .upsertPlugin | .updateStopped =>
      ok = false → s.rowRunning = true → s.stoppedBy = some .shutdownForUser
  -- the status is not written and the instance that was started is dropped
  | .updateRunning .enablePlugin _ => ok = true
  | .updateError (some _) => False
  | _ => True

def Harmless (s : ChannelManager) : PluginStep → Prop
  | .begin _ => True
  | .advance index ok => ∀ task ∈ s.tasks[index]?, s.HarmlessAnswer ok task

instance (s : ChannelManager) (step : PluginStep) : Decidable (s.OneAtATime step) := by
  cases step <;> unfold OneAtATime <;> infer_instance

structure Settled (s : ChannelManager) : Prop where
  started : s.started = s.entry.toList
  row : s.entry.isSome = true → s.rowEnabled = true ∧ s.rowRunning = true
  stopped : s.rowRunning = true → s.entry = none → s.stoppedBy = some .shutdownForUser

/-- What holds of the key when the only operation in progress is at this task. -/
def During (s : ChannelManager) : PluginTask → Prop
  | .loadStoredConfig | .getAllPlugins | .listKeys => s.Settled
  | .takeEntry caller => s.Settled ∧ caller ≠ .restorePlugins
  | .stop caller plugin =>
      (s.entry = none ∧ s.started = [plugin]) ∧ caller ≠ .restorePlugins
  | .upsertPlugin | .updateStopped => s.entry = none ∧ s.started = []
  | .factory caller | .initializePlugin caller _ | .start caller _ =>
      (s.Settled ∧ s.rowEnabled = true) ∧ (caller = .enablePlugin → s.entry = none)
  | .updateRunning _ plugin => (s.entry = none ∧ s.started = [plugin]) ∧ s.rowEnabled = true
  | .insertEntry plugin =>
      (s.entry = none ∧ s.started = [plugin]) ∧ s.rowEnabled = true ∧ s.rowRunning = true
  | .updateError none => s.Settled ∧ s.rowEnabled = true
  | .updateError (some plugin) => s.entry = none ∧ s.started = [plugin]

/-- The task, if there is one, or the end of the operation has been reached in order. -/
def Reached (s : ChannelManager) (next : Option PluginTask) : Prop := next.elim s.Settled s.During

/-- At most one operation is in progress, and it is where its task says. -/
inductive Orderly (s : ChannelManager) : Prop
  | idle (tasks : s.tasks = []) (settled : s.Settled)
  | busy (task : PluginTask) (tasks : s.tasks = [task]) (during : s.During task)

theorem settled_of_idle (h : s.Orderly) (htasks : s.tasks = []) : s.Settled := by
  cases h with
  | idle _ settled => exact settled
  | busy task tasks _ =>
      rw [htasks] at tasks
      cases tasks

theorem Settled.single (h : s.Settled) : s.started.length ≤ 1 := by
  rw [h.started]
  cases s.entry <;> simp

theorem Settled.consistent (h : s.Settled) : s.Consistent where
  single := h.single
  held _ plugin hplugin := by
    rw [h.started] at hplugin
    exact Option.mem_toList.mp hplugin
  enabled _ hentry := (h.row hentry).1
  running _ hentry := (h.row hentry).2
  stopped _ := h.stopped

/-- While an operation is in progress only the number of running instances counts. -/
theorem consistent_of_busy (htasks : s.tasks ≠ []) (hsingle : s.started.length ≤ 1) :
    s.Consistent where
  single := hsingle
  held h := absurd h htasks
  enabled h := absurd h htasks
  running h := absurd h htasks
  stopped h := absurd h htasks

theorem During.single {task : PluginTask} (h : s.During task) : s.started.length ≤ 1 := by
  have hone : ∀ {plugin : ℕ}, s.entry = none ∧ s.started = [plugin] → s.started.length ≤ 1 := by
    rintro plugin ⟨_, hstarted⟩
    simp [hstarted]
  cases task with
  | loadStoredConfig => exact Settled.single h
  | getAllPlugins => exact Settled.single h
  | listKeys => exact Settled.single h
  | takeEntry caller => exact h.1.single
  | stop caller plugin => exact hone h.1
  | upsertPlugin => simp [h.2]
  | updateStopped => simp [h.2]
  | factory caller => exact h.1.1.single
  | initializePlugin caller plugin => exact h.1.1.single
  | start caller plugin => exact h.1.1.single
  | updateRunning caller plugin => exact hone h.1
  | insertEntry plugin => exact hone h.1
  | updateError dropped =>
      cases dropped with
      | none => exact h.1.single
      | some plugin => exact hone h

theorem Orderly.consistent (h : s.Orderly) : s.Consistent := by
  cases h with
  | idle _ settled => exact settled.consistent
  | busy task tasks during =>
      refine consistent_of_busy ?_ during.single
      rw [tasks]
      exact List.cons_ne_nil _ _

theorem settled_of_off (hentry : s.entry = none) (hstarted : s.started = [])
    (hrow : s.rowRunning = true → s.stoppedBy = some .shutdownForUser) : s.Settled where
  started := by
    rw [hentry, hstarted]
    rfl
  row h := by
    rw [hentry] at h
    cases h
  stopped hrunning _ := hrow hrunning

theorem Settled.started_nil (h : s.Settled) (hentry : s.entry = none) : s.started = [] := by
  rw [h.started, hentry]
  rfl

theorem updatePluginStatus_some {ok : Bool} {f : ChannelPluginRow → ChannelPluginRow}
    {s' : ChannelManager} (h : s.updatePluginStatus ok f = some s') :
    ok = true ∧ ∃ row, s.row = some row ∧ s' = { s with row := some (f row) } := by
  cases ok with
  | false => cases h
  | true =>
      obtain ⟨row, hrow, heq⟩ := Option.map_eq_some_iff.mp h
      exact ⟨rfl, row, hrow, heq.symm⟩

theorem updatePluginStatus_none {ok : Bool} {f : ChannelPluginRow → ChannelPluginRow}
    (h : s.updatePluginStatus ok f = none) : ok = false ∨ s.row = none := by
  cases ok with
  | false => exact Or.inl rfl
  | true => exact Or.inr (Option.map_eq_none_iff.mp h)

theorem row_of_enabled (h : s.rowEnabled = true) : ∃ row, s.row = some row ∧ row.enabled = true :=
  (Option.any_eq_true _ _).mp h

theorem reached_afterStop {caller : PluginOp} (hcaller : caller ≠ .restorePlugins)
    (hentry : s.entry = none) (hstarted : s.started = [])
    (hshutdown : caller = .shutdownForUser → s.Settled) : s.Reached caller.afterStop := by
  cases caller with
  | enablePlugin => exact ⟨hentry, hstarted⟩
  | disablePlugin => exact ⟨hentry, hstarted⟩
  | restorePlugins => exact absurd rfl hcaller
  | shutdownForUser => exact hshutdown rfl

theorem reached_takeEntry {caller : PluginOp} {ok : Bool} (h : s.During (.takeEntry caller)) :
    (s.perform (.takeEntry caller) ok).1.Reached (s.perform (.takeEntry caller) ok).2 := by
  obtain ⟨hsettled, hcaller⟩ := h
  cases hentry : s.entry with
  | none =>
      simp only [perform, hentry]
      exact reached_afterStop hcaller hentry (hsettled.started_nil hentry) fun _ ↦ hsettled
  | some plugin =>
      simp only [perform, hentry]
      refine ⟨⟨rfl, ?_⟩, hcaller⟩
      change s.started = [plugin]
      rw [hsettled.started, hentry]
      rfl

theorem reached_stop {caller : PluginOp} {plugin : ℕ} {ok : Bool}
    (h : s.During (.stop caller plugin)) :
    (s.perform (.stop caller plugin) ok).1.Reached (s.perform (.stop caller plugin) ok).2 := by
  obtain ⟨⟨hentry, hstarted⟩, hcaller⟩ := h
  have hnone : s.started.erase plugin = [] := by simp [hstarted]
  refine reached_afterStop hcaller hentry hnone ?_
  rintro rfl
  exact settled_of_off hentry hnone fun _ ↦ rfl

/-- A write that is answered after a stop, or not at all, leaves the key settled. -/
theorem reached_upsertPlugin {ok : Bool} (h : s.During .upsertPlugin)
    (hharmless : s.HarmlessAnswer ok .upsertPlugin) :
    (s.perform .upsertPlugin ok).1.Reached (s.perform .upsertPlugin ok).2 := by
  obtain ⟨hentry, hstarted⟩ := h
  cases ok with
  | true =>
      refine ⟨⟨settled_of_off hentry hstarted fun hrunning ↦ ?_, rfl⟩, fun _ ↦ hentry⟩
      cases hrunning
  | false => exact settled_of_off hentry hstarted (hharmless rfl)

theorem reached_updateStopped {ok : Bool} (h : s.During .updateStopped)
    (hharmless : s.HarmlessAnswer ok .updateStopped) :
    (s.perform .updateStopped ok).1.Reached (s.perform .updateStopped ok).2 := by
  obtain ⟨hentry, hstarted⟩ := h
  simp only [perform]
  cases hwrite : s.updatePluginStatus ok fun _ ↦ ⟨false, some .stopped⟩ with
  | none =>
      refine settled_of_off hentry hstarted ?_
      obtain rfl | hrow := updatePluginStatus_none hwrite
      · exact hharmless rfl
      · simp [rowRunning, hrow]
  | some s' =>
      obtain ⟨-, row, -, rfl⟩ := updatePluginStatus_some hwrite
      refine settled_of_off hentry hstarted fun hrunning ↦ ?_
      cases hrunning

theorem reached_getAllPlugins {ok : Bool} (h : s.During .getAllPlugins) :
    (s.perform .getAllPlugins ok).1.Reached (s.perform .getAllPlugins ok).2 := by
  simp only [perform]
  split
  · next hlisted =>
      rw [Bool.and_eq_true] at hlisted
      exact ⟨⟨h, hlisted.2⟩, fun hcaller ↦ by cases hcaller⟩
  · exact h

theorem reached_factory {caller : PluginOp} {ok : Bool} (h : s.During (.factory caller)) :
    (s.perform (.factory caller) ok).1.Reached (s.perform (.factory caller) ok).2 := by
  obtain ⟨⟨hsettled, henabled⟩, hentry⟩ := h
  cases ok with
  | true => exact ⟨⟨⟨hsettled.started, hsettled.row, hsettled.stopped⟩, henabled⟩, hentry⟩
  | false =>
      cases caller with
      | enablePlugin => exact hsettled
      | _ => exact ⟨hsettled, henabled⟩

theorem reached_start {caller : PluginOp} {plugin : ℕ} {ok : Bool}
    (h : s.During (.start caller plugin)) (hharmless : s.HarmlessAnswer ok (.start caller plugin)) :
    (s.perform (.start caller plugin) ok).1.Reached (s.perform (.start caller plugin) ok).2 := by
  obtain ⟨⟨hsettled, henabled⟩, -⟩ := h
  cases ok with
  | true =>
      have hentry := hharmless rfl
      refine ⟨⟨hentry, ?_⟩, henabled⟩
      change s.started ++ [plugin] = [plugin]
      rw [hsettled.started_nil hentry, List.nil_append]
  | false => exact ⟨hsettled, henabled⟩

theorem reached_updateRunning {caller : PluginOp} {plugin : ℕ} {ok : Bool}
    (h : s.During (.updateRunning caller plugin))
    (hharmless : s.HarmlessAnswer ok (.updateRunning caller plugin)) :
    (s.perform (.updateRunning caller plugin) ok).1.Reached
      (s.perform (.updateRunning caller plugin) ok).2 := by
  obtain ⟨hrunning, henabled⟩ := h
  obtain ⟨row, hrow, hon⟩ := row_of_enabled henabled
  simp only [perform]
  cases hwrite : s.updatePluginStatus ok fun row ↦ { row with status := some .running } with
  | none =>
      obtain rfl | hnone := updatePluginStatus_none hwrite
      · cases caller with
        | enablePlugin => cases hharmless
        | _ => exact hrunning
      · rw [hrow] at hnone
        cases hnone
  | some s' =>
      obtain ⟨-, row', hrow', rfl⟩ := updatePluginStatus_some hwrite
      rw [hrow] at hrow'
      cases hrow'
      exact ⟨hrunning, by simp [rowEnabled, hon], by simp [rowRunning]⟩

theorem reached_insertEntry {plugin : ℕ} {ok : Bool} (h : s.During (.insertEntry plugin)) :
    (s.perform (.insertEntry plugin) ok).1.Reached (s.perform (.insertEntry plugin) ok).2 := by
  obtain ⟨⟨-, hstarted⟩, henabled, hrunning⟩ := h
  refine ⟨hstarted, fun _ ↦ ⟨henabled, hrunning⟩, fun _ hnone ↦ ?_⟩
  cases hnone

theorem reached_updateError {dropped : Option ℕ} {ok : Bool}
    (h : s.During (.updateError dropped)) (hharmless : s.HarmlessAnswer ok (.updateError dropped)) :
    (s.perform (.updateError dropped) ok).1.Reached (s.perform (.updateError dropped) ok).2 := by
  cases dropped with
  | some plugin => cases hharmless
  | none =>
      obtain ⟨hsettled, -⟩ := h
      simp only [perform]
      cases hwrite : s.updatePluginStatus ok fun row ↦ { row with status := some .error } with
      | none => exact hsettled
      | some s' =>
          obtain ⟨rfl, row, hrow, rfl⟩ := updatePluginStatus_some hwrite
          have hentry := hharmless rfl
          refine settled_of_off hentry (hsettled.started_nil hentry) fun hrunning ↦ ?_
          cases hrunning

theorem reached_listKeys {ok : Bool} (h : s.During .listKeys) :
    (s.perform .listKeys ok).1.Reached (s.perform .listKeys ok).2 := by
  simp only [perform]
  split
  · exact ⟨h, by decide⟩
  · exact h

theorem reached_perform {task : PluginTask} {ok : Bool} (hduring : s.During task)
    (hharmless : s.HarmlessAnswer ok task) :
    (s.perform task ok).1.Reached (s.perform task ok).2 := by
  cases task with
  | loadStoredConfig =>
      cases ok with
      | true => exact ⟨hduring, by decide⟩
      | false => exact hduring
  | takeEntry caller => exact reached_takeEntry hduring
  | stop caller plugin => exact reached_stop hduring
  | upsertPlugin => exact reached_upsertPlugin hduring hharmless
  | getAllPlugins => exact reached_getAllPlugins hduring
  | factory caller => exact reached_factory hduring
  | initializePlugin caller plugin =>
      cases ok with
      | true => exact hduring
      | false => exact hduring.1
  | start caller plugin => exact reached_start hduring hharmless
  | updateRunning caller plugin => exact reached_updateRunning hduring hharmless
  | insertEntry plugin => exact reached_insertEntry hduring
  | updateError dropped => exact reached_updateError hduring hharmless
  | updateStopped => exact reached_updateStopped hduring hharmless
  | listKeys => exact reached_listKeys hduring

theorem settled_tasks {tasks : List PluginTask} :
    ({ s with tasks := tasks } : ChannelManager).Settled ↔ s.Settled :=
  ⟨fun h ↦ ⟨h.started, h.row, h.stopped⟩, fun h ↦ ⟨h.started, h.row, h.stopped⟩⟩

theorem during_tasks {tasks : List PluginTask} {task : PluginTask} :
    ({ s with tasks := tasks } : ChannelManager).During task ↔ s.During task := by
  cases task with
  | updateError dropped => cases dropped <;> simp only [During, settled_tasks]; exact Iff.rfl
  | _ => simp only [During, settled_tasks] <;> exact Iff.rfl

theorem orderly_of_reached {next : Option PluginTask} (h : s.Reached next) :
    ({ s with tasks := next.toList } : ChannelManager).Orderly := by
  cases next with
  | none => exact .idle rfl (settled_tasks.mpr h)
  | some task => exact .busy task rfl (during_tasks.mpr h)

theorem during_begin (h : s.Settled) (op : PluginOp) : s.During op.begin := by
  cases op with
  | disablePlugin => exact ⟨h, by decide⟩
  | _ => exact h

theorem step_busy {task : PluginTask} (htasks : s.tasks = [task]) (ok : Bool) :
    s.step (.advance 0 ok) =
      { (s.perform task ok).1 with tasks := (s.perform task ok).2.toList } := by
  have hget : s.tasks[0]? = some task := by simp [htasks]
  simp only [step, hget]
  cases (s.perform task ok).2 with
  | none => simp [htasks]
  | some next => simp [htasks]

theorem step_absent {index : ℕ} (h : s.tasks[index]? = none) (ok : Bool) :
    s.step (.advance index ok) = s := by
  simp only [step, h]

theorem orderly_step (h : s.Orderly) {a : PluginStep} (hpremise : s.OneAtATime a)
    (hharmless : s.Harmless a) : (s.step a).Orderly := by
  cases a with
  | begin op =>
      have hsettled := settled_of_idle h hpremise
      refine .busy op.begin ?_ (during_tasks.mpr (during_begin hsettled op))
      change s.tasks ++ [op.begin] = [op.begin]
      rw [hpremise, List.nil_append]
  | advance index ok =>
      cases hget : s.tasks[index]? with
      | none =>
          rw [step_absent hget]
          exact h
      | some task =>
          cases h with
          | idle tasks _ => simp [tasks] at hget
          | busy task' tasks during =>
              cases index with
              | succ index => simp [tasks] at hget
              | zero =>
                  have heq : task' = task := by simpa [tasks] using hget
                  subst heq
                  rw [step_busy tasks]
                  exact orderly_of_reached (reached_perform during (hharmless task' hget))

theorem harmlessAnswer_of_consistent {task : PluginTask} {ok : Bool} (hduring : s.During task)
    (hafter : ({ (s.perform task ok).1 with tasks := (s.perform task ok).2.toList } :
      ChannelManager).Consistent) : s.HarmlessAnswer ok task := by
  cases task with
  | start caller plugin =>
      rintro rfl
      by_contra hentry
      obtain ⟨other, hother⟩ := Option.ne_none_iff_exists'.mp hentry
      have hsingle := hafter.single
      have hstarted : s.started = [other] := by rw [hduring.1.1.started, hother]; rfl
      simp [perform, hstarted] at hsingle
  | upsertPlugin =>
      rintro rfl hrunning
      exact hafter.stopped rfl hrunning hduring.1
  | updateStopped =>
      rintro rfl hrunning
      exact hafter.stopped rfl hrunning hduring.1
  | updateRunning caller plugin =>
      cases caller with
      | enablePlugin =>
          change ok = true
          by_contra hfailed
          rw [Bool.not_eq_true] at hfailed
          subst hfailed
          have hheld := hafter.held rfl plugin (by simp [perform, updatePluginStatus, hduring.1.2])
          have hnone : s.entry = some plugin := hheld
          rw [hduring.1.1] at hnone
          cases hnone
      | _ => trivial
  | updateError dropped =>
      cases dropped with
      | none =>
          rintro rfl
          by_contra hentry
          obtain ⟨row, hrow, -⟩ := row_of_enabled hduring.2
          have hrunning := hafter.running rfl
          simp [perform, updatePluginStatus, hrow, rowRunning,
            Option.isSome_iff_ne_none.mpr hentry] at hrunning
      | some plugin =>
          obtain ⟨hentry, hstarted⟩ := hduring
          have hwrite : ∀ s' : ChannelManager,
              s.updatePluginStatus ok (fun row ↦ { row with status := some .error }) = some s' →
              s'.entry = s.entry ∧ s'.started = s.started := by
            intro s' h
            obtain ⟨-, row, -, rfl⟩ := updatePluginStatus_some h
            exact ⟨rfl, rfl⟩
          have hheld := hafter.held rfl
          simp only [perform] at hheld
          cases hs' : s.updatePluginStatus ok fun row ↦ { row with status := some .error } with
          | none =>
              simp [hs', hentry, hstarted] at hheld
          | some s' =>
              obtain ⟨hentry', hstarted'⟩ := hwrite s' hs'
              simp [hs', hentry', hstarted', hentry, hstarted] at hheld
  | _ => trivial

theorem harmless_of_consistent (h : s.Orderly) {a : PluginStep}
    (hafter : (s.step a).Consistent) : s.Harmless a := by
  cases a with
  | begin op => trivial
  | advance index ok =>
      intro task htask
      cases h with
      | idle tasks _ => simp [tasks] at htask
      | busy task' tasks during =>
          cases index with
          | succ index => simp [tasks] at htask
          | zero =>
              have heq : task' = task := by simpa [tasks] using htask
              subst heq
              rw [step_busy tasks] at hafter
              exact harmlessAnswer_of_consistent during hafter

theorem orderly_initial (h : s.Initial) : s.Orderly := by
  refine .idle h.tasks (settled_of_off h.entry h.started fun hrunning ↦ h.row ?_)
  obtain ⟨row, hrow, hstatus⟩ := (Option.any_eq_true _ _).mp hrunning
  simpa [hrow] using hstatus

def leftRunning : ChannelManager where
  row := some ⟨true, some .running⟩
  entry := none
  started := []
  created := 0
  stoppedBy := some .shutdownForUser
  tasks := []

theorem initial_leftRunning : leftRunning.Initial where
  entry := rfl
  started := rfl
  tasks := rfl
  row _ := rfl

def restoredThenDisabled : List PluginStep :=
  [.begin .restorePlugins, .advance 0 true, .advance 0 true, .advance 0 true, .advance 0 true,
    .advance 0 true, .advance 0 true, .begin .disablePlugin, .advance 0 true, .advance 0 true,
    .advance 0 true]

end ChannelManager

end Zaowutai.Channel
