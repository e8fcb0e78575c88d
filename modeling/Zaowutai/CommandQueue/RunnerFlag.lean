import Zaowutai.CommandQueue.BackgroundRunner

/-!
# The executing flag of a runner

The flag of the registered runner says whether an execution is under way.  When
a conversation is mounted again in the middle of an execution, the new runner
takes the flag over, but the end of the execution clears it at the old runner
only.
-/

namespace Zaowutai.CommandQueue.BackgroundQueues

open Zaowutai.Lib

variable {s s' : BackgroundQueues} {c c' : String} {r : ℕ}

/-- The executions under way that runners of the conversation have started. -/
def pendingOf (s : BackgroundQueues) (c : String) : List Execution :=
  s.pending.filter fun e ↦ (s.objects e.runner).conversationId = c

def flag (s : BackgroundQueues) (c : String) : Option Bool :=
  (s.backgroundRunners.lookup c).map fun r ↦ (s.objects r).executing

/-- At most one execution is under way, and the registered runner says whether one is. -/
structure SoundAt (s : BackgroundQueues) (c : String) : Prop where
  single : (s.pendingOf c).length ≤ 1
  exact : ∀ executing, s.flag c = some executing → (executing = true ↔ s.pendingOf c ≠ [])

def Resumes (s : BackgroundQueues) (c : String) : Prop :=
  ∀ r next rest (view : RuntimeView), s.backgroundRunners.lookup c = some r →
    (s.objects r).active = false → s.pendingOf c = [] → (s.queue c).items = next :: rest →
      (s.queue c).isPaused = false → (s.queue c).mode = .auto → view.sendable →
        (s.turnCompleted c view).pendingOf c = [⟨r, next⟩]

structure Wellformed (s : BackgroundQueues) : Prop where
  registered : ∀ c r, s.backgroundRunners.lookup c = some r →
    (s.objects r).conversationId = c ∧ r < s.created
  listening : ∀ c r, s.backgroundRunners.lookup c = some r → s.listening = true
  inactive : ∀ e ∈ s.pending, (s.objects e.runner).active = false ∧ e.runner < s.created

theorem flag_eq_some (h : s.backgroundRunners.lookup c = some r) :
    s.flag c = some (s.objects r).executing := by
  rw [flag, h, Option.map_some]

theorem SoundAt.congr (h : s.SoundAt c) (hpending : s'.pendingOf c = s.pendingOf c)
    (hflag : s'.flag c = s.flag c) : s'.SoundAt c where
  single := hpending ▸ h.single
  exact executing hexecuting := by
    rw [hpending]
    exact h.exact executing (hflag ▸ hexecuting)

theorem soundAt_congr (hpending : s'.pendingOf c = s.pendingOf c) (hflag : s'.flag c = s.flag c) :
    s'.SoundAt c ↔ s.SoundAt c :=
  ⟨fun h ↦ h.congr hpending.symm hflag.symm, fun h ↦ h.congr hpending hflag⟩

section Primitives

theorem pendingOf_congr (hpending : s'.pending = s.pending)
    (hconversation : ∀ e ∈ s.pending,
      (s'.objects e.runner).conversationId = (s.objects e.runner).conversationId) :
    s'.pendingOf c = s.pendingOf c := by
  rw [pendingOf, pendingOf, hpending]
  exact List.filter_congr fun e he ↦ by rw [hconversation e he]

theorem flag_deleteRunner : (s.deleteRunner c).flag c' = if c' = c then none else s.flag c' := by
  rw [flag]
  change ((s.backgroundRunners.erase c).lookup c').map _ = _
  rw [Table.lookup_erase_eq]
  split <;> rfl

@[simp] theorem conversationId_setExecuting (b : Bool) (r' : ℕ) :
    ((s.setExecuting r b).objects r').conversationId = (s.objects r').conversationId := by
  simp only [setExecuting, Function.update_apply]
  split
  · next h => rw [h]
  · rfl

@[simp] theorem active_setExecuting (b : Bool) (r' : ℕ) :
    ((s.setExecuting r b).objects r').active = (s.objects r').active := by
  simp only [setExecuting, Function.update_apply]
  split
  · next h => rw [h]
  · rfl

theorem executing_setExecuting (b : Bool) (r' : ℕ) :
    ((s.setExecuting r b).objects r').executing =
      if r' = r then b else (s.objects r').executing := by
  simp only [setExecuting, Function.update_apply]
  split <;> rfl

theorem flag_setExecuting (b : Bool) : (s.setExecuting r b).flag c =
    if s.backgroundRunners.lookup c = some r then some b else s.flag c := by
  rw [flag]
  change (s.backgroundRunners.lookup c).map _ = _
  cases hlookup : s.backgroundRunners.lookup c with
  | none => simp [flag, hlookup]
  | some r' =>
      rw [Option.map_some, executing_setExecuting, flag_eq_some hlookup]
      by_cases hr : r' = r
      · simp [hr]
      · simp [hr]

theorem Wellformed.lookup_ne (h : s.Wellformed) (hne : c ≠ (s.objects r).conversationId) :
    s.backgroundRunners.lookup c ≠ some r :=
  fun hlookup ↦ hne (h.registered c r hlookup).1.symm

theorem Wellformed.deleteRunner (h : s.Wellformed) : (s.deleteRunner c).Wellformed := by
  have hlookup : ∀ c' r, (s.deleteRunner c).backgroundRunners.lookup c' = some r →
      s.backgroundRunners.lookup c' = some r := by
    intro c' r hr
    replace hr := (Table.lookup_erase_eq (m := s.backgroundRunners) (k := c)).symm.trans hr
    split at hr
    · cases hr
    · exact hr
  refine ⟨fun c' r hr ↦ h.registered c' r (hlookup c' r hr), fun c' r hr ↦ ?_, h.inactive⟩
  change (if (s.backgroundRunners.erase c).entries = [] then false else s.listening) = true
  rw [if_neg, h.listening c' r (hlookup c' r hr)]
  intro hempty
  have hmem := Table.mem_entries_iff.mpr hr
  exact absurd (hempty ▸ hmem) List.not_mem_nil

theorem Wellformed.setExecuting (h : s.Wellformed) (b : Bool) : (s.setExecuting r b).Wellformed where
  registered c r' hr' := by
    rw [conversationId_setExecuting]
    exact h.registered c r' hr'
  listening := h.listening
  inactive e he := by
    rw [active_setExecuting]
    exact h.inactive e he

end Primitives

section Drain

/-- A runner that is not executing goes on: it leaves the registry, or it starts a command. -/
def Drains (s : BackgroundQueues) (c : String) : Prop :=
  (s.queue c).items = [] ∨
    (s.queue c).isPaused = false ∧ (s.queue c).mode = .auto ∧ (s.views c).sendable = true

def started (s : BackgroundQueues) (r : ℕ) (next : ConversationCommandQueueItem)
    (store : QueueStore) : BackgroundQueues :=
  { s.setExecuting r true with
    store
    pending := s.pending ++ [⟨r, next⟩] }

theorem drain_of_busy (h : (s.objects r).active = true ∨ (s.objects r).executing = true) :
    s.drain r = s :=
  if_pos h

theorem drain_cases (hc : (s.objects r).conversationId = c) (hactive : (s.objects r).active = false)
    (hexecuting : (s.objects r).executing = false) :
    (s.drain r = s ∧ ¬s.Drains c) ∨
      (s.drain r = s.deleteRunner c ∧ (s.queue c).items = []) ∨
      ∃ next rest, s.drain r =
          s.started r next (persistQueueState s.store c ⟨rest, false, (s.queue c).mode⟩) ∧
        s.Drains c ∧ (s.queue c).items = next :: rest := by
  have hidle : ¬((s.objects r).active = true ∨ (s.objects r).executing = true) := by
    simp [hactive, hexecuting]
  simp only [drain, if_neg hidle, hc]
  cases hitems : (s.queue c).items with
  | nil => exact .inr (.inl ⟨rfl, rfl⟩)
  | cons next rest =>
      by_cases hpaused : (s.queue c).isPaused = true ∨ (s.queue c).mode = .manual
      · refine .inl ⟨if_pos hpaused, ?_⟩
        rintro (hempty | ⟨hresumed, hauto, -⟩)
        · simp [hitems] at hempty
        · simp [hresumed, hauto] at hpaused
      · simp only [if_neg hpaused]
        by_cases hview : (s.views c).sendable = true
        · have hauto : (s.queue c).mode = .auto := by
            cases hmode : (s.queue c).mode with
            | auto => rfl
            | manual => simp [hmode] at hpaused
          refine .inr (.inr ⟨next, rest, ?_, .inr ⟨?_, hauto, hview⟩, rfl⟩)
          · rw [if_neg (by simp [hview])]
            rfl
          · simpa [hauto] using hpaused
        · refine .inl ⟨by simp [hview], ?_⟩
          rintro (hempty | ⟨-, -, hsendable⟩)
          · simp [hitems] at hempty
          · exact hview hsendable

variable {next : ConversationCommandQueueItem} {store : QueueStore}

theorem pendingOf_started : (s.started r next store).pendingOf c =
    if (s.objects r).conversationId = c then s.pendingOf c ++ [⟨r, next⟩] else s.pendingOf c := by
  have hconversation : ∀ e : Execution,
      ((s.started r next store).objects e.runner).conversationId =
        (s.objects e.runner).conversationId := fun e ↦ conversationId_setExecuting true e.runner
  have hfilter : (s.started r next store).pendingOf c =
      (s.pending ++ [(⟨r, next⟩ : Execution)]).filter fun e ↦
        (s.objects e.runner).conversationId = c :=
    List.filter_congr fun e _ ↦ by rw [hconversation]
  rw [hfilter, List.filter_append]
  split
  · next h => simp [h, pendingOf]
  · next h => simp [h, pendingOf]

theorem flag_started : (s.started r next store).flag c =
    if s.backgroundRunners.lookup c = some r then some true else s.flag c :=
  flag_setExecuting true

theorem drain_soundAt_of_ne (hs : s.Wellformed) (hne : c ≠ (s.objects r).conversationId) :
    (s.drain r).SoundAt c ↔ s.SoundAt c := by
  by_cases hbusy : (s.objects r).active = true ∨ (s.objects r).executing = true
  · rw [drain_of_busy hbusy]
  · rw [not_or, Bool.not_eq_true, Bool.not_eq_true] at hbusy
    rcases drain_cases rfl hbusy.1 hbusy.2 with ⟨h, -⟩ | ⟨h, -⟩ | ⟨next, rest, h, -⟩
    · rw [h]
    · rw [h]
      refine soundAt_congr rfl ?_
      rw [flag_deleteRunner, if_neg hne]
    · rw [h]
      refine soundAt_congr ?_ ?_
      · rw [pendingOf_started, if_neg hne.symm]
      · rw [flag_started, if_neg (hs.lookup_ne hne)]

theorem drain_soundAt_iff (hc : (s.objects r).conversationId = c)
    (hactive : (s.objects r).active = false) (hexecuting : (s.objects r).executing = false)
    (hpending : s.pendingOf c = []) (hflag : ∀ executing, s.flag c = some executing →
      executing = true ∨ s.backgroundRunners.lookup c = some r) :
    (s.drain r).SoundAt c ↔ s.SoundAt c ∨ s.Drains c := by
  rcases drain_cases hc hactive hexecuting with ⟨h, hstop⟩ | ⟨h, hempty⟩ | ⟨next, rest, h, hgo, -⟩
  · rw [h, or_iff_left hstop]
  · rw [h]
    refine iff_of_true ⟨hpending ▸ Nat.zero_le 1, ?_⟩ (.inr (.inl hempty))
    rw [flag_deleteRunner, if_pos rfl]
    exact fun _ hnone ↦ nomatch hnone
  · rw [h]
    have hone : ∀ store, (s.started r next store).pendingOf c = [⟨r, next⟩] := fun store ↦ by
      rw [pendingOf_started, if_pos hc, hpending, List.nil_append]
    refine iff_of_true ⟨(hone _).symm ▸ le_rfl, fun executing hset ↦ ?_⟩ (.inr hgo)
    rw [hone]
    rw [flag_started] at hset
    refine iff_of_true ?_ (by simp)
    split at hset
    · exact (Option.some.inj hset).symm
    · next hother => exact (hflag executing hset).resolve_right hother

theorem Wellformed.drain (hs : s.Wellformed) (hr : r < s.created) : (s.drain r).Wellformed := by
  by_cases hbusy : (s.objects r).active = true ∨ (s.objects r).executing = true
  · rw [drain_of_busy hbusy]
    exact hs
  · rw [not_or, Bool.not_eq_true, Bool.not_eq_true] at hbusy
    rcases drain_cases rfl hbusy.1 hbusy.2 with ⟨h, -⟩ | ⟨h, -⟩ | ⟨next, rest, h, -⟩
    · rw [h]
      exact hs
    · rw [h]
      exact hs.deleteRunner
    · rw [h]
      have hset : (s.setExecuting r true).Wellformed := hs.setExecuting true
      refine ⟨hset.registered, hset.listening, fun e he ↦ ?_⟩
      rcases List.mem_append.mp he with he | he
      · exact hset.inactive e he
      · obtain rfl := List.mem_singleton.mp he
        exact ⟨(active_setExecuting true r).trans hbusy.1, hr⟩

end Drain

def Sound (s : BackgroundQueues) : Prop := ∀ c, s.SoundAt c

section Register

theorem Wellformed.register (hs : s.Wellformed) : (s.register c).Wellformed := by
  have hold : ∀ {r}, r < s.created → (s.register c).objects r = s.objects r := fun h ↦
    Function.update_of_ne h.ne _ _
  refine ⟨fun c' r hr ↦ ?_, fun _ _ _ ↦ rfl, fun e he ↦ ?_⟩
  · replace hr := (Table.lookup_insert_eq (m := s.backgroundRunners) s.created).symm.trans hr
    split at hr
    · next heq =>
        obtain rfl := Option.some.inj hr
        refine ⟨?_, Nat.lt_succ_self s.created⟩
        simp [BackgroundQueues.register, heq]
    · obtain ⟨hconversation, hlt⟩ := hs.registered c' r hr
      rw [hold hlt]
      exact ⟨hconversation, Nat.lt_succ_of_lt hlt⟩
  · obtain ⟨hactive, hlt⟩ := hs.inactive e he
    rw [hold hlt]
    exact ⟨hactive, Nat.lt_succ_of_lt hlt⟩

theorem pendingOf_register (hs : s.Wellformed) : (s.register c).pendingOf c' = s.pendingOf c' := by
  refine pendingOf_congr rfl fun e he ↦ ?_
  have hne : e.runner ≠ s.created := (hs.inactive e he).2.ne
  simp [register, hne]

theorem flag_register (hs : s.Wellformed) : (s.register c).flag c' =
    if c' = c then some ((s.flag c).getD false) else s.flag c' := by
  rw [flag]
  change ((s.backgroundRunners.insert c s.created).lookup c').map _ = _
  rw [Table.lookup_insert_eq]
  split
  · rw [Option.map_some]
    cases hlookup : s.backgroundRunners.lookup c <;> simp [register, flag, hlookup]
  · cases hlookup : s.backgroundRunners.lookup c' with
    | none => simp [flag, hlookup]
    | some r =>
        have hne : r ≠ s.created := (hs.registered c' r hlookup).2.ne
        simp [register, flag, hlookup, hne]

theorem register_sound_iff (hs : s.Wellformed) (hsound : s.Sound) : (s.register c).Sound ↔
    (s.backgroundRunners.lookup c = none → s.pendingOf c = []) := by
  constructor
  · intro h hnone
    by_contra hpending
    have hflag : (s.register c).flag c = some false := by
      rw [flag_register hs, if_pos rfl, flag, hnone]
      rfl
    have hfalse := ((h c).exact false hflag).mpr (by rwa [pendingOf_register hs])
    cases hfalse
  · intro h c'
    refine ⟨by simpa only [pendingOf_register hs] using (hsound c').single, fun executing hset ↦ ?_⟩
    rw [pendingOf_register hs]
    rw [flag_register hs] at hset
    split at hset
    · next heq =>
        subst heq
        cases hlookup : s.backgroundRunners.lookup c' with
        | none =>
            obtain rfl : false = executing := by simpa [flag, hlookup] using hset
            simp [h hlookup]
        | some r =>
            rw [flag_eq_some hlookup] at hset
            exact (hsound c').exact executing (by rw [flag_eq_some hlookup]; exact hset)
    · exact (hsound c').exact executing hset

end Register

section Detach

def deactivate (s : BackgroundQueues) (r : ℕ) : BackgroundQueues :=
  { s with objects := Function.update s.objects r { s.objects r with active := false } }

theorem objects_deactivate (r' : ℕ) : (s.deactivate r).objects r' =
    { s.objects r' with active := if r' = r then false else (s.objects r').active } := by
  simp only [deactivate, Function.update_apply]
  split
  · next h => rw [h]
  · rfl

theorem Wellformed.deactivate (hs : s.Wellformed) : (s.deactivate r).Wellformed where
  registered c r' hr' := by
    rw [objects_deactivate]
    exact hs.registered c r' hr'
  listening := hs.listening
  inactive e he := by
    rw [objects_deactivate]
    obtain ⟨hactive, hlt⟩ := hs.inactive e he
    exact ⟨by simp [hactive], hlt⟩

theorem deactivate_sound (hsound : s.Sound) : (s.deactivate r).Sound := by
  refine fun c ↦ (hsound c).congr ?_ ?_
  · exact pendingOf_congr rfl fun e _ ↦ by rw [objects_deactivate]
  · rw [flag, flag]
    exact congrArg (fun f ↦ (s.backgroundRunners.lookup c).map f)
      (funext fun r' ↦ by rw [objects_deactivate])

theorem drain_sound (hs : s.Wellformed) (hsound : s.Sound)
    (hlookup : s.backgroundRunners.lookup c = some r) : (s.drain r).Sound := by
  obtain ⟨hc, -⟩ := hs.registered c r hlookup
  intro c'
  by_cases hne : c' = c
  · subst hne
    by_cases hbusy : (s.objects r).active = true ∨ (s.objects r).executing = true
    · rw [drain_of_busy hbusy]
      exact hsound c'
    · rw [not_or, Bool.not_eq_true, Bool.not_eq_true] at hbusy
      have hpending : s.pendingOf c' = [] := by
        by_contra hsome
        have hset := ((hsound c').exact _ (flag_eq_some hlookup)).mpr hsome
        rw [hbusy.2] at hset
        cases hset
      exact (drain_soundAt_iff hc hbusy.1 hbusy.2 hpending fun _ _ ↦ .inr hlookup).mpr
        (.inl (hsound c'))
  · exact (drain_soundAt_of_ne hs (hc ▸ hne)).mpr (hsound c')

theorem deleteRunner_sound (hsound : s.Sound) : (s.deleteRunner c).Sound := by
  refine fun c' ↦ ⟨(hsound c').single, fun executing hset ↦ ?_⟩
  rw [flag_deleteRunner] at hset
  split at hset
  · cases hset
  · exact (hsound c').exact executing hset

theorem detach_cases : s.detach c = s ∨ s.detach c = s.deleteRunner c ∨
    ∃ r, s.backgroundRunners.lookup c = some r ∧ s.detach c = (s.deactivate r).drain r := by
  rw [detach]
  split
  · exact .inl rfl
  · next r hlookup =>
      by_cases hstop : (s.queue c).items = [] ∨ (s.queue c).isPaused = true ∨
          (s.queue c).mode = .manual
      · exact .inr (.inl (if_pos hstop))
      · exact .inr (.inr ⟨r, hlookup, if_neg hstop⟩)

theorem detach_sound (hs : s.Wellformed) (hsound : s.Sound) : (s.detach c).Sound := by
  obtain h | h | ⟨r, hlookup, h⟩ := detach_cases (s := s) (c := c)
  · rw [h]
    exact hsound
  · rw [h]
    exact deleteRunner_sound hsound
  · rw [h]
    exact drain_sound hs.deactivate (deactivate_sound hsound) hlookup

theorem Wellformed.detach (hs : s.Wellformed) : (s.detach c).Wellformed := by
  obtain h | h | ⟨r, hlookup, h⟩ := detach_cases (s := s) (c := c)
  · rw [h]
    exact hs
  · rw [h]
    exact hs.deleteRunner
  · rw [h]
    exact hs.deactivate.drain (hs.registered c r hlookup).2

end Detach

section TurnCompleted

def viewed (s : BackgroundQueues) (c : String) (view : RuntimeView) : BackgroundQueues :=
  { s with views := Function.update s.views c view }

theorem turnCompleted_cases (view : RuntimeView) : s.turnCompleted c view = s ∨
    ∃ r, s.backgroundRunners.lookup c = some r ∧
      s.turnCompleted c view = (s.viewed c view).drain r := by
  rw [turnCompleted]
  split
  · exact .inl rfl
  · cases hlookup : s.backgroundRunners.lookup c with
    | none => exact .inl rfl
    | some r =>
        by_cases hactive : (s.objects r).active = true
        · exact .inl (if_pos hactive)
        · exact .inr ⟨r, rfl, if_neg hactive⟩

theorem Wellformed.viewed (hs : s.Wellformed) (view : RuntimeView) : (s.viewed c view).Wellformed :=
  ⟨hs.registered, hs.listening, hs.inactive⟩

theorem turnCompleted_sound (hs : s.Wellformed) (hsound : s.Sound) (view : RuntimeView) :
    (s.turnCompleted c view).Sound := by
  obtain h | ⟨r, hlookup, h⟩ := turnCompleted_cases (s := s) (c := c) view
  · rw [h]
    exact hsound
  · rw [h]
    exact drain_sound (hs.viewed view) (fun c' ↦ (hsound c').congr rfl rfl) hlookup

theorem Wellformed.turnCompleted (hs : s.Wellformed) (view : RuntimeView) :
    (s.turnCompleted c view).Wellformed := by
  obtain h | ⟨r, hlookup, h⟩ := turnCompleted_cases (s := s) (c := c) view
  · rw [h]
    exact hs
  · rw [h]
    exact (hs.viewed view).drain (hs.registered c r hlookup).2

/-- The law lets no detached conversation wait for ever. -/
theorem SoundAt.resumes (h : s.SoundAt c) (hs : s.Wellformed) : s.Resumes c := by
  intro r next rest view hlookup hactive hpending hitems hresumed hauto hview
  obtain ⟨hc, -⟩ := hs.registered c r hlookup
  have hidle : (s.objects r).executing = false := by
    rw [← Bool.not_eq_true, h.exact _ (flag_eq_some hlookup)]
    exact not_not.mpr hpending
  have hdrain : s.turnCompleted c view = (s.viewed c view).drain r := by
    rw [turnCompleted, if_neg (by simp [hs.listening c r hlookup]), hlookup]
    exact if_neg (by simp [hactive])
  have hgo : (s.viewed c view).Drains c :=
    .inr ⟨hresumed, hauto, by simpa [viewed] using hview⟩
  rw [hdrain]
  rcases drain_cases (s := s.viewed c view) hc hactive hidle with
    ⟨-, hstop⟩ | ⟨-, hempty⟩ | ⟨next', rest', hstarted, -, hnext⟩
  · exact absurd hgo hstop
  · cases hitems.symm.trans hempty
  · obtain ⟨rfl, -⟩ := List.cons.inj (hitems.symm.trans hnext)
    have hconversation : ((s.viewed c view).objects r).conversationId = c := hc
    rw [hstarted, pendingOf_started, if_pos hconversation]
    change s.pendingOf c ++ _ = _
    rw [hpending, List.nil_append]

end TurnCompleted

section Settle

variable {e : Execution} {index : ℕ} {result : Settlement}

def without (s : BackgroundQueues) (index : ℕ) : BackgroundQueues :=
  { s with pending := s.pending.eraseIdx index }

def told (s : BackgroundQueues) (index : ℕ) (e : Execution) (store : QueueStore) :
    BackgroundQueues :=
  { s.without index with store }.setExecuting e.runner false

variable {store : QueueStore}

theorem pendingOf_told_eq (he : s.pending[index]? = some e) : ∃ before after,
    s.pending = before ++ e :: after ∧ ∀ c, (s.told index e store).pendingOf c =
      (before ++ after).filter fun e' ↦ (s.objects e'.runner).conversationId = c := by
  obtain ⟨hlt, rfl⟩ := List.getElem?_eq_some_iff.mp he
  refine ⟨s.pending.take index, s.pending.drop (index + 1), ?_, fun c ↦ ?_⟩
  · rw [← List.drop_eq_getElem_cons hlt, List.take_append_drop]
  · rw [← List.eraseIdx_eq_take_drop_succ]
    exact List.filter_congr fun e' _ ↦ by rw [told, conversationId_setExecuting]; rfl

theorem pendingOf_told_of_ne (he : s.pending[index]? = some e)
    (hne : c ≠ (s.objects e.runner).conversationId) :
    (s.told index e store).pendingOf c = s.pendingOf c := by
  obtain ⟨before, after, hsplit, htold⟩ := pendingOf_told_eq he
  rw [htold, pendingOf, hsplit, List.filter_append, List.filter_append,
    List.filter_cons_of_neg (by simpa using hne.symm)]

theorem pendingOf_told (he : s.pending[index]? = some e)
    (hsound : s.SoundAt (s.objects e.runner).conversationId) :
    (s.told index e store).pendingOf (s.objects e.runner).conversationId = [] := by
  obtain ⟨before, after, hsplit, htold⟩ := pendingOf_told_eq he
  have hsingle := hsound.single
  rw [pendingOf, hsplit, List.filter_append, List.filter_cons_of_pos (by simp), List.length_append,
    List.length_cons] at hsingle
  rw [htold, List.filter_append, List.append_eq_nil_iff]
  exact ⟨List.eq_nil_of_length_eq_zero (by omega), List.eq_nil_of_length_eq_zero (by omega)⟩

theorem flag_told : (s.told index e store).flag c =
    if s.backgroundRunners.lookup c = some e.runner then some false else s.flag c :=
  flag_setExecuting false

theorem Wellformed.told (hs : s.Wellformed) : (s.told index e store).Wellformed := by
  have hwithout : ({ s.without index with store } : BackgroundQueues).Wellformed :=
    ⟨hs.registered, hs.listening, fun e' he' ↦ hs.inactive e' (List.mem_of_mem_eraseIdx he')⟩
  exact hwithout.setExecuting false

def storeAfter (s : BackgroundQueues) (e : Execution) : Settlement → QueueStore
  | .resolved => s.store
  | .busy => (s.restore (s.objects e.runner).conversationId e.command false).store
  | .rejected => (s.restore (s.objects e.runner).conversationId e.command true).store

theorem settle_eq (he : s.pending[index]? = some e) : s.settle index result =
    if result = .busy then s.told index e (s.storeAfter e result)
    else (s.told index e (s.storeAfter e result)).drain e.runner := by
  rw [settle, he]
  cases result <;> rfl

def Replaced (s : BackgroundQueues) (e : Execution) : Prop :=
  ∃ r, s.backgroundRunners.lookup (s.objects e.runner).conversationId = some r ∧ r ≠ e.runner

def GoesOn (s : BackgroundQueues) (e : Execution) (result : Settlement) : Prop :=
  result ≠ .busy ∧
    { s with store := s.storeAfter e result }.Drains (s.objects e.runner).conversationId

theorem told_soundAt_iff (he : s.pending[index]? = some e) (hsound : s.Sound) :
    (s.told index e store).SoundAt (s.objects e.runner).conversationId ↔ ¬s.Replaced e := by
  have hmem : e ∈ s.pendingOf (s.objects e.runner).conversationId :=
    List.mem_filter.mpr ⟨List.mem_of_getElem? he, by simp⟩
  have hpending : (s.told index e store).pendingOf (s.objects e.runner).conversationId = [] :=
    pendingOf_told he (hsound _)
  constructor
  · rintro h ⟨r, hlookup, hne⟩
    have hold := ((hsound _).exact _ (flag_eq_some hlookup)).mpr (List.ne_nil_of_mem hmem)
    have hflag : (s.told index e store).flag (s.objects e.runner).conversationId = some true := by
      rw [flag_told, if_neg (by simp [hlookup, hne]), flag_eq_some hlookup, hold]
    exact (h.exact true hflag).mp rfl hpending
  · intro h
    refine ⟨hpending ▸ Nat.zero_le 1, fun executing hset ↦ ?_⟩
    rw [hpending]
    rw [flag_told] at hset
    split at hset
    · obtain rfl := Option.some.inj hset
      simp
    · next hother =>
        rw [flag, Option.map_eq_some_iff] at hset
        obtain ⟨r, hlookup, -⟩ := hset
        refine absurd ⟨r, hlookup, ?_⟩ h
        rintro rfl
        exact hother hlookup

theorem told_soundAt_of_ne (hs : s.Wellformed) (he : s.pending[index]? = some e)
    (hne : c ≠ (s.objects e.runner).conversationId) :
    (s.told index e store).SoundAt c ↔ s.SoundAt c := by
  refine soundAt_congr (pendingOf_told_of_ne he hne) ?_
  rw [flag_told, if_neg (hs.lookup_ne hne)]

/-- The settlement is safe unless a new runner has taken over the flag and the old one stops. -/
theorem settle_soundAt_iff (hs : s.Wellformed) (hsound : s.Sound)
    (he : s.pending[index]? = some e) :
    (s.settle index result).SoundAt (s.objects e.runner).conversationId ↔
      (s.Replaced e → s.GoesOn e result) := by
  rw [settle_eq he]
  by_cases hbusy : result = .busy
  · rw [if_pos hbusy, told_soundAt_iff he hsound]
    exact imp_congr_right fun _ ↦ (iff_false_intro fun h ↦ h.1 hbusy).symm
  · rw [if_neg hbusy]
    have hmem : e ∈ s.pendingOf (s.objects e.runner).conversationId :=
      List.mem_filter.mpr ⟨List.mem_of_getElem? he, by simp⟩
    have hflag : ∀ executing,
        (s.told index e (s.storeAfter e result)).flag (s.objects e.runner).conversationId =
          some executing → executing = true ∨
            s.backgroundRunners.lookup (s.objects e.runner).conversationId = some e.runner := by
      intro executing hset
      rw [flag_told] at hset
      split at hset
      · next hown => exact .inr hown
      · exact .inl (((hsound _).exact executing hset).mpr (List.ne_nil_of_mem hmem))
    have hactive := (hs.inactive e (List.mem_of_getElem? he)).1
    have hiff := drain_soundAt_iff (s := s.told index e (s.storeAfter e result)) (r := e.runner)
      (c := (s.objects e.runner).conversationId) (conversationId_setExecuting false e.runner)
      ((active_setExecuting false e.runner).trans hactive)
      ((executing_setExecuting false e.runner).trans (if_pos rfl)) (pendingOf_told he (hsound _))
      hflag
    refine hiff.trans ?_
    rw [told_soundAt_iff he hsound, ← imp_iff_not_or]
    exact imp_congr_right fun _ ↦ (and_iff_right hbusy).symm

theorem settle_sound_iff (hs : s.Wellformed) (hsound : s.Sound) (he : s.pending[index]? = some e) :
    (s.settle index result).Sound ↔ (s.Replaced e → s.GoesOn e result) := by
  rw [← settle_soundAt_iff hs hsound he]
  refine ⟨fun h ↦ h _, fun h c ↦ ?_⟩
  by_cases hc : c = (s.objects e.runner).conversationId
  · exact hc ▸ h
  · have htold : (s.told index e (s.storeAfter e result)).SoundAt c :=
      (told_soundAt_of_ne hs he hc).mpr (hsound c)
    rw [settle_eq he]
    split
    · exact htold
    · refine (drain_soundAt_of_ne hs.told ?_).mpr htold
      rwa [told, conversationId_setExecuting]

theorem Wellformed.settle (hs : s.Wellformed) : (s.settle index result).Wellformed := by
  cases he : s.pending[index]? with
  | none =>
      rw [BackgroundQueues.settle, he]
      exact hs
  | some e =>
      rw [settle_eq he]
      split
      · exact hs.told
      · exact hs.told.drain (hs.inactive e (List.mem_of_getElem? he)).2

end Settle

section Run

/-- A conversation without a runner is not mounted while one of its executions is under way, and
an execution does not settle under another runner that is registered by then, unless the old
runner can go on. -/
def FlagReturns (s : BackgroundQueues) : RunnerAction → Prop
  | .register c => s.backgroundRunners.lookup c = none → s.pendingOf c = []
  | .settle index result => ∀ e ∈ s.pending[index]?, s.Replaced e → s.GoesOn e result
  | .detach _ | .turnCompleted _ _ | .persist _ _ | .setView _ _ => True

theorem step_sound_iff (hs : s.Wellformed) (hsound : s.Sound) (a : RunnerAction) :
    (s.step a).Sound ↔ s.FlagReturns a := by
  cases a with
  | register c => exact register_sound_iff hs hsound
  | detach c => exact iff_of_true (detach_sound hs hsound) trivial
  | turnCompleted c view => exact iff_of_true (turnCompleted_sound hs hsound view) trivial
  | settle index result =>
      cases he : s.pending[index]? with
      | none =>
          have hstay : s.step (.settle index result) = s := by rw [step, settle, he]
          rw [hstay]
          exact iff_of_true hsound fun e hmem ↦ by simp [he] at hmem
      | some e =>
          refine (settle_sound_iff hs hsound he).trans ?_
          simp [FlagReturns, he]
  | persist c state => exact iff_of_true (fun c' ↦ (hsound c').congr rfl rfl) trivial
  | setView c view => exact iff_of_true (fun c' ↦ (hsound c').congr rfl rfl) trivial

theorem Wellformed.step (hs : s.Wellformed) (a : RunnerAction) : (s.step a).Wellformed := by
  cases a with
  | register c => exact hs.register
  | detach c => exact hs.detach
  | turnCompleted c view => exact hs.turnCompleted view
  | settle index result => exact hs.settle
  | persist c state => exact ⟨hs.registered, hs.listening, hs.inactive⟩
  | setView c view => exact ⟨hs.registered, hs.listening, hs.inactive⟩

theorem wellformed_new (store : QueueStore) (views : String → RuntimeView) :
    (new store views).Wellformed where
  registered _ _ h := nomatch h
  listening _ _ h := nomatch h
  inactive _ h := nomatch h

theorem sound_new (store : QueueStore) (views : String → RuntimeView) : (new store views).Sound :=
  fun _ ↦ ⟨Nat.zero_le 1, fun _ h ↦ nomatch h⟩

/-- The conversation is mounted again while its background execution is under way, and the turn is
still running when that settles. -/
def remountedWhileExecuting : List RunnerAction :=
  [.persist "c" ⟨[⟨"1", "first", [], none, 0⟩, ⟨"2", "second", [], none, 1⟩], false, .auto⟩,
    .register "c", .detach "c", .register "c", .setView "c" ⟨true, false, true⟩,
    .settle 0 .resolved]

end Run

end Zaowutai.CommandQueue.BackgroundQueues
