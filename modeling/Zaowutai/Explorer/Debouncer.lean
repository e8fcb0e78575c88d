import Zaowutai.Explorer.Drive

/-!
# The debouncer

A burst of watcher events is collapsed per directory into one command: an
overflow is a rescan, which covers any child, and the children of the other
events are put together.
-/

namespace Zaowutai.Explorer

open Zaowutai.Lib

/-- The last component of a path, unless it is `..`. -/
def fileName (path : String) : Option String :=
  match ((path.toList.splitOn '/').filter fun part ↦ part ≠ [] ∧ part ≠ ['.']).getLast? with
  | none => none
  | some part => if part = ['.', '.'] then none else some (.ofList part)

def childNames (paths : List String) : List String := paths.filterMap fileName

def rawToCommand : RawEvent → Command
  | .changed canonical paths => .apply canonical (.childNames (childNames paths))
  | .overflow canonical => .overflow canonical

inductive Pending
  | changed (names : List String)
  | overflow
  deriving DecidableEq, Repr

def extend (set names : List String) : List String :=
  names.foldl (fun set name ↦ if name ∈ set then set else set.orderedInsert (· ≤ ·) name) set

def Pending.toCommand (canonical : String) : Pending → Command
  | .overflow => .overflow canonical
  | .changed names => .apply canonical (.childNames names)

structure Debouncer where
  pending : Table String Pending

namespace Debouncer

variable (d : Debouncer)

def new : Debouncer := ⟨∅⟩

def push : RawEvent → Debouncer
  | .overflow canonical => ⟨d.pending.insert canonical .overflow⟩
  | .changed canonical paths =>
      let names := childNames paths
      match d.pending.lookup canonical with
      | none => ⟨d.pending.insert canonical (.changed (extend [] names))⟩
      -- the rescan covers these children
      | some .overflow => d
      | some (.changed set) => ⟨d.pending.insert canonical (.changed (extend set names))⟩

def drain : List Command × Debouncer :=
  ((d.pending.entries.insertionSort fun a b ↦ a.1 ≤ b.1).map fun e ↦ e.2.toCommand e.1, new)

def isEmpty : Bool := d.pending.entries.isEmpty

end Debouncer

section Names

variable {set names : List String} {name : String}

theorem mem_extend : name ∈ extend set names ↔ name ∈ set ∨ name ∈ names := by
  unfold extend
  induction names generalizing set with
  | nil => simp
  | cons first names ih =>
      rw [List.foldl_cons, ih]
      by_cases hfirst : first ∈ set
      · rw [if_pos hfirst, List.mem_cons]
        constructor
        · exact Or.imp_right .inr
        · rintro (hset | rfl | hnames)
          · exact .inl hset
          · exact .inl hfirst
          · exact .inr hnames
      · rw [if_neg hfirst, List.mem_orderedInsert, List.mem_cons, or_comm (a := name = first),
          or_assoc]

theorem pairwise_extend (h : set.Pairwise (· < ·)) : (extend set names).Pairwise (· < ·) := by
  unfold extend
  induction names generalizing set with
  | nil => exact h
  | cons first names ih =>
      rw [List.foldl_cons]
      apply ih
      split
      · exact h
      · next hfirst =>
          have hsorted := (h.imp le_of_lt).orderedInsert first
          have hnodup : (set.orderedInsert (· ≤ ·) first).Nodup :=
            (List.perm_orderedInsert _ _ _).nodup_iff.mpr
              (List.nodup_cons.mpr ⟨hfirst, h.imp LT.lt.ne⟩)
          exact (hsorted.and hnodup).imp fun hboth ↦ lt_of_le_of_ne hboth.1 hboth.2

theorem extend_append (set first second : List String) :
    extend (extend set first) second = extend set (first ++ second) :=
  List.foldl_append.symm

end Names

namespace RawEvent

def canonical : RawEvent → String
  | .changed canonical _ => canonical
  | .overflow canonical => canonical

def names : RawEvent → List String
  | .changed _ paths => childNames paths
  | .overflow _ => []

end RawEvent

def touched (events : List RawEvent) (canonical : String) : List String :=
  (events.filter (·.canonical = canonical)).flatMap RawEvent.names

def coalesced (events : List RawEvent) (canonical : String) : Option Pending :=
  if .overflow canonical ∈ events then some .overflow
  else if canonical ∈ events.map RawEvent.canonical then
    some (.changed (extend [] (touched events canonical)))
  else none

section Pushes

variable {events : List RawEvent} {canonical : String}

theorem mem_touched {name : String} :
    name ∈ touched events canonical ↔
      ∃ paths, .changed canonical paths ∈ events ∧ name ∈ childNames paths := by
  simp only [touched, List.mem_flatMap, List.mem_filter, decide_eq_true_eq]
  constructor
  · rintro ⟨event, ⟨hmem, rfl⟩, hname⟩
    cases event with
    | changed canonical paths => exact ⟨paths, hmem, hname⟩
    | overflow canonical => cases hname
  · rintro ⟨paths, hmem, hname⟩
    exact ⟨_, ⟨hmem, rfl⟩, hname⟩

theorem touched_append_of_ne {event : RawEvent} (h : event.canonical ≠ canonical) :
    touched (events ++ [event]) canonical = touched events canonical := by
  simp [touched, List.filter_append, h]

theorem coalesced_append_of_ne {event : RawEvent} (h : event.canonical ≠ canonical) :
    coalesced (events ++ [event]) canonical = coalesced events canonical := by
  have hoverflow : .overflow canonical ∈ events ++ [event] ↔ .overflow canonical ∈ events := by
    rw [List.mem_append, List.mem_singleton, or_iff_left]
    rintro rfl
    exact h rfl
  have hcanonical : canonical ∈ (events ++ [event]).map RawEvent.canonical ↔
      canonical ∈ events.map RawEvent.canonical := by
    rw [List.map_append, List.mem_append, List.map_singleton, List.mem_singleton,
      or_iff_left h.symm]
  simp only [coalesced, hoverflow, hcanonical, touched_append_of_ne h]

theorem touched_eq_nil (h : canonical ∉ events.map RawEvent.canonical) :
    touched events canonical = [] := by
  rw [touched, List.filter_eq_nil_iff.mpr, List.flatMap_nil]
  intro event hmem heq
  exact h (List.mem_map.mpr ⟨event, hmem, of_decide_eq_true heq⟩)

theorem coalesced_append_overflow :
    coalesced (events ++ [.overflow canonical]) canonical = some .overflow :=
  if_pos (List.mem_append_right _ (List.mem_singleton_self _))

theorem coalesced_append_changed (paths : List String) :
    coalesced (events ++ [.changed canonical paths]) canonical =
      if .overflow canonical ∈ events then some .overflow
      else some (.changed (extend [] (touched events canonical ++ childNames paths))) := by
  have hoverflow : .overflow canonical ∈ events ++ [.changed canonical paths] ↔
      .overflow canonical ∈ events := by
    rw [List.mem_append, List.mem_singleton, or_iff_left fun h ↦ by cases h]
  have hcanonical : canonical ∈
      (events ++ [RawEvent.changed canonical paths]).map RawEvent.canonical := by
    rw [List.map_append]
    exact List.mem_append_right _ (List.mem_singleton_self _)
  have htouched : touched (events ++ [.changed canonical paths]) canonical =
      touched events canonical ++ childNames paths := by
    simp [touched, List.filter_append, RawEvent.canonical, RawEvent.names]
  rw [coalesced, if_pos hcanonical, htouched]
  exact if_congr hoverflow rfl rfl

namespace Debouncer

theorem lookup_push {d : Debouncer} (h : ∀ c, d.pending.lookup c = coalesced events c)
    (event : RawEvent) (c : String) :
    (d.push event).pending.lookup c = coalesced (events ++ [event]) c := by
  by_cases hc : event.canonical = c
  · subst hc
    cases event with
    | overflow canonical =>
        rw [RawEvent.canonical, coalesced_append_overflow]
        exact AList.lookup_insert _
    | changed canonical paths =>
        have hbefore := h canonical
        rw [RawEvent.canonical, coalesced_append_changed]
        unfold coalesced at hbefore
        by_cases hoverflow : .overflow canonical ∈ events
        · rw [if_pos hoverflow] at hbefore ⊢
          simp only [push, hbefore]
        · rw [if_neg hoverflow] at hbefore ⊢
          by_cases hcanonical : canonical ∈ events.map RawEvent.canonical
          · rw [if_pos hcanonical] at hbefore
            simp only [push, hbefore, AList.lookup_insert, extend_append]
          · rw [if_neg hcanonical] at hbefore
            simp only [push, hbefore, AList.lookup_insert, touched_eq_nil hcanonical,
              List.nil_append]
  · rw [coalesced_append_of_ne hc, ← h c]
    cases event with
    | overflow canonical => exact AList.lookup_insert_ne (Ne.symm hc)
    | changed canonical paths =>
        simp only [push]
        split
        · exact AList.lookup_insert_ne (Ne.symm hc)
        · rfl
        · exact AList.lookup_insert_ne (Ne.symm hc)

theorem lookup_pushes (events : List RawEvent) (c : String) :
    (run push new events).pending.lookup c = coalesced events c := by
  induction events using List.reverseRecOn generalizing c with
  | nil => rfl
  | append_singleton events event ih =>
      rw [run_append]
      exact lookup_push ih event c

end Debouncer

end Pushes

@[simp] theorem reconciled_toCommand (canonical : String) (pending : Pending) :
    (pending.toCommand canonical).reconciled = some canonical := by
  cases pending <;> rfl

@[simp] theorem reconciled_rawToCommand (event : RawEvent) :
    (rawToCommand event).reconciled = some event.canonical := by
  cases event <;> rfl

namespace Debouncer

/-- A drain yields one command for each directory that events have reported, in the order of the
directories, and clears the buffer. -/
structure Drains (events : List RawEvent) (drained : List Command × Debouncer) : Prop where
  ordered : ∃ canonicals : List String, canonicals.Pairwise (· < ·) ∧
    (∀ c, c ∈ canonicals ↔ c ∈ events.map RawEvent.canonical) ∧
    drained.1.map Command.reconciled = canonicals.map some
  overflow : ∀ c, .overflow c ∈ drained.1 ↔ .overflow c ∈ events
  changed : ∀ c hint, .apply c hint ∈ drained.1 → .overflow c ∉ events ∧
    ∃ names : List String, hint = .childNames names ∧ names.Pairwise (· < ·) ∧
      ∀ name, name ∈ names ↔ ∃ paths, .changed c paths ∈ events ∧ name ∈ childNames paths
  cleared : drained.2.isEmpty = true

variable {events : List RawEvent} {command : Command} {c : String}

theorem mem_drain (d : Debouncer) :
    command ∈ d.drain.1 ↔
      ∃ c pending, d.pending.lookup c = some pending ∧ command = pending.toCommand c := by
  rw [drain, List.mem_map]
  constructor
  · rintro ⟨⟨c, pending⟩, hmem, rfl⟩
    rw [List.mem_insertionSort] at hmem
    exact ⟨c, pending, Table.mem_entries_iff.mp hmem, rfl⟩
  · rintro ⟨c, pending, hlookup, rfl⟩
    refine ⟨⟨c, pending⟩, ?_, rfl⟩
    rw [List.mem_insertionSort]
    exact Table.mem_entries_iff.mpr hlookup

theorem coalesced_eq_none_iff : coalesced events c = none ↔ c ∉ events.map RawEvent.canonical := by
  rw [coalesced]
  split
  · next hoverflow =>
      have hmem := List.mem_map_of_mem (f := RawEvent.canonical) hoverflow
      exact iff_of_false (by simp) fun h ↦ h hmem
  · split
    · next hmem => exact iff_of_false (by simp) fun h ↦ h hmem
    · next hmem => exact iff_of_true rfl hmem

theorem coalesced_eq_overflow_iff : coalesced events c = some .overflow ↔ .overflow c ∈ events := by
  rw [coalesced]
  split
  · next hoverflow => exact iff_of_true rfl hoverflow
  · next hoverflow =>
      refine iff_of_false ?_ hoverflow
      split <;> simp

theorem coalesced_eq_changed {names : List String}
    (h : coalesced events c = some (.changed names)) :
    .overflow c ∉ events ∧ names = extend [] (touched events c) := by
  rw [coalesced] at h
  split at h
  · simp at h
  · next hoverflow =>
      split at h
      · simp only [Option.some.injEq, Pending.changed.injEq] at h
        exact ⟨hoverflow, h.symm⟩
      · cases h

theorem canonicals_drain (d : Debouncer) : ∃ canonicals : List String,
    canonicals.Pairwise (· < ·) ∧ (∀ c, c ∈ canonicals ↔ (d.pending.lookup c).isSome = true) ∧
      d.drain.1.map Command.reconciled = canonicals.map some := by
  have hperm := List.perm_insertionSort (fun a b : (_ : String) × Pending ↦ a.1 ≤ b.1)
    d.pending.entries
  refine ⟨(d.pending.entries.insertionSort fun a b ↦ a.1 ≤ b.1).map Sigma.fst, ?_, ?_, ?_⟩
  · have hsorted := List.pairwise_map.mpr
      (List.pairwise_insertionSort (fun a b : (_ : String) × Pending ↦ a.1 ≤ b.1) d.pending.entries)
    have hnodup := (hperm.map Sigma.fst).nodup_iff.mpr d.pending.nodupKeys
    exact (hsorted.and hnodup).imp fun hboth ↦ lt_of_le_of_ne hboth.1 hboth.2
  · intro c
    rw [(hperm.map Sigma.fst).mem_iff, AList.lookup_isSome]
    exact Iff.rfl
  · simp [drain]

theorem drains_pushes (events : List RawEvent) : Drains events (run push new events).drain where
  ordered := by
    obtain ⟨canonicals, hsorted, hmem, hmap⟩ := canonicals_drain (run push new events)
    refine ⟨canonicals, hsorted, fun c ↦ ?_, hmap⟩
    rw [hmem, lookup_pushes, Option.isSome_iff_ne_none, ne_eq, coalesced_eq_none_iff, not_not]
  overflow c := by
    rw [mem_drain, ← coalesced_eq_overflow_iff]
    constructor
    · rintro ⟨c', pending, hlookup, hcommand⟩
      rw [lookup_pushes] at hlookup
      cases pending with
      | overflow =>
          cases hcommand
          exact hlookup
      | changed names => cases hcommand
    · intro h
      exact ⟨c, .overflow, by rw [lookup_pushes, h], rfl⟩
  changed c hint h := by
    obtain ⟨c', pending, hlookup, hcommand⟩ := (mem_drain _).mp h
    rw [lookup_pushes] at hlookup
    cases pending with
    | overflow => cases hcommand
    | changed names =>
        cases hcommand
        obtain ⟨hoverflow, rfl⟩ := coalesced_eq_changed hlookup
        refine ⟨hoverflow, _, rfl, pairwise_extend List.Pairwise.nil, fun name ↦ ?_⟩
        rw [mem_extend, mem_touched, or_iff_right List.not_mem_nil]
  cleared := rfl

end Debouncer

end Zaowutai.Explorer
