import Mathlib.Data.String.Basic
import Zaowutai.Lib.Table

/-!
# The subscription registry

A directory is watched while a connection subscribes to it, and for a grace
period after the last subscriber has left.  Two indexes are kept: `forward`
from a session to its directories, for a disconnect, and `reverse` from a
directory to its subscribers, for the fan-out.
-/

namespace Zaowutai.Explorer

open Zaowutai.Lib

/-- A logical time stamp that the caller supplies. -/
abbrev Millis := ℕ

def graceTtlMs : Millis := 5 * 60 * 1000

/-- The interest of a connection in a directory, under the entry and path it knows it by. -/
structure Subscriber where
  session : String
  peId : String
  rel : String
  deriving DecidableEq, Repr

inductive SubscribeOutcome
  /-- The first subscriber of a cold directory: the caller has to mount it. -/
  | mount
  | rescuedFromGrace
  | alreadyLive
  deriving DecidableEq, Repr

inductive UnsubscribeOutcome
  | enteredGrace
  | stillLive
  | notSubscribed
  deriving DecidableEq, Repr

structure SubscriptionRegistry where
  forward : Table String (List String)
  reverse : Table String (List Subscriber)
  /-- The directories without subscribers that are kept warm, and until when. -/
  grace : Table String Millis

namespace SubscriptionRegistry

def new : SubscriptionRegistry := ⟨∅, ∅, ∅⟩

variable (r : SubscriptionRegistry)

def subscribersOf (canonical : String) : Option (List Subscriber) := r.reverse.lookup canonical

/-- The members of `reverse` at the directory, none if it has no entry. -/
def subscribers (canonical : String) : List Subscriber := (r.subscribersOf canonical).getD []

/-- The members of `forward` at the session, none if it has no entry. -/
def canonicals (session : String) : List String := (r.forward.lookup session).getD []

def subscribe (sub : Subscriber) (canonical : String) :
    SubscriptionRegistry × SubscribeOutcome :=
  let set := r.subscribers canonical
  ({ forward := r.forward.insert sub.session ((r.canonicals sub.session).insert canonical)
     reverse := r.reverse.insert canonical (set.insert sub)
     grace := r.grace.erase canonical },
    if (r.grace.lookup canonical).isSome then .rescuedFromGrace
    else if set.isEmpty then .mount
    else .alreadyLive)

def keepNonempty {α : Type*} (index : Table String (List α)) (key : String) (set : List α) :
    Table String (List α) :=
  if set.isEmpty then index.erase key else index.insert key set

/-- Replace the subscribers of a directory that has an entry; an emptied one enters grace. -/
def retain (canonical : String) (set : List Subscriber) (now : Millis) : SubscriptionRegistry :=
  { r with
    reverse := keepNonempty r.reverse canonical set
    grace := if set.isEmpty then r.grace.insert canonical (now + graceTtlMs) else r.grace }

def unsubscribe (sub : Subscriber) (canonical : String) (now : Millis) :
    SubscriptionRegistry × UnsubscribeOutcome :=
  let forward := match r.forward.lookup sub.session with
    | some cs => keepNonempty r.forward sub.session (cs.filter (· ≠ canonical))
    | none => r.forward
  match r.reverse.lookup canonical with
  | none => ({ r with forward := forward }, .notSubscribed)
  | some set =>
      let set := set.filter (· ≠ sub)
      ({ r with forward := forward }.retain canonical set now,
        if set.isEmpty then .enteredGrace else .stillLive)

/-- One round of the loop of `dropSession`; the directories that entered grace are collected. -/
def dropCanonical (session : String) (now : Millis)
    (s : SubscriptionRegistry × List String) (canonical : String) :
    SubscriptionRegistry × List String :=
  match s.1.reverse.lookup canonical with
  | none => s
  | some set =>
      let set := set.filter (·.session ≠ session)
      (s.1.retain canonical set now, if set.isEmpty then s.2 ++ [canonical] else s.2)

def dropSession (session : String) (now : Millis) : SubscriptionRegistry × List String :=
  let (r', graced) := (r.canonicals session).foldl (dropCanonical session now)
    ({ r with forward := r.forward.erase session }, [])
  (r', graced.insertionSort (· ≤ ·))

def reap (now : Millis) : SubscriptionRegistry × List String :=
  let expired := (r.grace.entries.filter fun e ↦ e.2 ≤ now).map Sigma.fst
  ({ r with grace := r.grace.eraseAll expired }, expired.insertionSort (· ≤ ·))

def watchedCount : ℕ := r.reverse.entries.length + r.grace.entries.length

def oldest : Option String :=
  (r.grace.entries.foldl (fun best e ↦ match best with
    | none => some e
    | some b => if e.2 < b.2 ∨ e.2 = b.2 ∧ e.1 < b.1 then some e else some b) none).map Sigma.fst

/-- The loop of `enforceWatchBudget`; each round evicts an entry, so the entries bound it. -/
def evictOver (max : ℕ) : ℕ → SubscriptionRegistry → List String →
    SubscriptionRegistry × List String
  | 0, r, evicted => (r, evicted)
  | fuel + 1, r, evicted =>
      if max < r.watchedCount then
        match r.oldest with
        | some canonical =>
            evictOver max fuel { r with grace := r.grace.erase canonical } (evicted ++ [canonical])
        | none => (r, evicted)
      else (r, evicted)

def enforceWatchBudget (max : ℕ) : SubscriptionRegistry × List String :=
  evictOver max r.grace.entries.length r []

def isWatched (canonical : String) : Bool :=
  (r.reverse.lookup canonical).isSome || (r.grace.lookup canonical).isSome

section Specs

variable {r : SubscriptionRegistry} {canonical c : String}

theorem lookup_keepNonempty {α : Type*} (index : Table String (List α)) (key k : String)
    (set : List α) :
    (keepNonempty index key set).lookup k =
      if k = key then if set = [] then none else some set else index.lookup k := by
  simp only [keepNonempty, List.isEmpty_iff]
  split
  · rw [Table.lookup_erase_eq]
  · rw [Table.lookup_insert_eq]

theorem reverse_retain (set : List Subscriber) (now : Millis) :
    (r.retain canonical set now).reverse.lookup c =
      if c = canonical then if set = [] then none else some set else r.reverse.lookup c :=
  lookup_keepNonempty r.reverse canonical c set

theorem subscribers_retain (set : List Subscriber) (now : Millis) :
    (r.retain canonical set now).subscribers c =
      if c = canonical then set else r.subscribers c := by
  simp only [subscribers, subscribersOf, reverse_retain]
  split
  · split
    · next hnil => rw [hnil, Option.getD_none]
    · rfl
  · rfl

theorem grace_retain (set : List Subscriber) (now : Millis) :
    (r.retain canonical set now).grace.lookup c =
      if c = canonical ∧ set = [] then some (now + graceTtlMs) else r.grace.lookup c := by
  simp only [retain, List.isEmpty_iff]
  split
  · next hnil =>
      rw [Table.lookup_insert_eq]
      simp only [hnil, and_true]
  · next hnil => rw [if_neg fun h ↦ hnil h.2]

theorem isWatched_iff :
    r.isWatched canonical = true ↔
      (r.reverse.lookup canonical).isSome = true ∨ (r.grace.lookup canonical).isSome = true := by
  rw [isWatched, Bool.or_eq_true]

theorem isWatched_retain {set : List Subscriber} {now : Millis}
    (h : (r.reverse.lookup canonical).isSome = true) :
    (r.retain canonical set now).isWatched c = r.isWatched c := by
  by_cases hc : c = canonical
  · subst hc
    have hbefore : r.isWatched c = true := by rw [isWatched, h, Bool.true_or]
    rw [hbefore, isWatched_iff, reverse_retain, grace_retain]
    by_cases hnil : set = []
    · right
      simp [hnil]
    · left
      simp [hnil]
  · simp only [isWatched, reverse_retain, grace_retain, hc, if_false, false_and]

theorem reverse_subscribe (sub : Subscriber) :
    (r.subscribe sub canonical).1.reverse.lookup c =
      if c = canonical then some ((r.subscribers canonical).insert sub)
      else r.reverse.lookup c :=
  Table.lookup_insert_eq _

theorem grace_subscribe (sub : Subscriber) :
    (r.subscribe sub canonical).1.grace.lookup c =
      if c = canonical then none else r.grace.lookup c :=
  Table.lookup_erase_eq

theorem isWatched_subscribe (sub : Subscriber) :
    (r.subscribe sub canonical).1.isWatched c = (decide (c = canonical) || r.isWatched c) := by
  simp only [isWatched, reverse_subscribe, grace_subscribe]
  by_cases hc : c = canonical <;> simp [hc]

theorem isWatched_unsubscribe (sub : Subscriber) (now : Millis) :
    (r.unsubscribe sub canonical now).1.isWatched c = r.isWatched c := by
  simp only [unsubscribe]
  split
  · rfl
  · next set hset => exact isWatched_retain (by rw [hset]; rfl)

theorem isWatched_dropSession (session : String) (now : Millis) :
    (r.dropSession session now).1.isWatched c = r.isWatched c := by
  have hfold : ∀ (cs : List String) (s : SubscriptionRegistry × List String),
      (cs.foldl (dropCanonical session now) s).1.isWatched c = s.1.isWatched c := by
    intro cs
    induction cs with
    | nil => exact fun _ ↦ rfl
    | cons canonical cs ih =>
        intro s
        rw [List.foldl_cons, ih, dropCanonical]
        split
        · rfl
        · next set hset => exact isWatched_retain (by rw [hset]; rfl)
  exact hfold _ _

@[simp] theorem reverse_reap (now : Millis) : (r.reap now).1.reverse = r.reverse := rfl

theorem grace_reap (now : Millis) :
    (r.reap now).1.grace.lookup c =
      if c ∈ (r.reap now).2 then none else r.grace.lookup c := by
  simp only [reap, Table.lookup_eraseAll, List.mem_insertionSort]

theorem mem_reap {now : Millis} (h : c ∈ (r.reap now).2) :
    (r.grace.lookup c).isSome = true := by
  rw [reap, List.mem_insertionSort] at h
  obtain ⟨⟨key, evictAt⟩, hentry, rfl⟩ := List.mem_map.mp h
  rw [Table.mem_entries_iff.mp (List.mem_of_mem_filter hentry)]
  rfl

theorem oldest_mem (h : r.oldest = some c) : (r.grace.lookup c).isSome = true := by
  have hfold : ∀ (es : List (Σ _ : String, Millis)) (best : Option (Σ _ : String, Millis)),
      ∀ e, es.foldl (fun best e ↦ match best with
        | none => some e
        | some b => if e.2 < b.2 ∨ e.2 = b.2 ∧ e.1 < b.1 then some e else some b) best = some e →
          e ∈ es ∨ best = some e := by
    intro es
    induction es with
    | nil => exact fun best e h ↦ .inr h
    | cons x es ih =>
        intro best e h
        rw [List.foldl_cons] at h
        rcases ih _ e h with hmem | hbest
        · exact .inl (List.mem_cons_of_mem _ hmem)
        · split at hbest
          · cases hbest
            exact .inl List.mem_cons_self
          · split at hbest
            · cases hbest
              exact .inl List.mem_cons_self
            · exact .inr hbest
  rw [oldest, Option.map_eq_some_iff] at h
  obtain ⟨⟨key, evictAt⟩, he, rfl⟩ := h
  rcases hfold _ _ _ he with hmem | hnone
  · rw [Table.mem_entries_iff.mp hmem]
    rfl
  · cases hnone

theorem evictOver_spec (max fuel : ℕ) (r : SubscriptionRegistry) (evicted : List String) :
    ∃ more, (evictOver max fuel r evicted).2 = evicted ++ more ∧
      (evictOver max fuel r evicted).1.forward = r.forward ∧
      (evictOver max fuel r evicted).1.reverse = r.reverse ∧
      (∀ c, (evictOver max fuel r evicted).1.grace.lookup c =
        if c ∈ more then none else r.grace.lookup c) ∧
      ∀ c ∈ more, (r.grace.lookup c).isSome = true := by
  induction fuel generalizing r evicted with
  | zero => exact ⟨[], by simp [evictOver], rfl, rfl, by simp [evictOver], by simp⟩
  | succ fuel ih =>
      rw [evictOver]
      split
      · split
        · next canonical holdest =>
            obtain ⟨more, hevicted, hforward, hreverse, hgrace, hmem⟩ :=
              ih { r with grace := r.grace.erase canonical } (evicted ++ [canonical])
            refine ⟨canonical :: more, ?_, hforward, hreverse, ?_, ?_⟩
            · rw [hevicted, List.append_assoc, List.singleton_append]
            · intro c
              rw [hgrace, Table.lookup_erase_eq]
              by_cases hc : c = canonical <;> simp [hc]
            · intro c hc
              rcases List.mem_cons.mp hc with rfl | hc
              · exact oldest_mem holdest
              · have hsome := hmem c hc
                rw [Table.lookup_erase_eq] at hsome
                split at hsome
                · cases hsome
                · exact hsome
        · exact ⟨[], by simp, rfl, rfl, by simp, by simp⟩
      · exact ⟨[], by simp, rfl, rfl, by simp, by simp⟩

@[simp] theorem forward_enforceWatchBudget (max : ℕ) :
    (r.enforceWatchBudget max).1.forward = r.forward := by
  obtain ⟨_, -, hforward, -⟩ := evictOver_spec max r.grace.entries.length r []
  exact hforward

@[simp] theorem reverse_enforceWatchBudget (max : ℕ) :
    (r.enforceWatchBudget max).1.reverse = r.reverse := by
  obtain ⟨_, -, -, hreverse, -⟩ := evictOver_spec max r.grace.entries.length r []
  exact hreverse

theorem grace_enforceWatchBudget (max : ℕ) :
    (r.enforceWatchBudget max).1.grace.lookup c =
      if c ∈ (r.enforceWatchBudget max).2 then none else r.grace.lookup c := by
  obtain ⟨more, hevicted, -, -, hgrace, -⟩ := evictOver_spec max r.grace.entries.length r []
  rw [enforceWatchBudget, hevicted, hgrace, List.nil_append]

theorem mem_enforceWatchBudget {max : ℕ} (h : c ∈ (r.enforceWatchBudget max).2) :
    (r.grace.lookup c).isSome = true := by
  obtain ⟨more, hevicted, -, -, -, hmem⟩ := evictOver_spec max r.grace.entries.length r []
  rw [enforceWatchBudget, hevicted, List.nil_append] at h
  exact hmem c h

end Specs

end SubscriptionRegistry

end Zaowutai.Explorer
