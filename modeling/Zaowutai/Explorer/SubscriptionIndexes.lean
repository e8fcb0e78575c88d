import Zaowutai.Lib.Run
import Zaowutai.Explorer.Subscription

/-!
# The two indexes

`forward` is keyed by session and directory, `reverse` by directory and
subscriber.  A session may know one directory under several entries: while one
of these subscriptions is given up and another one stays, the directory has to
stay in `forward`, or a disconnect will not find it.
-/

namespace Zaowutai.Explorer

open Zaowutai.Lib

inductive RegistryOp
  | subscribe (sub : Subscriber) (canonical : String)
  | unsubscribe (sub : Subscriber) (canonical : String) (now : Millis)
  | dropSession (session : String) (now : Millis)
  | reap (now : Millis)
  | enforceWatchBudget (max : ℕ)
  deriving DecidableEq, Repr

namespace SubscriptionRegistry

def step (r : SubscriptionRegistry) : RegistryOp → SubscriptionRegistry
  | .subscribe sub canonical => (r.subscribe sub canonical).1
  | .unsubscribe sub canonical now => (r.unsubscribe sub canonical now).1
  | .dropSession session now => (r.dropSession session now).1
  | .reap now => (r.reap now).1
  | .enforceWatchBudget max => (r.enforceWatchBudget max).1

variable (r : SubscriptionRegistry)

/-- `reverse` holds no empty set and no directory that is in grace. -/
structure Tidy : Prop where
  nonempty : ∀ canonical, r.reverse.lookup canonical ≠ some []
  disjoint : ∀ canonical, (r.reverse.lookup canonical).isSome = true →
    r.grace.lookup canonical = none

def ForwardAgrees : Prop :=
  ∀ session canonical, canonical ∈ r.canonicals session ↔
    ∃ sub ∈ r.subscribers canonical, sub.session = session

structure Agree : Prop extends r.Tidy where
  forward : r.ForwardAgrees

structure Lawful (op : RegistryOp) : Prop where
  dropped : ∀ session now, op = .dropSession session now →
    ∀ canonical, ∀ sub ∈ (r.step op).subscribers canonical, sub.session ≠ session
  graced : ∀ canonical, (r.reverse.lookup canonical).isSome = true →
    (r.step op).reverse.lookup canonical = none →
      ((r.step op).grace.lookup canonical).isSome = true
  kept : ∀ canonical, (r.grace.lookup canonical).isSome = true →
    (r.step op).grace.lookup canonical = none →
      (∃ sub, op = .subscribe sub canonical) ∨
        (∃ now, op = .reap now ∧ canonical ∈ (r.reap now).2) ∨
        ∃ max, op = .enforceWatchBudget max ∧ canonical ∈ (r.enforceWatchBudget max).2

def UnsubscribesLast (op : RegistryOp) : Prop :=
  ∀ sub canonical now, op = .unsubscribe sub canonical now →
    ∀ other ∈ r.subscribers canonical, other.session = sub.session → other = sub

section Updates

variable {r : SubscriptionRegistry} {canonical session : String}

theorem tidy_retain (h : r.Tidy) (set : List Subscriber) (now : Millis)
    (hset : (r.reverse.lookup canonical).isSome = true) :
    (r.retain canonical set now).Tidy where
  nonempty := by
    intro c
    rw [reverse_retain]
    split
    · split
      · simp
      · next hnil => simpa using hnil
    · exact h.nonempty c
  disjoint := by
    intro c hc
    rw [reverse_retain] at hc
    rw [grace_retain]
    by_cases heq : c = canonical
    · subst heq
      rw [if_pos rfl] at hc
      split at hc
      · cases hc
      · next hnil =>
          rw [if_neg fun h ↦ hnil h.2]
          exact h.disjoint c hset
    · rw [if_neg heq] at hc
      rw [if_neg fun h ↦ heq h.1]
      exact h.disjoint c hc

theorem canonicals_keepNonempty (key s : String) (set : List String) :
    ((keepNonempty r.forward key set).lookup s).getD [] =
      if s = key then set else r.canonicals s := by
  rw [lookup_keepNonempty]
  split
  · split
    · next hnil => rw [hnil, Option.getD_none]
    · rfl
  · rfl

theorem canonicals_subscribe (sub : Subscriber) (s : String) :
    (r.subscribe sub canonical).1.canonicals s =
      if s = sub.session then (r.canonicals s).insert canonical else r.canonicals s := by
  simp only [canonicals, subscribe, Table.lookup_insert_eq]
  split
  · next heq => rw [heq, Option.getD_some]
  · rfl

theorem subscribers_subscribe (sub : Subscriber) (c : String) :
    (r.subscribe sub canonical).1.subscribers c =
      if c = canonical then (r.subscribers c).insert sub else r.subscribers c := by
  rw [subscribers, subscribersOf, reverse_subscribe]
  split
  · next heq => rw [heq, Option.getD_some]
  · rfl

theorem canonicals_unsubscribe (sub : Subscriber) (now : Millis) (s : String) :
    (r.unsubscribe sub canonical now).1.canonicals s =
      if s = sub.session then (r.canonicals s).filter (· ≠ canonical) else r.canonicals s := by
  cases hcs : r.forward.lookup sub.session with
  | some cs =>
      have hforward : (r.unsubscribe sub canonical now).1.forward =
          keepNonempty r.forward sub.session (cs.filter (· ≠ canonical)) := by
        simp only [unsubscribe, hcs]
        split <;> rfl
      rw [canonicals, hforward, canonicals_keepNonempty]
      split
      · next heq => rw [heq, canonicals, hcs, Option.getD_some]
      · rfl
  | none =>
      have hforward : (r.unsubscribe sub canonical now).1.forward = r.forward := by
        simp only [unsubscribe, hcs]
        split <;> rfl
      rw [canonicals, hforward]
      split
      · next heq => rw [heq, canonicals, hcs, Option.getD_none, List.filter_nil]
      · rfl

theorem subscribers_unsubscribe (sub : Subscriber) (now : Millis) (c : String) :
    (r.unsubscribe sub canonical now).1.subscribers c =
      if c = canonical then (r.subscribers c).filter (· ≠ sub) else r.subscribers c := by
  cases hset : r.reverse.lookup canonical with
  | none =>
      simp only [unsubscribe, hset, subscribers, subscribersOf]
      by_cases heq : c = canonical
      · rw [if_pos heq, heq, hset, Option.getD_none, List.filter_nil]
      · rw [if_neg heq]
  | some set =>
      simp only [unsubscribe, hset, subscribers_retain]
      split
      · next heq => rw [heq, subscribers, subscribersOf, hset, Option.getD_some]
      · rfl

theorem tidy_unsubscribe (h : r.Tidy) (sub : Subscriber) (now : Millis) :
    (r.unsubscribe sub canonical now).1.Tidy := by
  simp only [unsubscribe]
  split
  · exact ⟨h.nonempty, h.disjoint⟩
  · next set hset =>
      apply tidy_retain
      · exact ⟨h.nonempty, h.disjoint⟩
      · rw [hset]
        rfl

theorem tidy_subscribe (h : r.Tidy) (sub : Subscriber) : (r.subscribe sub canonical).1.Tidy where
  nonempty := by
    intro c
    rw [reverse_subscribe]
    split
    · intro heq
      have hmem : sub ∈ (r.subscribers canonical).insert sub := List.mem_insert_self
      rw [Option.some_inj.mp heq] at hmem
      cases hmem
    · exact h.nonempty c
  disjoint := by
    intro c hc
    rw [reverse_subscribe] at hc
    rw [grace_subscribe]
    by_cases heq : c = canonical
    · rw [if_pos heq]
    · rw [if_neg heq] at hc ⊢
      exact h.disjoint c hc

theorem dropCanonicals_spec (session : String) (now : Millis) (cs : List String)
    (s : SubscriptionRegistry × List String) (h : s.1.Tidy) :
    (cs.foldl (dropCanonical session now) s).1.Tidy ∧
      (cs.foldl (dropCanonical session now) s).1.forward = s.1.forward ∧
      (∀ c, (cs.foldl (dropCanonical session now) s).1.subscribers c =
        if c ∈ cs then (s.1.subscribers c).filter (·.session ≠ session)
        else s.1.subscribers c) ∧
      ∀ c, (s.1.grace.lookup c).isSome = true →
        ((cs.foldl (dropCanonical session now) s).1.grace.lookup c).isSome = true := by
  induction cs generalizing s with
  | nil => exact ⟨h, rfl, fun c ↦ by simp, fun c hc ↦ hc⟩
  | cons canonical cs ih =>
      have hround : (dropCanonical session now s canonical).1.Tidy ∧
          (dropCanonical session now s canonical).1.forward = s.1.forward ∧
          (∀ c, (dropCanonical session now s canonical).1.subscribers c =
            if c = canonical then (s.1.subscribers c).filter (·.session ≠ session)
            else s.1.subscribers c) ∧
          ∀ c, (s.1.grace.lookup c).isSome = true →
            ((dropCanonical session now s canonical).1.grace.lookup c).isSome = true := by
        rw [dropCanonical]
        split
        · next hnone =>
            refine ⟨h, rfl, fun c ↦ ?_, fun c hc ↦ hc⟩
            split
            · next heq =>
                subst heq
                simp only [subscribers, subscribersOf, hnone, Option.getD_none, List.filter_nil]
            · rfl
        · next set hset =>
            refine ⟨tidy_retain h _ now (by rw [hset]; rfl), rfl, fun c ↦ ?_, fun c hc ↦ ?_⟩
            · rw [subscribers_retain]
              split
              · next heq => rw [heq, subscribers, subscribersOf, hset, Option.getD_some]
              · rfl
            · rw [grace_retain]
              split
              · rfl
              · exact hc
      obtain ⟨htidy, hforward, hsubs, hgrace⟩ := hround
      obtain ⟨htidy', hforward', hsubs', hgrace'⟩ := ih _ htidy
      rw [List.foldl_cons]
      refine ⟨htidy', hforward'.trans hforward, fun c ↦ ?_, fun c hc ↦ hgrace' c (hgrace c hc)⟩
      rw [hsubs', hsubs]
      by_cases heq : c = canonical <;> by_cases hmem : c ∈ cs <;> simp [heq, hmem]

theorem canonicals_dropSession (h : r.Tidy) (now : Millis) (s : String) :
    (r.dropSession session now).1.canonicals s = if s = session then [] else r.canonicals s := by
  have hforward := (dropCanonicals_spec session now (r.canonicals session)
    ({ r with forward := r.forward.erase session }, []) ⟨h.nonempty, h.disjoint⟩).2.1
  have herase : (r.dropSession session now).1.forward = r.forward.erase session := hforward
  rw [canonicals, herase, Table.lookup_erase_eq]
  split <;> rfl

theorem subscribers_dropSession (h : r.Tidy) (now : Millis) (c : String) :
    (r.dropSession session now).1.subscribers c =
      if c ∈ r.canonicals session then (r.subscribers c).filter (·.session ≠ session)
      else r.subscribers c :=
  (dropCanonicals_spec session now (r.canonicals session)
    ({ r with forward := r.forward.erase session }, []) ⟨h.nonempty, h.disjoint⟩).2.2.1 c

theorem grace_step (h : r.Tidy) {op : RegistryOp} (hbefore : (r.grace.lookup canonical).isSome)
    (hafter : (r.step op).grace.lookup canonical = none) :
    (∃ sub, op = .subscribe sub canonical) ∨
      (∃ now, op = .reap now ∧ canonical ∈ (r.reap now).2) ∨
      ∃ max, op = .enforceWatchBudget max ∧ canonical ∈ (r.enforceWatchBudget max).2 := by
  have hgone : ¬ ((r.step op).grace.lookup canonical).isSome = true := by simp [hafter]
  cases op with
  | subscribe sub c =>
      left
      refine ⟨sub, ?_⟩
      by_contra hne
      apply hgone
      rw [step, grace_subscribe, if_neg fun heq ↦ hne (by rw [heq])]
      exact hbefore
  | unsubscribe sub c now =>
      apply (hgone _).elim
      simp only [step, unsubscribe]
      split
      · exact hbefore
      · rw [grace_retain]
        split
        · rfl
        · exact hbefore
  | dropSession session now =>
      apply (hgone _).elim
      exact (dropCanonicals_spec session now (r.canonicals session)
        ({ r with forward := r.forward.erase session }, [])
        ⟨h.nonempty, h.disjoint⟩).2.2.2 canonical hbefore
  | reap now =>
      right; left
      refine ⟨now, rfl, ?_⟩
      by_contra hmem
      apply hgone
      rw [step, grace_reap, if_neg hmem]
      exact hbefore
  | enforceWatchBudget max =>
      right; right
      refine ⟨max, rfl, ?_⟩
      by_contra hmem
      apply hgone
      rw [step, grace_enforceWatchBudget, if_neg hmem]
      exact hbefore

theorem graced_step {op : RegistryOp} (hbefore : (r.reverse.lookup canonical).isSome = true)
    (hafter : (r.step op).reverse.lookup canonical = none) :
    ((r.step op).grace.lookup canonical).isSome = true := by
  have hwatched : r.isWatched canonical = true := by rw [isWatched, hbefore, Bool.true_or]
  have hkept : (r.step op).isWatched canonical = true := by
    cases op with
    | subscribe sub c => rw [step, isWatched_subscribe, hwatched, Bool.or_true]
    | unsubscribe sub c now => rw [step, isWatched_unsubscribe, hwatched]
    | dropSession session now => rw [step, isWatched_dropSession, hwatched]
    | reap now => rw [step, isWatched, reverse_reap, hbefore, Bool.true_or]
    | enforceWatchBudget max =>
        rw [step, isWatched, reverse_enforceWatchBudget, hbefore, Bool.true_or]
  rw [isWatched_iff, hafter] at hkept
  exact hkept.resolve_left (by simp)

theorem Agree.lawful (h : r.Agree) (op : RegistryOp) : r.Lawful op where
  dropped := by
    rintro session now rfl canonical sub hsub
    rw [step, subscribers_dropSession h.toTidy] at hsub
    split at hsub
    · exact of_decide_eq_true (List.mem_filter.mp hsub).2
    · next hmem =>
        rintro rfl
        exact hmem ((h.forward _ _).mpr ⟨sub, hsub, rfl⟩)
  graced := fun _ hbefore hafter ↦ graced_step hbefore hafter
  kept := fun _ hbefore hafter ↦ grace_step h.toTidy hbefore hafter

theorem agree_subscribe (h : r.Agree) (sub : Subscriber) :
    (r.subscribe sub canonical).1.Agree := by
  refine ⟨tidy_subscribe h.toTidy sub, fun s c ↦ ?_⟩
  rw [canonicals_subscribe, subscribers_subscribe]
  by_cases hs : s = sub.session <;> by_cases hc : c = canonical
  · rw [if_pos hs, if_pos hc, hc]
    exact iff_of_true List.mem_insert_self ⟨sub, List.mem_insert_self, hs.symm⟩
  · rw [if_pos hs, if_neg hc, List.mem_insert_iff, ← h.forward]
    exact or_iff_right hc
  · rw [if_neg hs, if_pos hc, h.forward]
    constructor
    · rintro ⟨other, hother, hsession⟩
      exact ⟨other, List.mem_insert_of_mem hother, hsession⟩
    · rintro ⟨other, hother, hsession⟩
      rcases List.mem_insert_iff.mp hother with rfl | hother
      · exact (hs hsession.symm).elim
      · exact ⟨other, hother, hsession⟩
  · rw [if_neg hs, if_neg hc]
    exact h.forward s c

theorem agree_unsubscribe_iff (h : r.Agree) (sub : Subscriber) (now : Millis) :
    (r.unsubscribe sub canonical now).1.Agree ↔
      ∀ other ∈ r.subscribers canonical, other.session = sub.session → other = sub := by
  constructor
  · intro hafter other hother hsession
    by_contra hne
    have hkept : canonical ∈ (r.unsubscribe sub canonical now).1.canonicals sub.session := by
      refine (hafter.forward _ _).mpr ⟨other, ?_, hsession⟩
      rw [subscribers_unsubscribe, if_pos rfl]
      exact List.mem_filter.mpr ⟨hother, decide_eq_true hne⟩
    rw [canonicals_unsubscribe, if_pos rfl] at hkept
    exact of_decide_eq_true (List.mem_filter.mp hkept).2 rfl
  · intro hlast
    refine ⟨tidy_unsubscribe h.toTidy sub now, fun s c ↦ ?_⟩
    rw [canonicals_unsubscribe, subscribers_unsubscribe]
    by_cases hs : s = sub.session <;> by_cases hc : c = canonical
    · rw [if_pos hs, if_pos hc]
      refine iff_of_false ?_ ?_
      · intro hmem
        exact of_decide_eq_true (List.mem_filter.mp hmem).2 hc
      · rintro ⟨other, hother, hsession⟩
        obtain ⟨hother, hne⟩ := List.mem_filter.mp hother
        subst hc
        exact of_decide_eq_true hne (hlast other hother (hsession.trans hs))
    · rw [if_pos hs, if_neg hc, List.mem_filter, ← h.forward]
      exact and_iff_left (decide_eq_true hc)
    · rw [if_neg hs, if_pos hc, h.forward]
      constructor
      · rintro ⟨other, hother, hsession⟩
        refine ⟨other, List.mem_filter.mpr ⟨hother, decide_eq_true ?_⟩, hsession⟩
        rintro rfl
        exact hs hsession.symm
      · rintro ⟨other, hother, hsession⟩
        exact ⟨other, List.mem_of_mem_filter hother, hsession⟩
    · rw [if_neg hs, if_neg hc]
      exact h.forward s c

theorem agree_dropSession (h : r.Agree) (now : Millis) : (r.dropSession session now).1.Agree := by
  have hspec := dropCanonicals_spec session now (r.canonicals session)
    ({ r with forward := r.forward.erase session }, []) ⟨h.nonempty, h.disjoint⟩
  refine ⟨hspec.1, fun s c ↦ ?_⟩
  rw [canonicals_dropSession h.toTidy, subscribers_dropSession h.toTidy]
  by_cases hs : s = session
  · rw [if_pos hs]
    refine iff_of_false List.not_mem_nil ?_
    rintro ⟨sub, hsub, hsession⟩
    split at hsub
    · exact of_decide_eq_true (List.mem_filter.mp hsub).2 (hsession.trans hs)
    · next hmem => exact hmem ((h.forward _ _).mpr ⟨sub, hsub, hsession.trans hs⟩)
  · rw [if_neg hs, h.forward]
    split
    · constructor
      · rintro ⟨sub, hsub, hsession⟩
        refine ⟨sub, List.mem_filter.mpr ⟨hsub, decide_eq_true ?_⟩, hsession⟩
        exact fun heq ↦ hs (hsession.symm.trans heq)
      · rintro ⟨sub, hsub, hsession⟩
        exact ⟨sub, List.mem_of_mem_filter hsub, hsession⟩
    · rfl

theorem agree_of_grace (h : r.Agree) {r' : SubscriptionRegistry}
    (hforward : r'.forward = r.forward) (hreverse : r'.reverse = r.reverse)
    (hgrace : ∀ c, r.grace.lookup c = none → r'.grace.lookup c = none) : r'.Agree where
  nonempty := fun c ↦ hreverse ▸ h.nonempty c
  disjoint := fun c hc ↦ hgrace c (h.disjoint c (hreverse ▸ hc))
  forward := by
    intro s c
    rw [canonicals, subscribers, subscribersOf, hforward, hreverse]
    exact h.forward s c

theorem agree_step_iff (h : r.Agree) (op : RegistryOp) :
    (r.step op).Agree ↔ r.UnsubscribesLast op := by
  cases op with
  | subscribe sub canonical =>
      exact iff_of_true (agree_subscribe h sub) fun _ _ _ heq ↦ by cases heq
  | unsubscribe sub canonical now =>
      rw [step, agree_unsubscribe_iff h]
      constructor
      · rintro hlast _ _ _ ⟨⟩
        exact hlast
      · intro hlast
        exact hlast sub canonical now rfl
  | dropSession session now =>
      exact iff_of_true (agree_dropSession h now) fun _ _ _ heq ↦ by cases heq
  | reap now =>
      refine iff_of_true (agree_of_grace h rfl rfl fun c hc ↦ ?_) fun _ _ _ heq ↦ by cases heq
      rw [step, grace_reap, hc, ite_self]
  | enforceWatchBudget max =>
      refine iff_of_true (agree_of_grace h (forward_enforceWatchBudget max)
        (reverse_enforceWatchBudget max) fun c hc ↦ ?_) fun _ _ _ heq ↦ by cases heq
      rw [step, grace_enforceWatchBudget, hc, ite_self]

theorem agree_new : new.Agree where
  nonempty := fun _ h ↦ by cases h
  disjoint := fun _ h ↦ by cases h
  forward := by
    intro session canonical
    refine iff_of_false List.not_mem_nil ?_
    rintro ⟨_, hsub, -⟩
    cases hsub

end Updates

/-- In every run the indexes agree in each state, and sessions and grace end as they should,
exactly when each subscription that is given up is the last one of its session at the
directory. -/
theorem indexes_agree_iff (ops : List RegistryOp) :
    (Throughout step Agree .new ops ∧ Meets step Lawful .new ops) ↔
      Meets step UnsubscribesLast .new ops := by
  have hiff : Throughout step Agree .new ops ↔ Meets step UnsubscribesLast .new ops := by
    refine throughout_iff_meets (Q := fun _ ↦ True) (fun _ _ _ ↦ trivial) ?_ trivial agree_new
    exact fun _ op _ h ↦ agree_step_iff h op
  rw [← hiff]
  refine ⟨And.left, fun h ↦ ⟨h, ?_⟩⟩
  apply meets_of_meets _ _ agree_new (hiff.mp h)
  · exact fun _ op hr hlast ↦ (agree_step_iff hr op).mpr hlast
  · exact fun _ op hr _ ↦ hr.lawful op

def twoEntries : List RegistryOp :=
  [.subscribe ⟨"s", "pe1", ""⟩ "file:///work/app", .subscribe ⟨"s", "pe2", ""⟩ "file:///work/app",
    .unsubscribe ⟨"s", "pe1", ""⟩ "file:///work/app" 0]

theorem twoEntries_disagree :
    ¬ (Throughout step Agree .new (twoEntries ++ [.dropSession "s" 1]) ∧
      Meets step Lawful .new (twoEntries ++ [.dropSession "s" 1])) := by
  rintro ⟨-, hlawful⟩
  have hdrop := (meets_append.mp hlawful).2.1
  exact hdrop.dropped "s" 1 rfl "file:///work/app" ⟨"s", "pe2", ""⟩ (by decide) rfl

end SubscriptionRegistry

end Zaowutai.Explorer
