import Zaowutai.Explorer.Reconcile
import Zaowutai.Explorer.WatchedNodes

/-!
# The replicas of the subscribers

The outputs of the shard go to the subscribers' listings.  A reply to a
subscription or a remount goes to the one who asked, and what a watcher event
or a rescan puts out goes to every subscriber of the directory.
-/

namespace Zaowutai.Explorer

open Zaowutai.Lib

structure Replicas where
  shard : Shard
  listings : FactCache Subscriber

/-- A command, what the file system answers to it, and for a remount who asked for it. -/
structure Dispatch where
  command : Command
  answers : FsAnswers
  target : Subscriber

namespace Replicas

section Model

variable (urls : UrlCrate) (r : Replicas)

def new (schemes : List String) (warmBudget : ℕ) : Replicas := ⟨.new schemes warmBudget, ∅⟩

/-- A reply carries the snapshots, under the name that the request gave the directory. -/
def reply (target : Subscriber) (listings : FactCache Subscriber) :
    ShardOutput → FactCache Subscriber
  | .snapshot _ snapshot => listings.applySnapshot target (wireEntries snapshot)
  | .delta _ _ => listings

def fanOut (listings : FactCache Subscriber) : ShardOutput → FactCache Subscriber
  | .snapshot subscribers snapshot =>
      subscribers.foldl (fun listings sub ↦ listings.applySnapshot sub (wireEntries snapshot))
        listings
  | .delta subscribers delta =>
      subscribers.foldl (fun listings sub ↦
        listings.applyDelta sub (delta.changes.map changeToWire)) listings

def deliver (d : Dispatch) (listings : FactCache Subscriber) (outputs : List ShardOutput) :
    FactCache Subscriber :=
  match d.command with
  | .subscribe sub _ _ => outputs.foldl (reply sub) listings
  | .remount _ => outputs.foldl (reply d.target) listings
  | _ => outputs.foldl fanOut listings

def step (d : Dispatch) : Replicas :=
  { shard := (r.shard.handle urls d.answers d.command).1
    listings := match (r.shard.handle urls d.answers d.command).2 with
      | .ok outputs => deliver d r.listings outputs
      | .error _ => r.listings }

end Model

section Laws

variable (urls : UrlCrate) (r : Replicas)

def Holds (sub : Subscriber) (m : Listing) : Prop :=
  ∃ entries, r.listings.lookup sub = some entries ∧ Shows entries m

def Converged : Prop :=
  ∀ canonical node, r.shard.tree.nodes.lookup canonical = some node →
    ∀ sub ∈ r.shard.recipients canonical, r.Holds sub node.entries

/-- None of the receivers subscribes, under the same name, to another mounted directory with
other names or kinds. -/
def Alone (receivers : List Subscriber) (canonical : String) (m : Listing) : Prop :=
  ∀ sub ∈ receivers, ∀ c node, c ≠ canonical → r.shard.tree.nodes.lookup c = some node →
    sub ∈ r.shard.recipients c → kinds node.entries = kinds m

/-- The other subscribers of the directory have the listing already. -/
def OthersHold (sub : Subscriber) (canonical : String) (m : Listing) : Prop :=
  ∀ other ∈ r.shard.recipients canonical, other ≠ sub → r.Holds other m

def Serves (answers : FsAnswers) (canonical : String) (m : Listing) : Prop :=
  (∃ node, r.shard.tree.nodes.lookup canonical = some node ∧ m = node.entries) ∨
    r.shard.tree.nodes.lookup canonical = none ∧
      ∃ rows, TreeModel.MountSucceeds urls answers r.shard.tree canonical rows ∧
        m = collect rows

/-- A fresh listing that only the requester gets is the one that the others have, a
reconciliation moves the names that change their kind, and what is delivered does not replace
the listing of another directory. -/
def InStep (d : Dispatch) : Prop :=
  match d.command with
  | .subscribe sub canonical _ => ∀ m, r.Serves urls d.answers canonical m →
      r.OthersHold sub canonical m ∧ r.Alone [sub] canonical m
  | .remount canonical => r.shard.subs.isWatched canonical = true →
      ∀ rows, TreeModel.MountSucceeds urls d.answers r.shard.tree canonical rows →
        r.OthersHold d.target canonical (collect rows) ∧
          r.Alone [d.target] canonical (collect rows)
  | .apply canonical hint => ∀ node fresh,
      r.shard.tree.Reads urls d.answers canonical hint node fresh →
        r.shard.recipients canonical ≠ [] → KindChangesMoved node.entries fresh ∧
          r.Alone (r.shard.recipients canonical) canonical fresh
  | .overflow canonical => ∀ node fresh,
      r.shard.tree.Reads urls d.answers canonical .all node fresh →
        r.Alone (r.shard.recipients canonical) canonical fresh
  | .unsubscribe _ _ _ | .dropSession _ _ | .reapTick _ => True

structure Sound : Prop where
  shard : r.shard.Sound urls
  nodup : ∀ canonical, (r.shard.recipients canonical).Nodup

end Laws

section Delivery

variable {urls : UrlCrate} {r r' : Replicas} {canonical : String} {m m' : Listing}
  {receivers : List Subscriber}

theorem Holds.congr {sub : Subscriber} (h : r.Holds sub m) (hkinds : kinds m' = kinds m) :
    r.Holds sub m' := by
  obtain ⟨entries, hlookup, hshows⟩ := h
  exact ⟨entries, hlookup, hshows.nodup, hshows.kinds.trans hkinds.symm⟩

theorem Holds.kinds_eq {sub : Subscriber} (h : r.Holds sub m) (h' : r.Holds sub m') :
    kinds m = kinds m' := by
  obtain ⟨entries, hlookup, hshows⟩ := h
  obtain ⟨entries', hlookup', hshows'⟩ := h'
  rw [hlookup] at hlookup'
  cases hlookup'
  exact hshows.kinds.symm.trans hshows'.kinds

theorem converged_of_quiet (h : r.Converged) (hlistings : r'.listings = r.listings)
    (hnodes : ∀ c node', r'.shard.tree.nodes.lookup c = some node' →
      ∀ sub ∈ r'.shard.recipients c, sub ∈ r.shard.recipients c ∧
        ∃ node, r.shard.tree.nodes.lookup c = some node ∧
          kinds node'.entries = kinds node.entries) : r'.Converged := by
  intro c node' hnode' sub hsub
  obtain ⟨hbefore, node, hnode, hkinds⟩ := hnodes c node' hnode' sub hsub
  rw [Holds, hlistings]
  exact (h c node hnode sub hbefore).congr hkinds

theorem converged_iff_of_delivery (h : r.Converged)
    (hnode : ∃ node, r'.shard.tree.nodes.lookup canonical = some node ∧
      kinds node.entries = kinds m)
    (hnodes : ∀ c, c ≠ canonical →
      r'.shard.tree.nodes.lookup c = r.shard.tree.nodes.lookup c)
    (hrecipients : ∀ c, c ≠ canonical → r'.shard.recipients c = r.shard.recipients c)
    (hgot : ∀ sub ∈ receivers, r'.Holds sub m)
    (hkept : ∀ sub, sub ∉ receivers → r'.listings.lookup sub = r.listings.lookup sub) :
    r'.Converged ↔
      (∀ sub ∈ r'.shard.recipients canonical, sub ∉ receivers → r.Holds sub m) ∧
        r.Alone receivers canonical m := by
  obtain ⟨node, hnode, hkinds⟩ := hnode
  have hsame : ∀ sub m, sub ∉ receivers → (r'.Holds sub m ↔ r.Holds sub m) := by
    intro sub m hsub
    rw [Holds, Holds, hkept sub hsub]
  constructor
  · intro h'
    constructor
    · intro sub hsub hnot
      exact (hsame sub m hnot).mp ((h' canonical node hnode sub hsub).congr hkinds.symm)
    · intro sub hsub c other hc hother hmem
      rw [← hnodes c hc] at hother
      rw [← hrecipients c hc] at hmem
      exact (h' c other hother sub hmem).kinds_eq (hgot sub hsub)
  · rintro ⟨hothers, halone⟩ c other hother sub hmem
    by_cases hc : c = canonical
    · subst hc
      rw [hnode] at hother
      cases hother
      by_cases hsub : sub ∈ receivers
      · exact (hgot sub hsub).congr hkinds
      · exact ((hsame sub m hsub).mpr (hothers sub hmem hsub)).congr hkinds
    · rw [hnodes c hc] at hother
      rw [hrecipients c hc] at hmem
      by_cases hsub : sub ∈ receivers
      · exact (hgot sub hsub).congr (halone sub hsub c other hc hother hmem)
      · exact (hsame sub _ hsub).mpr (h c other hother sub hmem)

theorem lookup_fanOut_snapshot (listings : FactCache Subscriber) (receivers : List Subscriber)
    (snapshot : Snapshot) (sub : Subscriber) :
    (fanOut listings (.snapshot receivers snapshot)).lookup sub =
      if sub ∈ receivers then some (wireEntries snapshot) else listings.lookup sub := by
  induction receivers generalizing listings with
  | nil => rfl
  | cons receiver receivers ih =>
      have hstep : fanOut listings (.snapshot (receiver :: receivers) snapshot) =
          fanOut (listings.applySnapshot receiver (wireEntries snapshot))
            (.snapshot receivers snapshot) := rfl
      rw [hstep, ih, FactCache.applySnapshot, Table.lookup_insert_eq]
      by_cases heq : sub = receiver <;> simp [heq]

theorem lookup_applyDelta (listings : FactCache Subscriber) (receiver sub : Subscriber)
    (changes : List WireChange) :
    (listings.applyDelta receiver changes).lookup sub =
      if sub = receiver then (listings.lookup sub).map fun entries ↦ changes.foldl applyChange entries
      else listings.lookup sub := by
  rw [FactCache.applyDelta]
  split
  · next hnone =>
      split
      · next heq => rw [heq, hnone, Option.map_none]
      · rfl
  · next existing hsome =>
      rw [Table.lookup_insert_eq]
      split
      · next heq => rw [heq, hsome, Option.map_some]
      · rfl

theorem lookup_fanOut_delta (listings : FactCache Subscriber) {receivers : List Subscriber}
    (hnodup : receivers.Nodup) (delta : DeltaBatch) (sub : Subscriber) :
    (fanOut listings (.delta receivers delta)).lookup sub =
      if sub ∈ receivers then (listings.lookup sub).map fun entries ↦
        (delta.changes.map changeToWire).foldl applyChange entries
      else listings.lookup sub := by
  induction receivers generalizing listings with
  | nil => rfl
  | cons receiver receivers ih =>
      have hstep : fanOut listings (.delta (receiver :: receivers) delta) =
          fanOut (listings.applyDelta receiver (delta.changes.map changeToWire))
            (.delta receivers delta) := rfl
      rw [List.nodup_cons] at hnodup
      rw [hstep, ih _ hnodup.2, lookup_applyDelta]
      by_cases heq : sub = receiver
      · subst heq
        simp [hnodup.1]
      · simp [heq]

end Delivery

section Steps

variable {urls : UrlCrate} {r : Replicas} {canonical : String}

theorem sound_step (h : r.Sound urls) (d : Dispatch) : (r.step urls d).Sound urls := by
  refine ⟨Shard.sound_step h.shard (d.command, d.answers), ?_⟩
  obtain ⟨command, answers, target⟩ := d
  intro c
  have hc := h.nodup c
  cases command with
  | subscribe sub canonical now =>
      simp only [step, Shard.handle, Shard.recipients,
        SubscriptionRegistry.subscribers_subscribe]
      split
      · exact hc.insert
      · exact hc
  | unsubscribe sub canonical now =>
      simp only [step, Shard.handle, Shard.recipients,
        SubscriptionRegistry.subscribers_unsubscribe]
      split
      · exact hc.filter _
      · exact hc
  | remount canonical =>
      simp only [step, Shard.handle]
      split <;> exact hc
  | apply canonical hint => exact hc
  | overflow canonical =>
      simp only [step, Shard.handle]
      split <;> exact hc
  | dropSession session now =>
      simp only [step, Shard.handle, Shard.recipients,
        SubscriptionRegistry.subscribers_dropSession h.shard.tidy]
      split
      · exact hc.filter _
      · exact hc
  | reapTick now =>
      simp only [step, Shard.handle, Shard.recipients, SubscriptionRegistry.subscribers,
        SubscriptionRegistry.subscribersOf, SubscriptionRegistry.reverse_enforceWatchBudget,
        SubscriptionRegistry.reverse_reap]
      exact hc

theorem converged_mount_iff (h : r.Converged) {t : TreeModel} {subs : SubscriptionRegistry}
    {budget : ℕ} {answers : FsAnswers} {addressed : List Subscriber} (target : Subscriber)
    (hnone : t.nodes.lookup canonical = none)
    (hnodes : ∀ c, c ≠ canonical → t.nodes.lookup c = r.shard.tree.nodes.lookup c)
    (hrecipients : ∀ c, c ≠ canonical → subs.subscribers c = r.shard.recipients c) :
    Converged ⟨⟨(t.mount urls answers canonical).1, subs, budget⟩,
        match (t.mount urls answers canonical).2.map fun snapshot ↦
            [ShardOutput.snapshot addressed snapshot] with
        | .ok outputs => outputs.foldl (reply target) r.listings
        | .error _ => r.listings⟩ ↔
      ∀ rows, TreeModel.MountSucceeds urls answers t canonical rows →
        (∀ sub ∈ subs.subscribers canonical, sub ∉ [target] → r.Holds sub (collect rows)) ∧
          r.Alone [target] canonical (collect rows) := by
  rcases TreeModel.mount_cases urls answers hnone with
    ⟨rows, hmount, heq⟩ | ⟨hfails, hsame, -, e, herror⟩
  · have hrows : ∀ rows', TreeModel.MountSucceeds urls answers t canonical rows' ↔
        rows' = rows := by
      intro rows'
      constructor
      · intro hmount'
        have hread := hmount'.readDir.symm.trans hmount.readDir
        cases hread
        rfl
      · rintro rfl
        exact hmount
    simp only [hrows, forall_eq, heq, Except.map, List.foldl_cons, List.foldl_nil, reply]
    refine converged_iff_of_delivery h ?_ ?_ hrecipients ?_ ?_
    · exact ⟨⟨collect rows, ⟨canonical⟩⟩, by rw [AList.lookup_insert], rfl⟩
    · intro c hc
      rw [AList.lookup_insert_ne hc, hnodes c hc]
    · intro sub hsub
      obtain rfl := List.mem_singleton.mp hsub
      exact ⟨_, AList.lookup_insert _, shows_wireEntries canonical (collect rows)⟩
    · intro sub hsub
      exact AList.lookup_insert_ne fun heq ↦ hsub (List.mem_singleton.mpr heq)
  · simp only [herror, Except.map]
    refine iff_of_true (converged_of_quiet h (by rfl) ?_) fun rows hmount ↦ (hfails rows hmount).elim
    intro c node hnode sub hsub
    simp only [hsame] at hnode
    have hc : c ≠ canonical := by
      rintro rfl
      cases hnone.symm.trans hnode
    rw [hnodes c hc] at hnode
    exact ⟨hrecipients c hc ▸ hsub, node, hnode, rfl⟩

theorem converged_subscribe_iff (h : r.Converged) (sub : Subscriber) (now : Millis)
    (answers : FsAnswers) (target : Subscriber) :
    (r.step urls ⟨.subscribe sub canonical now, answers, target⟩).Converged ↔
      r.InStep urls ⟨.subscribe sub canonical now, answers, target⟩ := by
  have hrecipients : ∀ c, c ≠ canonical →
      (r.shard.subs.subscribe sub canonical).1.subscribers c = r.shard.recipients c := by
    intro c hc
    rw [SubscriptionRegistry.subscribers_subscribe, if_neg hc, Shard.recipients]
  have hothers : ∀ m, (∀ other ∈ (r.shard.subs.subscribe sub canonical).1.subscribers canonical,
      other ∉ [sub] → r.Holds other m) ↔ r.OthersHold sub canonical m := by
    intro m
    rw [SubscriptionRegistry.subscribers_subscribe, if_pos rfl, OthersHold, Shard.recipients]
    constructor
    · intro hall other hother hne
      exact hall other (List.mem_insert_of_mem hother) (by simpa using hne)
    · intro hall other hother hne
      rw [List.mem_singleton] at hne
      exact hall other ((List.mem_insert_iff.mp hother).resolve_left hne) hne
  simp only [step, Shard.handle, deliver, Shard.serve_eq, InStep]
  cases hnode : r.shard.tree.nodes.lookup canonical with
  | none =>
      rw [converged_mount_iff h sub hnode (fun _ _ ↦ rfl) hrecipients]
      simp only [hothers]
      constructor
      · rintro hall m (⟨node, hsome, -⟩ | ⟨-, rows, hmount, rfl⟩)
        · cases hnode.symm.trans hsome
        · exact hall rows hmount
      · intro hall rows hmount
        exact hall (collect rows) (.inr ⟨hnode, rows, hmount, rfl⟩)
  | some node =>
      have hserves : ∀ m, r.Serves urls answers canonical m ↔ m = node.entries := by
        intro m
        constructor
        · rintro (⟨node', hsome, rfl⟩ | ⟨hnone, -⟩)
          · rw [Option.some.inj (hsome.symm.trans hnode)]
          · cases hnode.symm.trans hnone
        · exact fun heq ↦ .inl ⟨node, hnode, heq⟩
      simp only [hserves, forall_eq, ← hothers, TreeModel.mount_of_mounted hnode, Except.map,
        List.foldl_cons, List.foldl_nil, reply]
      refine converged_iff_of_delivery h ⟨node, hnode, rfl⟩ (fun _ _ ↦ rfl) hrecipients ?_ ?_
      · intro other hother
        obtain rfl := List.mem_singleton.mp hother
        exact ⟨_, AList.lookup_insert _, shows_wireEntries canonical node.entries⟩
      · intro other hother
        exact AList.lookup_insert_ne fun heq ↦ hother (List.mem_singleton.mpr heq)

theorem converged_remount_iff (h : r.Converged) (answers : FsAnswers) (target : Subscriber) :
    (r.step urls ⟨.remount canonical, answers, target⟩).Converged ↔
      r.InStep urls ⟨.remount canonical, answers, target⟩ := by
  by_cases hwatched : r.shard.subs.isWatched canonical = true
  · simp only [step, Shard.handle, deliver, InStep, hwatched, Bool.not_true, Bool.false_eq_true,
      if_false, forall_const]
    have hnone : (r.shard.tree.unmount urls canonical).nodes.lookup canonical = none := by
      rw [TreeModel.lookup_unmount, if_pos rfl]
    rw [converged_mount_iff h target hnone
      (fun c hc ↦ by rw [TreeModel.lookup_unmount, if_neg hc]) (fun _ _ ↦ rfl)]
    simp only [TreeModel.mountSucceeds_unmount, List.mem_singleton]
    rfl
  · simp only [step, Shard.handle, deliver, InStep, hwatched, Bool.not_false, if_true,
      false_implies, iff_true, List.foldl_nil, Bool.false_eq_true]
    exact h

theorem apply_of_reads {answers : FsAnswers} {hint : Hint} {node : Node} {fresh : Listing}
    {t : TreeModel} (h : t.Reads urls answers canonical hint node fresh) :
    (∃ node', (t.apply urls answers canonical hint).1.nodes.lookup canonical = some node' ∧
        kinds node'.entries = kinds fresh) ∧
      (∀ c, c ≠ canonical →
        (t.apply urls answers canonical hint).1.nodes.lookup c = t.nodes.lookup c) ∧
      ∃ delta, (t.apply urls answers canonical hint).2 = .ok delta := by
  rw [TreeModel.apply_of_reads h]
  split
  · next hdiff =>
      exact ⟨⟨node, h.mounted, (kinds_eq_of_diff_eq_nil hdiff).symm⟩, fun _ _ ↦ rfl, _, rfl⟩
  · refine ⟨⟨{ node with entries := fresh }, ?_, rfl⟩, ?_, _, rfl⟩
    · rw [Table.lookup_modify, if_pos rfl, h.mounted, Option.map_some]
    · intro c hc
      rw [Table.lookup_modify, if_neg hc]

theorem inStep_apply_iff {answers : FsAnswers} {hint : Hint} {node : Node} {fresh : Listing}
    (h : r.shard.tree.Reads urls answers canonical hint node fresh) (target : Subscriber) :
    r.InStep urls ⟨.apply canonical hint, answers, target⟩ ↔
      (r.shard.recipients canonical ≠ [] → KindChangesMoved node.entries fresh ∧
        r.Alone (r.shard.recipients canonical) canonical fresh) := by
  constructor
  · exact fun hall ↦ hall node fresh h
  · intro hall node' fresh' h'
    obtain ⟨rfl, rfl⟩ := h.unique h'
    exact hall

theorem converged_apply_iff (hs : r.Sound urls) (h : r.Converged) (hint : Hint)
    (answers : FsAnswers) (target : Subscriber) :
    (r.step urls ⟨.apply canonical hint, answers, target⟩).Converged ↔
      r.InStep urls ⟨.apply canonical hint, answers, target⟩ := by
  by_cases hreads : ∃ node fresh, r.shard.tree.Reads urls answers canonical hint node fresh
  · obtain ⟨node, fresh, hreads⟩ := hreads
    rw [inStep_apply_iff hreads]
    have happly := TreeModel.apply_of_reads hreads
    obtain ⟨hnode, hnodes, -⟩ := apply_of_reads hreads
    split at happly
    · next hdiff =>
        -- nothing is reported, so nothing has to be moved
        have hkinds := kinds_eq_of_diff_eq_nil hdiff
        refine iff_of_true ?_ fun _ ↦ ⟨?_, ?_⟩
        · simp only [step, Shard.handle, happly, Except.map, deliver, List.foldl_nil]
          exact h
        · intro name _ _ hne
          exact absurd (congrFun hkinds name) hne
        · intro sub hsub c other _ hother hmem
          rw [hkinds]
          exact (h c other hother sub hmem).kinds_eq (h canonical node hreads.mounted sub hsub)
    · next hdiff =>
        by_cases hnil : r.shard.recipients canonical = []
        · refine iff_of_true (converged_of_quiet h ?_ ?_) fun hne ↦ absurd hnil hne
          · simp only [step, Shard.handle, happly, Except.map, deliver, hnil, List.isEmpty_nil,
              if_true, List.foldl_nil]
          · intro c node' hnode' sub hsub
            have hc : c ≠ canonical := by
              rintro rfl
              have hsub' : sub ∈ r.shard.recipients c := hsub
              rw [hnil] at hsub'
              cases hsub'
            rw [← hnodes c hc]
            exact ⟨hsub, node', hnode', rfl⟩
        · have hlistings : (r.step urls ⟨.apply canonical hint, answers, target⟩).listings =
              fanOut r.listings (.delta (r.shard.recipients canonical)
                ⟨canonical, diff node.entries fresh⟩) := by
            simp only [step, Shard.handle, happly, Except.map, deliver, List.isEmpty_iff,
              if_neg hnil, List.foldl_cons, List.foldl_nil]
          have hgot : ∀ sub ∈ r.shard.recipients canonical,
              ((r.step urls ⟨.apply canonical hint, answers, target⟩).Holds sub fresh ↔
                KindChangesMoved node.entries fresh) := by
            intro sub hsub
            obtain ⟨entries, hentries, hshows⟩ := h canonical node hreads.mounted sub hsub
            rw [← shows_diff_iff hshows, Holds, hlistings,
              lookup_fanOut_delta _ (hs.nodup canonical), if_pos hsub, hentries, Option.map_some]
            simp only [Option.some.injEq, exists_eq_left']
          have hkept : ∀ sub, sub ∉ r.shard.recipients canonical →
              (r.step urls ⟨.apply canonical hint, answers, target⟩).listings.lookup sub =
                r.listings.lookup sub := by
            intro sub hsub
            rw [hlistings, lookup_fanOut_delta _ (hs.nodup canonical), if_neg hsub]
          by_cases hmoved : KindChangesMoved node.entries fresh
          · have hdelivery : (r.step urls ⟨.apply canonical hint, answers, target⟩).Converged ↔
                (∀ sub ∈ r.shard.recipients canonical, sub ∉ r.shard.recipients canonical →
                  r.Holds sub fresh) ∧ r.Alone (r.shard.recipients canonical) canonical fresh :=
              converged_iff_of_delivery h hnode hnodes (fun _ _ ↦ rfl)
                (fun sub hsub ↦ (hgot sub hsub).mpr hmoved) hkept
            rw [hdelivery]
            constructor
            · exact fun hall _ ↦ ⟨hmoved, hall.2⟩
            · exact fun hall ↦ ⟨fun sub hsub hnot ↦ absurd hsub hnot, (hall hnil).2⟩
          · refine iff_of_false (fun h' ↦ hmoved ?_) fun hall ↦ hmoved (hall hnil).1
            obtain ⟨sub, hsub⟩ := List.exists_mem_of_ne_nil _ hnil
            obtain ⟨node', hnode', hkinds⟩ := hnode
            exact (hgot sub hsub).mp ((h' canonical node' hnode' sub hsub).congr hkinds.symm)
  · refine iff_of_true ?_ fun node fresh h' ↦ (hreads ⟨node, fresh, h'⟩).elim
    rcases TreeModel.apply_of_not_reads fun node fresh h' ↦ hreads ⟨node, fresh, h'⟩ with
      ⟨-, heq⟩ | ⟨-, e, heq⟩
    · simp only [step, Shard.handle, heq, Except.map, deliver, List.foldl_nil]
      exact h
    · simp only [step, Shard.handle, heq, Except.map]
      exact h

theorem converged_overflow_iff (h : r.Converged) (answers : FsAnswers) (target : Subscriber) :
    (r.step urls ⟨.overflow canonical, answers, target⟩).Converged ↔
      r.InStep urls ⟨.overflow canonical, answers, target⟩ := by
  by_cases hreads : ∃ node fresh, r.shard.tree.Reads urls answers canonical .all node fresh
  · obtain ⟨node, fresh, hreads⟩ := hreads
    have hguard : r.InStep urls ⟨.overflow canonical, answers, target⟩ ↔
        r.Alone (r.shard.recipients canonical) canonical fresh := by
      constructor
      · exact fun hall ↦ hall node fresh hreads
      · intro hall node' fresh' h'
        obtain ⟨rfl, rfl⟩ := hreads.unique h'
        exact hall
    rw [hguard]
    obtain ⟨⟨node', hnode', hkinds⟩, hnodes, delta, hdelta⟩ := apply_of_reads hreads
    have hmounted : r.shard.tree.snapshot canonical = some ⟨canonical, inOrder node.entries⟩ := by
      rw [TreeModel.snapshot, hreads.mounted, Option.map_some]
    have hsnapshot : (r.shard.tree.apply urls answers canonical .all).1.snapshot canonical =
        some ⟨canonical, inOrder node'.entries⟩ := by
      rw [TreeModel.snapshot, hnode', Option.map_some]
    by_cases hnil : r.shard.recipients canonical = []
    · refine iff_of_true (converged_of_quiet h ?_ ?_) ?_
      · simp only [step, Shard.handle, hmounted, Option.isNone_some, Bool.false_eq_true, if_false,
          hdelta, Except.map, deliver, hnil, List.isEmpty_nil, List.foldl_nil]
      · intro c other hother sub hsub
        simp only [step, Shard.handle, hmounted, Option.isNone_some, Bool.false_eq_true, if_false]
          at hother hsub
        have hc : c ≠ canonical := by
          rintro rfl
          have hsub' : sub ∈ r.shard.recipients c := hsub
          rw [hnil] at hsub'
          cases hsub'
        rw [hnodes c hc] at hother
        exact ⟨hsub, other, hother, rfl⟩
      · rw [hnil]
        exact fun sub hsub ↦ (by cases hsub)
    · have hempty : (r.shard.recipients canonical).isEmpty = false := by
        rw [← Bool.not_eq_true, List.isEmpty_iff]
        exact hnil
      have hstep : r.step urls ⟨.overflow canonical, answers, target⟩ =
          ⟨{ r.shard with tree := (r.shard.tree.apply urls answers canonical .all).1 },
            fanOut r.listings (.snapshot (r.shard.recipients canonical)
              ⟨canonical, inOrder node'.entries⟩)⟩ := by
        simp only [step, Shard.handle, hmounted, Option.isNone_some, Bool.false_eq_true, if_false,
          hdelta, Except.map, deliver, hempty, hsnapshot, List.foldl_cons, List.foldl_nil]
      have hdelivery : (r.step urls ⟨.overflow canonical, answers, target⟩).Converged ↔
          (∀ sub ∈ r.shard.recipients canonical, sub ∉ r.shard.recipients canonical →
            r.Holds sub fresh) ∧ r.Alone (r.shard.recipients canonical) canonical fresh := by
        rw [hstep]
        refine converged_iff_of_delivery h ⟨node', hnode', hkinds⟩ hnodes (fun _ _ ↦ rfl) ?_ ?_
        · intro sub hsub
          refine Holds.congr ⟨_, ?_, shows_wireEntries canonical node'.entries⟩ hkinds.symm
          rw [lookup_fanOut_snapshot, if_pos hsub]
        · intro sub hsub
          rw [lookup_fanOut_snapshot, if_neg hsub]
      rw [hdelivery]
      exact and_iff_right fun sub hsub hnot ↦ absurd hsub hnot
  · refine iff_of_true ?_ fun node fresh h' ↦ (hreads ⟨node, fresh, h'⟩).elim
    simp only [step, Shard.handle]
    rcases TreeModel.apply_of_not_reads fun node fresh h' ↦ hreads ⟨node, fresh, h'⟩ with
      ⟨hnone, -⟩ | ⟨hsome, e, heq⟩
    · simp only [TreeModel.snapshot, hnone, Option.map_none, Option.isNone_none, if_true, deliver,
        List.foldl_nil]
      exact h
    · simp only [TreeModel.snapshot, Option.isNone_map, Option.isNone_iff_eq_none,
        Option.ne_none_iff_isSome.mpr hsome, if_false, heq, Except.map]
      exact h

theorem converged_step_iff (hs : r.Sound urls) (h : r.Converged) (d : Dispatch) :
    (r.step urls d).Converged ↔ r.InStep urls d := by
  obtain ⟨command, answers, target⟩ := d
  cases command with
  | subscribe sub canonical now => exact converged_subscribe_iff h sub now answers target
  | remount canonical => exact converged_remount_iff h answers target
  | apply canonical hint => exact converged_apply_iff hs h hint answers target
  | overflow canonical => exact converged_overflow_iff h answers target
  | unsubscribe sub canonical now =>
      refine iff_of_true (converged_of_quiet h (by rfl) ?_) trivial
      intro c node hnode other hother
      have hmem : other ∈ (r.shard.subs.unsubscribe sub canonical now).1.subscribers c := hother
      refine ⟨?_, node, hnode, rfl⟩
      rw [SubscriptionRegistry.subscribers_unsubscribe] at hmem
      split at hmem
      · exact List.mem_of_mem_filter hmem
      · exact hmem
  | dropSession session now =>
      refine iff_of_true (converged_of_quiet h (by rfl) ?_) trivial
      intro c node hnode other hother
      have hmem : other ∈ (r.shard.subs.dropSession session now).1.subscribers c := hother
      refine ⟨?_, node, hnode, rfl⟩
      rw [SubscriptionRegistry.subscribers_dropSession hs.shard.tidy] at hmem
      split at hmem
      · exact List.mem_of_mem_filter hmem
      · exact hmem
  | reapTick now =>
      refine iff_of_true (converged_of_quiet h (by rfl) ?_) trivial
      intro c node hnode other hother
      simp only [step, Shard.handle, Shard.lookup_unmountAll] at hnode
      split at hnode
      · cases hnode
      · split at hnode
        · cases hnode
        · refine ⟨?_, node, hnode, rfl⟩
          simp only [step, Shard.handle, Shard.recipients, SubscriptionRegistry.subscribers,
            SubscriptionRegistry.subscribersOf, SubscriptionRegistry.reverse_enforceWatchBudget,
            SubscriptionRegistry.reverse_reap] at hother
          exact hother

theorem sound_new (schemes : List String) (warmBudget : ℕ) :
    (new schemes warmBudget).Sound urls where
  shard := Shard.sound_new schemes warmBudget
  nodup := fun _ ↦ List.nodup_nil

theorem converged_new (schemes : List String) (warmBudget : ℕ) :
    (new schemes warmBudget).Converged :=
  fun _ _ h ↦ by cases h

end Steps

/-- The changes between two levels give the fresh names and kinds exactly when each name that
changes its kind is moved away, and the subscribers' listings agree with the nodes after each
command of a run exactly when every command is in step. -/
theorem replicas_converge_iff (urls : UrlCrate) (schemes : List String) (warmBudget : ℕ) :
    (∀ canonical old fresh,
      Shows (((diff old fresh).map changeToWire).foldl applyChange
        (wireEntries ⟨canonical, inOrder old⟩)) fresh ↔ KindChangesMoved old fresh) ∧
    ∀ acts : List Dispatch,
      Throughout (step urls) Converged (new schemes warmBudget) acts ↔
        Meets (step urls) (InStep urls) (new schemes warmBudget) acts := by
  constructor
  · exact fun canonical old fresh ↦ shows_diff_iff (shows_wireEntries canonical old)
  · intro acts
    refine throughout_iff_meets (Q := Sound urls) ?_ ?_ (sound_new schemes warmBudget)
      (converged_new schemes warmBudget)
    · exact fun _ d hs ↦ sound_step hs d
    · exact fun _ d hs h ↦ converged_step_iff hs h d

section Runs

def reader (session : String) : Subscriber := ⟨session, "pe", ""⟩

def reads (rows : List (String × EntryFact)) : FsAnswers := ⟨.ok (), .ok rows, fun _ ↦ .ok none⟩

/-- A file makes way for a directory of the same name. -/
def fileToDir : List Dispatch :=
  [⟨.subscribe (reader "s") "file:///work" 0, reads [("x", ⟨.file, 1, none, none⟩)], reader "s"⟩,
    ⟨.apply "file:///work" .all, reads [("x", ⟨.dir, 2, none, none⟩)], reader "s"⟩]

def remountByOne : List Dispatch :=
  [⟨.subscribe (reader "s") "file:///work" 0, reads [], reader "s"⟩,
    ⟨.subscribe (reader "t") "file:///work" 0, reads [], reader "t"⟩,
    ⟨.remount "file:///work", reads [("x", ⟨.file, 1, none, none⟩)], reader "s"⟩]

theorem not_converged_of_missing {r : Replicas} (canonical name : String) (sub : Subscriber)
    (hkind : ((r.shard.tree.nodes.lookup canonical).bind fun node ↦
      kinds node.entries name).isSome = true)
    (hsub : sub ∈ r.shard.recipients canonical)
    (hmissing : ((r.listings.lookup sub).bind fun entries ↦ kindOf entries name) = none) :
    ¬ r.Converged := by
  intro h
  cases hnode : r.shard.tree.nodes.lookup canonical with
  | none =>
      rw [hnode] at hkind
      cases hkind
  | some node =>
      obtain ⟨entries, hentries, hshows⟩ := h canonical node hnode sub hsub
      rw [hnode, Option.bind_some, ← hshows.kinds] at hkind
      rw [hentries, Option.bind_some] at hmissing
      rw [hmissing] at hkind
      cases hkind

/-- The directory is added and then removed again, and the other subscriber keeps its stale
listing. -/
theorem fileToDir_remountByOne_diverge :
    ¬ Throughout (step Shard.plainUrls) Converged (new ["file"] 8) fileToDir ∧
      ¬ Throughout (step Shard.plainUrls) Converged (new ["file"] 8) remountByOne := by
  constructor
  · intro h
    have hmissing := not_converged_of_missing
      (r := run (step Shard.plainUrls) (new ["file"] 8) fileToDir) "file:///work" "x"
    exact hmissing (reader "s") (by decide) (by decide) (by decide) h.last
  · intro h
    have hmissing := not_converged_of_missing
      (r := run (step Shard.plainUrls) (new ["file"] 8) remountByOne) "file:///work" "x"
    exact hmissing (reader "t") (by decide) (by decide) (by decide) h.last

end Runs

end Replicas

end Zaowutai.Explorer
