import Zaowutai.Explorer.ExplorerStore
import Zaowutai.Explorer.SubscriptionIndexes

/-!
# Watched directories and mounted nodes

A directory that the registry watches should have a node, and the operating
system should watch just the directories with a node.  A command registers a
subscriber, or takes a node away, before it mounts: when the mount fails,
nothing takes the first part back.
-/

namespace Zaowutai.Explorer

open Zaowutai.Lib

namespace TreeModel

variable (urls : UrlCrate) (t : TreeModel)

def Held : Prop :=
  ∀ canonical node, t.nodes.lookup canonical = some node →
    node.watch = ⟨canonical⟩ ∧ t.runtimeFor urls canonical = .ok ()

def ArmedByNodes : Prop :=
  ∀ canonical, canonical ∈ t.runtimes.armed ↔ ∃ node ∈ t.nodes.values, node.watch = ⟨canonical⟩

variable {urls : UrlCrate} {t : TreeModel} {canonical : String}

theorem armedByNodes_iff (h : t.Held urls) :
    t.ArmedByNodes ↔
      ∀ canonical, canonical ∈ t.runtimes.armed ↔ (t.nodes.lookup canonical).isSome = true := by
  have hnodes : ∀ canonical, (∃ node ∈ t.nodes.values, node.watch = ⟨canonical⟩) ↔
      (t.nodes.lookup canonical).isSome = true := by
    intro canonical
    rw [Option.isSome_iff_exists]
    constructor
    · rintro ⟨node, hnode, hwatch⟩
      obtain ⟨key, hkey⟩ := Table.mem_values_iff.mp hnode
      have hown := (h key node hkey).1.symm.trans hwatch
      cases hown
      exact ⟨node, hkey⟩
    · rintro ⟨node, hnode⟩
      exact ⟨node, Table.mem_values_iff.mpr ⟨canonical, hnode⟩, (h canonical node hnode).1⟩
  simp only [ArmedByNodes, hnodes]

theorem held_of_nodes (h : t.Held urls) {t' : TreeModel}
    (hschemes : t'.runtimes.schemes = t.runtimes.schemes)
    (hnodes : ∀ c node, t'.nodes.lookup c = some node →
      ∃ before, t.nodes.lookup c = some before ∧ node.watch = before.watch) : t'.Held urls := by
  intro c node hnode
  obtain ⟨before, hbefore, hwatch⟩ := hnodes c node hnode
  obtain ⟨hown, hruntime⟩ := h c before hbefore
  refine ⟨hwatch.trans hown, ?_⟩
  rw [runtimeFor_congr hschemes]
  exact hruntime

theorem held_mount (h : t.Held urls) (answers : FsAnswers) (canonical : String) :
    (t.mount urls answers canonical).1.Held urls := by
  cases hnode : t.nodes.lookup canonical with
  | some node =>
      rw [mount_of_mounted hnode]
      exact h
  | none =>
      rcases mount_cases urls answers hnode with ⟨rows, hmount, heq⟩ | ⟨-, hnodes, hschemes, -⟩
      · rw [heq]
        intro c node hlookup
        rw [Table.lookup_insert_eq] at hlookup
        split at hlookup
        · next hc =>
            cases hlookup
            subst hc
            exact ⟨rfl, hmount.runtime⟩
        · exact h c node hlookup
      · apply held_of_nodes h hschemes
        intro c node hlookup
        rw [hnodes] at hlookup
        exact ⟨node, hlookup, rfl⟩

theorem held_unmount (h : t.Held urls) (canonical : String) :
    (t.unmount urls canonical).Held urls := by
  apply held_of_nodes h schemes_unmount
  intro c node hlookup
  rw [lookup_unmount] at hlookup
  split at hlookup
  · cases hlookup
  · exact ⟨node, hlookup, rfl⟩

theorem held_apply (h : t.Held urls) (answers : FsAnswers) (canonical : String) (hint : Hint) :
    (t.apply urls answers canonical hint).1.Held urls := by
  rcases t.apply_cases urls answers canonical hint with ⟨node, fresh, -, -, heq⟩ | heq
  · rw [heq]
    refine held_of_nodes h (by rfl) ?_
    intro c after hlookup
    rw [Table.lookup_modify] at hlookup
    split at hlookup
    · obtain ⟨before, hbefore, rfl⟩ := Option.map_eq_some_iff.mp hlookup
      exact ⟨before, hbefore, rfl⟩
    · exact ⟨after, hlookup, rfl⟩
  · rw [heq]
    exact h

theorem armed_unmount (h : t.Held urls)
    (harmed : ∀ c, c ∈ t.runtimes.armed ↔ (t.nodes.lookup c).isSome = true) (c : String) :
    c ∈ (t.unmount urls canonical).runtimes.armed ↔
      ((t.unmount urls canonical).nodes.lookup c).isSome = true := by
  rw [lookup_unmount]
  cases hnode : t.nodes.lookup canonical with
  | none =>
      simp only [unmount, hnode, harmed]
      split
      · next heq => rw [heq, hnode]
      · rfl
  | some node =>
      obtain ⟨hwatch, hruntime⟩ := h canonical node hnode
      have hruntime' : TreeModel.runtimeFor urls { t with nodes := t.nodes.erase canonical }
          canonical = .ok () := hruntime
      simp only [unmount, hnode, hruntime', unwatch, hwatch, Finset.mem_erase, harmed]
      split
      · next heq => simp [heq]
      · next hne => exact and_iff_right hne

theorem isSome_apply (answers : FsAnswers) (canonical : String) (hint : Hint) (c : String) :
    ((t.apply urls answers canonical hint).1.nodes.lookup c).isSome =
      (t.nodes.lookup c).isSome := by
  rcases t.apply_cases urls answers canonical hint with ⟨node, fresh, -, -, heq⟩ | heq
  · rw [heq, Table.lookup_modify]
    split
    · rw [Option.isSome_map]
    · rfl
  · rw [heq]

theorem runtimes_apply (answers : FsAnswers) (canonical : String) (hint : Hint) :
    (t.apply urls answers canonical hint).1.runtimes = t.runtimes := by
  rcases t.apply_cases urls answers canonical hint with ⟨node, fresh, -, -, heq⟩ | heq <;>
    rw [heq]

end TreeModel

namespace Shard

variable (urls : UrlCrate) (s : Shard)

abbrev Request := Command × FsAnswers

def step (s : Shard) (a : Request) : Shard := (s.handle urls a.2 a.1).1

structure WatchedIffMounted : Prop where
  watched : ∀ canonical,
    s.subs.isWatched canonical = true ↔ (s.tree.nodes.lookup canonical).isSome = true
  armed : s.tree.ArmedByNodes

/-- A subscription of a directory that is not watched, and a remount of one that is, find the
runtime, arm the watch and read the listing. -/
def MountsSucceed (a : Request) : Prop :=
  (∀ sub canonical now, a.1 = .subscribe sub canonical now →
    s.subs.isWatched canonical = false →
      ∃ rows, TreeModel.MountSucceeds urls a.2 s.tree canonical rows) ∧
    ∀ canonical, a.1 = .remount canonical → s.subs.isWatched canonical = true →
      ∃ rows, TreeModel.MountSucceeds urls a.2 s.tree canonical rows

structure Sound : Prop where
  held : s.tree.Held urls
  tidy : s.subs.Tidy

variable {urls : UrlCrate} {s : Shard}

theorem held_unmountAll {t : TreeModel} (h : t.Held urls) (canonicals : List String) :
    (unmountAll urls t canonicals).Held urls := by
  induction canonicals generalizing t with
  | nil => exact h
  | cons canonical canonicals ih => exact ih (TreeModel.held_unmount h canonical)

theorem lookup_unmountAll (t : TreeModel) (canonicals : List String) (c : String) :
    (unmountAll urls t canonicals).nodes.lookup c =
      if c ∈ canonicals then none else t.nodes.lookup c := by
  induction canonicals generalizing t with
  | nil => simp [unmountAll]
  | cons canonical canonicals ih =>
      have hstep : unmountAll urls t (canonical :: canonicals) =
          unmountAll urls (t.unmount urls canonical) canonicals := rfl
      rw [hstep, ih, TreeModel.lookup_unmount]
      by_cases hc : c = canonical <;> simp [hc]

theorem armed_unmountAll {t : TreeModel} (h : t.Held urls)
    (harmed : ∀ c, c ∈ t.runtimes.armed ↔ (t.nodes.lookup c).isSome = true)
    (canonicals : List String) (c : String) :
    c ∈ (unmountAll urls t canonicals).runtimes.armed ↔
      ((unmountAll urls t canonicals).nodes.lookup c).isSome = true := by
  induction canonicals generalizing t with
  | nil => exact harmed c
  | cons canonical canonicals ih =>
      exact ih (TreeModel.held_unmount h canonical) (TreeModel.armed_unmount h harmed)

theorem tidy_reap {r : SubscriptionRegistry} (h : r.Tidy) (now : Millis) :
    (r.reap now).1.Tidy where
  nonempty := h.nonempty
  disjoint := by
    intro c hc
    rw [SubscriptionRegistry.grace_reap, h.disjoint c hc, ite_self]

theorem tidy_enforceWatchBudget {r : SubscriptionRegistry} (h : r.Tidy) (max : ℕ) :
    (r.enforceWatchBudget max).1.Tidy where
  nonempty := by
    rw [SubscriptionRegistry.reverse_enforceWatchBudget]
    exact h.nonempty
  disjoint := by
    intro c hc
    rw [SubscriptionRegistry.reverse_enforceWatchBudget] at hc
    rw [SubscriptionRegistry.grace_enforceWatchBudget, h.disjoint c hc, ite_self]

theorem isWatched_of_grace {r r' : SubscriptionRegistry} (h : r.Tidy) {gone : List String}
    (hreverse : r'.reverse = r.reverse)
    (hgrace : ∀ c, r'.grace.lookup c = if c ∈ gone then none else r.grace.lookup c)
    (hgone : ∀ c ∈ gone, (r.grace.lookup c).isSome = true) (c : String) :
    r'.isWatched c = true ↔ c ∉ gone ∧ r.isWatched c = true := by
  rw [SubscriptionRegistry.isWatched_iff, SubscriptionRegistry.isWatched_iff, hreverse, hgrace]
  by_cases hmem : c ∈ gone
  · have hnone : ¬ (r.reverse.lookup c).isSome = true := by
      intro hsome
      have hgraced := hgone c hmem
      rw [h.disjoint c hsome] at hgraced
      cases hgraced
    simp [hmem, hnone]
  · simp [hmem]

theorem sound_step (h : s.Sound urls) (a : Request) : (s.step urls a).Sound urls := by
  obtain ⟨command, answers⟩ := a
  cases command with
  | subscribe sub canonical now =>
      refine ⟨?_, SubscriptionRegistry.tidy_subscribe h.tidy sub⟩
      simp only [step, handle, serve_eq]
      exact TreeModel.held_mount h.held answers canonical
  | unsubscribe sub canonical now =>
      exact ⟨h.held, SubscriptionRegistry.tidy_unsubscribe h.tidy sub now⟩
  | remount canonical =>
      simp only [step, handle]
      split
      · exact h
      · exact ⟨TreeModel.held_mount (TreeModel.held_unmount h.held canonical) answers canonical,
          h.tidy⟩
  | apply canonical hint => exact ⟨TreeModel.held_apply h.held answers canonical hint, h.tidy⟩
  | overflow canonical =>
      simp only [step, handle]
      split
      · exact h
      · exact ⟨TreeModel.held_apply h.held answers canonical .all, h.tidy⟩
  | dropSession session now =>
      refine ⟨h.held, ?_⟩
      exact (SubscriptionRegistry.dropCanonicals_spec session now (s.subs.canonicals session)
        ({ s.subs with forward := s.subs.forward.erase session }, [])
        ⟨h.tidy.nonempty, h.tidy.disjoint⟩).1
  | reapTick now =>
      exact ⟨held_unmountAll (held_unmountAll h.held _) _,
        tidy_enforceWatchBudget (tidy_reap h.tidy now) s.warmBudget⟩

theorem watchedIffMounted_iff (h : s.Sound urls) :
    s.WatchedIffMounted ↔
      ∀ c, (s.subs.isWatched c = true ↔ (s.tree.nodes.lookup c).isSome = true) ∧
        (c ∈ s.tree.runtimes.armed ↔ (s.tree.nodes.lookup c).isSome = true) := by
  constructor
  · intro hw c
    exact ⟨hw.watched c, (TreeModel.armedByNodes_iff h.held).mp hw.armed c⟩
  · intro hw
    exact ⟨fun c ↦ (hw c).1, (TreeModel.armedByNodes_iff h.held).mpr fun c ↦ (hw c).2⟩

theorem watched_mount_iff {t : TreeModel} {r : SubscriptionRegistry} {budget : ℕ}
    (answers : FsAnswers) {canonical : String}
    (hsound : (⟨(t.mount urls answers canonical).1, r, budget⟩ : Shard).Sound urls)
    (hnone : t.nodes.lookup canonical = none)
    (hwatched : ∀ c, r.isWatched c = true ↔
      c = canonical ∨ (t.nodes.lookup c).isSome = true)
    (harmed : ∀ c, c ∈ t.runtimes.armed ↔ (t.nodes.lookup c).isSome = true) :
    (⟨(t.mount urls answers canonical).1, r, budget⟩ : Shard).WatchedIffMounted ↔
      ∃ rows, TreeModel.MountSucceeds urls answers t canonical rows := by
  rw [watchedIffMounted_iff hsound]
  rcases TreeModel.mount_cases urls answers hnone with
    ⟨rows, hmount, heq⟩ | ⟨hfails, hnodes, -, -⟩
  · refine iff_of_true (fun c ↦ ?_) ⟨rows, hmount⟩
    simp only [heq, Table.lookup_insert_eq, hwatched, Finset.mem_insert, harmed]
    by_cases hc : c = canonical <;> simp [hc]
  · refine iff_of_false (fun hall ↦ ?_) ?_
    · have hlookup := (hall canonical).1.mp ((hwatched canonical).mpr (.inl rfl))
      simp only [hnodes, hnone] at hlookup
      cases hlookup
    · rintro ⟨rows, hmount⟩
      exact hfails rows hmount

theorem mountsSucceed_of_other {a : Request}
    (hsubscribe : ∀ sub canonical now, a.1 ≠ .subscribe sub canonical now)
    (hremount : ∀ canonical, a.1 ≠ .remount canonical) : s.MountsSucceed urls a :=
  ⟨fun sub canonical now h ↦ (hsubscribe sub canonical now h).elim,
    fun canonical h ↦ (hremount canonical h).elim⟩

theorem watched_step_iff (hsound : s.Sound urls) (hw : s.WatchedIffMounted) (a : Request) :
    (s.step urls a).WatchedIffMounted ↔ s.MountsSucceed urls a := by
  have hafter := sound_step hsound a
  have hall := (watchedIffMounted_iff hsound).mp hw
  have harmed := fun c ↦ (hall c).2
  obtain ⟨command, answers⟩ := a
  cases command with
  | subscribe sub canonical now =>
      have hguard : s.MountsSucceed urls (.subscribe sub canonical now, answers) ↔
          (s.subs.isWatched canonical = false →
            ∃ rows, TreeModel.MountSucceeds urls answers s.tree canonical rows) := by
        constructor
        · exact fun h ↦ h.1 sub canonical now rfl
        · intro h
          refine ⟨?_, fun _ heq ↦ by cases heq⟩
          rintro _ _ _ ⟨⟩
          exact h
      rw [hguard]
      simp only [step, handle, serve_eq] at hafter ⊢
      have hwatched : ∀ c, (s.subs.subscribe sub canonical).1.isWatched c = true ↔
          c = canonical ∨ (s.tree.nodes.lookup c).isSome = true := by
        intro c
        rw [SubscriptionRegistry.isWatched_subscribe, Bool.or_eq_true, decide_eq_true_iff,
          hw.watched]
      cases hnode : s.tree.nodes.lookup canonical with
      | none =>
          rw [watched_mount_iff answers hafter hnode hwatched harmed]
          have hcold : s.subs.isWatched canonical = false := by
            apply eq_false_of_ne_true
            rw [hw.watched, hnode]
            simp
          exact ⟨fun h _ ↦ h, fun h ↦ h hcold⟩
      | some node =>
          have hwarm : s.subs.isWatched canonical = true := by
            rw [hw.watched, hnode]
            rfl
          refine iff_of_true ?_ fun hcold ↦ by cases hwarm.symm.trans hcold
          rw [watchedIffMounted_iff hafter]
          intro c
          simp only [TreeModel.mount_of_mounted hnode, hwatched, harmed, and_true]
          refine or_iff_right_of_imp ?_
          rintro rfl
          rw [hnode]
          rfl
  | remount canonical =>
      have hguard : s.MountsSucceed urls (.remount canonical, answers) ↔
          (s.subs.isWatched canonical = true →
            ∃ rows, TreeModel.MountSucceeds urls answers s.tree canonical rows) := by
        constructor
        · exact fun h ↦ h.2 canonical rfl
        · intro h
          refine ⟨fun _ _ _ heq ↦ (by cases heq), ?_⟩
          rintro _ ⟨⟩
          exact h
      rw [hguard]
      simp only [step, handle] at hafter ⊢
      by_cases hwatched : s.subs.isWatched canonical = true
      · simp only [hwatched, Bool.not_true, Bool.false_eq_true, if_false] at hafter ⊢
        have hnone : (s.tree.unmount urls canonical).nodes.lookup canonical = none := by
          rw [TreeModel.lookup_unmount, if_pos rfl]
        rw [watched_mount_iff answers hafter hnone _ (TreeModel.armed_unmount hsound.held harmed)]
        · simp only [TreeModel.mountSucceeds_unmount, forall_const]
        · intro c
          rw [hw.watched, TreeModel.lookup_unmount]
          by_cases hc : c = canonical
          · subst hc
            simp [(hw.watched c).mp hwatched]
          · simp [hc]
      · simp only [hwatched, Bool.not_false, if_true, false_implies, iff_true,
          Bool.false_eq_true] at hafter ⊢
        exact hw
  | unsubscribe sub canonical now =>
      refine iff_of_true ?_ (mountsSucceed_of_other (by simp) (by simp))
      rw [watchedIffMounted_iff hafter]
      intro c
      rw [step, handle, SubscriptionRegistry.isWatched_unsubscribe]
      exact hall c
  | dropSession session now =>
      refine iff_of_true ?_ (mountsSucceed_of_other (by simp) (by simp))
      rw [watchedIffMounted_iff hafter]
      intro c
      rw [step, handle, SubscriptionRegistry.isWatched_dropSession]
      exact hall c
  | apply canonical hint =>
      refine iff_of_true ?_ (mountsSucceed_of_other (by simp) (by simp))
      rw [watchedIffMounted_iff hafter]
      intro c
      simp only [step, handle, TreeModel.isSome_apply, TreeModel.runtimes_apply]
      exact hall c
  | overflow canonical =>
      refine iff_of_true ?_ (mountsSucceed_of_other (by simp) (by simp))
      rw [watchedIffMounted_iff hafter]
      intro c
      simp only [step, handle]
      split
      · exact hall c
      · simp only [TreeModel.isSome_apply, TreeModel.runtimes_apply]
        exact hall c
  | reapTick now =>
      refine iff_of_true ?_ (mountsSucceed_of_other (by simp) (by simp))
      rw [watchedIffMounted_iff hafter]
      intro c
      refine ⟨?_, armed_unmountAll (held_unmountAll hsound.held _)
        (armed_unmountAll hsound.held harmed _) _ c⟩
      have htidy := tidy_reap hsound.tidy now
      simp only [step, handle, lookup_unmountAll]
      rw [isWatched_of_grace htidy (SubscriptionRegistry.reverse_enforceWatchBudget _)
          (fun _ ↦ SubscriptionRegistry.grace_enforceWatchBudget _)
          (fun _ ↦ SubscriptionRegistry.mem_enforceWatchBudget),
        isWatched_of_grace hsound.tidy (SubscriptionRegistry.reverse_reap now)
          (fun _ ↦ SubscriptionRegistry.grace_reap now) (fun _ ↦ SubscriptionRegistry.mem_reap),
        hw.watched]
      split
      · next hmem => simp [hmem]
      · next hmem =>
          split
          · next hreaped => simp [hreaped]
          · next hkept => simp [hmem, hkept]

theorem sound_new (schemes : List String) (warmBudget : ℕ) :
    (new schemes warmBudget).Sound urls where
  held := fun _ _ h ↦ by cases h
  tidy := SubscriptionRegistry.agree_new.toTidy

theorem watchedIffMounted_new (schemes : List String) (warmBudget : ℕ) :
    (new schemes warmBudget).WatchedIffMounted where
  watched := fun _ ↦ iff_of_false (by simp [new, SubscriptionRegistry.isWatched,
    SubscriptionRegistry.new]) (by simp [new, TreeModel.new])
  armed := by
    intro canonical
    simp [new, TreeModel.new, Table.values]

/-- In every run the watched directories are the mounted ones after each command exactly when
no mount fails. -/
theorem watched_iff_mounted (urls : UrlCrate) (schemes : List String) (warmBudget : ℕ)
    (acts : List Request) :
    Throughout (step urls) WatchedIffMounted (new schemes warmBudget) acts ↔
      Meets (step urls) (MountsSucceed urls) (new schemes warmBudget) acts := by
  refine throughout_iff_meets (Q := Sound urls) ?_ ?_ (sound_new schemes warmBudget)
    (watchedIffMounted_new schemes warmBudget)
  · exact fun _ a hs ↦ sound_step hs a
  · exact fun _ a hs hw ↦ watched_step_iff hs hw a

def plainUrls : UrlCrate := ⟨fun _ ↦ true, some, fun path name ↦ some (path ++ "/" ++ name)⟩

def unreadable : FsAnswers :=
  ⟨.ok (), .error (.permissionDenied "file:///work"), fun _ ↦ .ok none⟩

/-- The subscriber stays registered and the watch stays armed without a node. -/
theorem unreadable_not_mounted :
    ¬ Throughout (step plainUrls) WatchedIffMounted (new ["file"] 8)
      [(.subscribe ⟨"s", "pe", ""⟩ "file:///work" 0, unreadable)] := by
  intro h
  have hmounted := (h.last.watched "file:///work").mp (by decide)
  exact absurd hmounted (by decide)

end Shard

end Zaowutai.Explorer
