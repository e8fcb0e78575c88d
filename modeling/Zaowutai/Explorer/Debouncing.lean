import Zaowutai.Explorer.Debouncer
import Zaowutai.Lib.Reread

/-!
# Debouncing

The commands that the debouncer drains, and those of the events one by one, run
over a file system that does not change meanwhile.
-/

namespace Zaowutai.Explorer

open Zaowutai.Lib

namespace Replicas

variable {urls : UrlCrate} {fs : FileSystem} {r : Replicas} {command : Command}
  {canonical c : String} {sub : Subscriber} {node : Node} {fresh : Listing}

section Runs

def rereadBy (urls : UrlCrate) (fs : FileSystem) (canonical : String) (commands : List Command) :
    Set String :=
  {name | ∃ command ∈ commands, command.reconciled = some canonical ∧
    fs.Readable urls canonical command.hint ∧ command.hint.Rereads name}

def Truthful (urls : UrlCrate) (fs : FileSystem) (canonical : String)
    (truth : String → Option EntryFact) (commands : List Command) : Prop :=
  ∀ command ∈ commands, command.reconciled = some canonical → ∀ name found,
    command.hint.Rereads name → fs.Tells urls canonical name found command.hint →
      found = truth name

def Apart (r : Replicas) (canonical : String) (sub : Subscriber) (commands : List Command) : Prop :=
  ∀ command ∈ commands, ∀ c, command.reconciled = some c → c ≠ canonical →
    sub ∉ r.shard.recipients c

theorem tells_of_reads (name : String) (h : command.reconciled = some canonical)
    (hreads : r.shard.tree.Reads urls (fs.answersTo urls command) canonical command.hint node
      fresh) :
    (command.hint.Rereads name → fs.Tells urls canonical name (fresh.lookup name) command.hint) ∧
      (¬command.hint.Rereads name → fresh.lookup name = node.entries.lookup name) := by
  have hfresh := hreads.fresh
  cases command with
  | apply c hint =>
      cases h
      cases hint with
      | childNames names =>
          obtain ⟨hread, hkept⟩ := FileSystem.freshListing_childNames hfresh
          exact ⟨hread name, hkept name⟩
      | all =>
          refine ⟨fun _ ↦ ?_, fun hnot ↦ absurd trivial hnot⟩
          obtain ⟨rows, hrows, rfl⟩ := FileSystem.freshListing_all hfresh
          exact ⟨rows, hrows, rfl⟩
  | overflow c =>
      cases h
      refine ⟨fun _ ↦ ?_, fun hnot ↦ absurd trivial hnot⟩
      obtain ⟨rows, hrows, rfl⟩ := FileSystem.freshListing_all hfresh
      exact ⟨rows, hrows, rfl⟩
  | _ => cases h

theorem reads_iff (h : command.reconciled = some canonical)
    (hmounted : r.shard.tree.nodes.lookup canonical = some node)
    (hruntime : r.shard.tree.runtimeFor urls canonical = .ok ()) :
    (∃ fresh, r.shard.tree.Reads urls (fs.answersTo urls command) canonical command.hint node
      fresh) ↔ fs.Readable urls canonical command.hint := by
  have hisOk := FileSystem.freshListing_isOk_iff urls fs canonical command.hint node.entries
  have hanswers : fs.answersTo urls command =
      fs.answers urls canonical (FileSystem.hintNames command.hint) := by
    cases command with
    | apply c hint =>
        cases h
        rfl
    | overflow c =>
        cases h
        rfl
    | _ => cases h
  rw [hanswers, ← hisOk]
  refine exists_congr fun fresh ↦ ⟨fun hreads ↦ hreads.fresh, fun hfresh ↦ ?_⟩
  exact ⟨hmounted, hruntime, hfresh⟩

variable {β : Type*} {view : Option EntryFact → β} {truth : String → Option EntryFact}
  {base : Listing} {r' : Replicas} {done : List Command} {command : Command}

/-- What commands make of a directory: as far as the view shows, the names that they read again are
as the truth has them. -/
structure NodeAfter (urls : UrlCrate) (fs : FileSystem) (canonical : String) (r : Replicas)
    (base : Listing) (view : Option EntryFact → β) (truth : String → Option EntryFact)
    (done : List Command) (r' : Replicas) : Prop where
  subs : r'.shard.subs = r.shard.subs
  runtimes : r'.shard.tree.runtimes = r.shard.tree.runtimes
  node : ∃ node, r'.shard.tree.nodes.lookup canonical = some node ∧
    Reread view base.lookup truth (rereadBy urls fs canonical done) node.entries.lookup

theorem rereadBy_append (done : List Command) (command : Command) :
    rereadBy urls fs canonical (done ++ [command]) = rereadBy urls fs canonical done ∪
      {name | command.reconciled = some canonical ∧ fs.Readable urls canonical command.hint ∧
        command.hint.Rereads name} := by
  ext name
  simp only [rereadBy, List.mem_append, List.mem_singleton, Set.mem_ofPred_eq, Set.mem_union]
  constructor
  · rintro ⟨other, hmem | rfl, h⟩
    · exact .inl ⟨other, hmem, h⟩
    · exact .inr h
  · rintro (⟨other, hmem, h⟩ | h)
    · exact ⟨other, .inl hmem, h⟩
    · exact ⟨command, .inr rfl, h⟩

theorem nodeAfter_drive (h : NodeAfter urls fs canonical r base view truth done r')
    (hruntime : r.shard.tree.runtimeFor urls canonical = .ok ())
    (hview : ∀ name, ¬Reported (base.lookup name) (truth name) →
      view (base.lookup name) = view (truth name))
    (hcommand : command.reconciled = some c)
    (htruth : Truthful urls fs canonical truth [command]) :
    NodeAfter urls fs canonical r base view truth (done ++ [command])
      (r'.drive urls fs command) := by
  obtain ⟨node, hnode, hreread⟩ := h.node
  refine ⟨(subs_drive hcommand).trans h.subs, (schemes_drive hcommand).trans h.runtimes, ?_⟩
  rw [rereadBy_append]
  by_cases hc : c = canonical
  · subst hc
    have hruntime' : r'.shard.tree.runtimeFor urls c = .ok () := by
      rw [TreeModel.runtimeFor_congr (congrArg FsRuntimes.schemes h.runtimes), hruntime]
    by_cases hreadable : fs.Readable urls c command.hint
    · obtain ⟨fresh, hreads⟩ := (reads_iff hcommand hnode hruntime').mpr hreadable
      have htells := fun name ↦ tells_of_reads name hcommand hreads
      have hread : ∀ name ∈ {name | command.reconciled = some c ∧
          fs.Readable urls c command.hint ∧ command.hint.Rereads name},
          fresh.lookup name = truth name := by
        rintro name ⟨-, -, hname⟩
        exact htruth command (List.mem_singleton_self _) hcommand name _ hname
          ((htells name).1 hname)
      refine ⟨_, lookup_drive_of_reads hcommand hreads, ?_⟩
      split
      · next hdiff =>
          refine hreread.keep fun name hname ↦ ?_
          obtain hold | hnew := hreread.either name
          · have hquiet := diff_eq_nil_iff.mp hdiff name
            rw [hread name hname, hold] at hquiet
            rw [hold]
            exact hview name hquiet
          · rw [hnew]
      · refine hreread.store hread fun name hname ↦ (htells name).2 fun hrereads ↦ ?_
        exact hname ⟨hcommand, hreadable, hrereads⟩
    · rw [drive_of_not_reads hcommand]
      · refine ⟨node, hnode, hreread.keep ?_⟩
        rintro name ⟨-, hread, -⟩
        exact absurd hread hreadable
      · intro node' fresh hreads
        obtain rfl := Option.some.inj (hnode.symm.trans hreads.mounted)
        exact hreadable ((reads_iff hcommand hnode hruntime').mp ⟨fresh, hreads⟩)
  · have hkept := lookup_drive_of_ne urls fs r' hcommand (Ne.symm hc)
    refine ⟨node, hkept.trans hnode, hreread.keep ?_⟩
    rintro name ⟨hsame, -, -⟩
    rw [hcommand] at hsame
    exact absurd (Option.some.inj hsame) hc

theorem nodeAfter_refl (hnode : r.shard.tree.nodes.lookup canonical = some node)
    (view : Option EntryFact → β) (truth : String → Option EntryFact) :
    NodeAfter urls fs canonical r node.entries view truth [] r := by
  have hnone : rereadBy urls fs canonical [] = ∅ := by simp [rereadBy]
  exact ⟨rfl, rfl, node, hnode, hnone ▸ Reread.refl view _ truth⟩

/-- The subscriber has the listing of the node where it had it at first and no name changes its
kind, or after a rescan. -/
def Listed (canonical : String) (sub : Subscriber) (r : Replicas) (base : Listing)
    (truth : String → Option EntryFact) (done : List Command) (r' : Replicas) : Prop :=
  r.Holds sub base ∧ KindsKept base.lookup truth ∨ .overflow canonical ∈ done →
    ∀ node, r'.shard.tree.nodes.lookup canonical = some node → r'.Holds sub node.entries

def kindView : Option EntryFact → Option Kind := Option.map EntryFact.kind

theorem listed_drive (h : NodeAfter urls fs canonical r base kindView truth done r')
    (hlisted : Listed canonical sub r base truth done r')
    (hruntime : r.shard.tree.runtimeFor urls canonical = .ok ())
    (hnodup : (r.shard.recipients c).Nodup) (hsub : sub ∈ r.shard.recipients canonical)
    (hcommand : command.reconciled = some c) (hapart : c ≠ canonical → sub ∉ r.shard.recipients c)
    (hscan : .overflow canonical ∈ done ++ [command] → fs.Readable urls canonical .all)
    (htruth : Truthful urls fs canonical truth [command]) :
    Listed canonical sub r base truth (done ++ [command]) (r'.drive urls fs command) := by
  have hrecipients : r'.shard.recipients = r.shard.recipients := by
    unfold Shard.recipients
    rw [h.subs]
  obtain ⟨node, hnode, hreread⟩ := h.node
  intro hcond node' hnode'
  by_cases hc : c = canonical
  · subst hc
    have hruntime' : r'.shard.tree.runtimeFor urls c = .ok () := by
      rw [TreeModel.runtimeFor_congr (congrArg FsRuntimes.schemes h.runtimes), hruntime]
    by_cases hreadable : fs.Readable urls c command.hint
    · obtain ⟨fresh, hreads⟩ := (reads_iff hcommand hnode hruntime').mpr hreadable
      have htells := fun name ↦ tells_of_reads name hcommand hreads
      have hstored := lookup_drive_of_reads hcommand hreads
      obtain rfl := Option.some.inj (hstored.symm.trans hnode')
      refine holds_drive hcommand (hrecipients ▸ hnodup) (hrecipients ▸ hsub) hreads ?_
      by_cases hscans : command = .overflow c
      · exact .inl hscans
      · have hbefore := hcond.imp_right fun hmem ↦ (List.mem_append.mp hmem).resolve_right
          fun hlast ↦ hscans (List.mem_singleton.mp hlast).symm
        refine .inr ⟨hlisted hbefore node hnode, fun name of nf
          (hof : node.entries.lookup name = some of) (hnf : fresh.lookup name = some nf) ↦ ?_⟩
        have hnew : fresh.lookup name = truth name ∨
            fresh.lookup name = node.entries.lookup name := by
          by_cases hname : command.hint.Rereads name
          · exact .inl (htruth command (List.mem_singleton_self _) hcommand name _ hname
              ((htells name).1 hname))
          · exact .inr ((htells name).2 hname)
        obtain hnew | hsame := hnew
        · obtain ⟨-, hkept⟩ | hmem := hbefore
          · obtain hold | hold : node.entries.lookup name = base.lookup name ∨
                node.entries.lookup name = truth name := hreread.either name
            · exact hkept name of nf (hold.symm.trans hof) (hnew.symm.trans hnf)
            · rw [hold, ← hnew, hnf] at hof
              rw [Option.some.inj hof]
          · have hkind := hreread.read name ⟨.overflow c, hmem, rfl,
              hscan (List.mem_append_left _ hmem), trivial⟩
            simp only [kindView, hof, ← hnew, hnf] at hkind
            exact (Option.some.inj hkind).symm
        · rw [hsame, hof] at hnf
          rw [Option.some.inj hnf]
    · have hsame : r'.drive urls fs command = r' := by
        refine drive_of_not_reads hcommand fun node'' fresh hreads ↦ ?_
        obtain rfl := Option.some.inj (hnode.symm.trans hreads.mounted)
        exact hreadable ((reads_iff hcommand hnode hruntime').mp ⟨fresh, hreads⟩)
      rw [hsame] at hnode' ⊢
      refine hlisted (hcond.imp_right fun hmem ↦ ?_) node' hnode'
      refine (List.mem_append.mp hmem).resolve_right fun hlast ↦ hreadable ?_
      rw [← List.mem_singleton.mp hlast]
      exact hscan hmem
  · rw [lookup_drive_of_ne urls fs r' hcommand (Ne.symm hc)] at hnode'
    have hbefore := hcond.imp_right fun hmem ↦
      (List.mem_append.mp hmem).resolve_right fun hlast ↦ by
      rw [← List.mem_singleton.mp hlast] at hcommand
      exact hc (Option.some.inj hcommand).symm
    rw [Holds, listing_drive_of_not_mem hcommand (hrecipients ▸ hnodup)
      (hrecipients ▸ hapart hc)]
    exact hlisted hbefore node' hnode'

theorem Truthful.mono {commands : List Command} (h : Truthful urls fs canonical truth commands)
    (hsubset : done ⊆ commands) : Truthful urls fs canonical truth done :=
  fun command hmem ↦ h command (hsubset hmem)

theorem nodeAfter_run {commands : List Command}
    (hnode : r.shard.tree.nodes.lookup canonical = some node)
    (hruntime : r.shard.tree.runtimeFor urls canonical = .ok ())
    (hview : ∀ name, ¬Reported (node.entries.lookup name) (truth name) →
      view (node.entries.lookup name) = view (truth name))
    (hcommands : ∀ command ∈ commands, ∃ c, command.reconciled = some c)
    (htruth : Truthful urls fs canonical truth commands) :
    NodeAfter urls fs canonical r node.entries view truth commands
      (run (drive urls fs) r commands) := by
  induction commands using List.reverseRecOn with
  | nil => exact nodeAfter_refl hnode view truth
  | append_singleton done command ih =>
      have hlast := List.mem_append_right done (List.mem_singleton_self command)
      obtain ⟨c, hcommand⟩ := hcommands command hlast
      rw [run_append]
      refine nodeAfter_drive (ih (fun other hmem ↦ hcommands other (List.mem_append_left _ hmem))
        (htruth.mono (List.subset_append_left _ _))) hruntime hview hcommand
        (htruth.mono (List.subset_append_right _ _))

theorem kindView_eq {old fresh : Option EntryFact} (h : ¬Reported old fresh) :
    kindView old = kindView fresh := by
  cases old <;> cases fresh
  · rfl
  · exact absurd trivial h
  · exact absurd trivial h
  · next of nf =>
      rw [Reported, not_or, not_not] at h
      exact congrArg some h.1.symm

theorem listed_run {commands : List Command}
    (hnode : r.shard.tree.nodes.lookup canonical = some node)
    (hruntime : r.shard.tree.runtimeFor urls canonical = .ok ())
    (hnodup : ∀ c, (r.shard.recipients c).Nodup) (hsub : sub ∈ r.shard.recipients canonical)
    (hcommands : ∀ command ∈ commands, ∃ c, command.reconciled = some c)
    (hapart : Apart r canonical sub commands)
    (hscan : .overflow canonical ∈ commands → fs.Readable urls canonical .all)
    (htruth : Truthful urls fs canonical truth commands) :
    Listed canonical sub r node.entries truth commands (run (drive urls fs) r commands) := by
  induction commands using List.reverseRecOn with
  | nil =>
      rintro (⟨hholds, -⟩ | hmem) node' hnode'
      · obtain rfl := Option.some.inj (hnode.symm.trans hnode')
        exact hholds
      · cases hmem
  | append_singleton done command ih =>
      have hlast := List.mem_append_right done (List.mem_singleton_self command)
      obtain ⟨c, hcommand⟩ := hcommands command hlast
      have hbefore := fun other hmem ↦ hcommands other (List.mem_append_left [command] hmem)
      rw [run_append]
      refine listed_drive (nodeAfter_run hnode hruntime (fun _ ↦ kindView_eq) hbefore
        (htruth.mono (List.subset_append_left _ _))) (ih hbefore
          (fun other hmem ↦ hapart other (List.mem_append_left _ hmem))
          (fun hmem ↦ hscan (List.mem_append_left _ hmem))
          (htruth.mono (List.subset_append_left _ _))) hruntime (hnodup c) hsub hcommand
        (hapart command (List.mem_append_right _ (List.mem_singleton_self _)) c hcommand) hscan
        (htruth.mono (List.subset_append_right _ _))

theorem run_drive_idle (urls : UrlCrate) (fs : FileSystem) (canonical : String)
    {commands : List Command}
    (hcommands : ∀ command ∈ commands, ∃ c, command.reconciled = some c)
    (hidle : ∀ command ∈ commands, command.reconciled = some canonical →
      r.shard.tree.nodes.lookup canonical = none) :
    (run (drive urls fs) r commands).shard.tree.nodes.lookup canonical =
      r.shard.tree.nodes.lookup canonical ∧
    ∀ sub, (∀ c, (r.shard.recipients c).Nodup) → Apart r canonical sub commands →
      (run (drive urls fs) r commands).listings.lookup sub = r.listings.lookup sub := by
  induction commands generalizing r with
  | nil => exact ⟨rfl, fun _ _ _ ↦ rfl⟩
  | cons command commands ih =>
      obtain ⟨c, hcommand⟩ := hcommands command List.mem_cons_self
      have hrecipients : (r.drive urls fs command).shard.recipients = r.shard.recipients := by
        unfold Shard.recipients
        rw [subs_drive hcommand]
      by_cases hc : c = canonical
      · subst hc
        have hnone := hidle command List.mem_cons_self hcommand
        have hsame : r.drive urls fs command = r :=
          drive_of_not_reads hcommand fun node fresh hreads ↦ by
            rw [hreads.mounted] at hnone
            cases hnone
        rw [run_cons, hsame]
        obtain ⟨hnode, hlisting⟩ := ih
          (fun other hmem ↦ hcommands other (List.mem_cons_of_mem _ hmem))
          fun other hmem ↦ hidle other (List.mem_cons_of_mem _ hmem)
        exact ⟨hnode, fun sub hnodup hapart ↦ hlisting sub hnodup fun other hmem ↦
          hapart other (List.mem_cons_of_mem _ hmem)⟩
      · have hlookup := lookup_drive_of_ne urls fs r hcommand (Ne.symm hc)
        obtain ⟨hnode, hlisting⟩ := @ih (r.drive urls fs command)
          (fun other hmem ↦ hcommands other (List.mem_cons_of_mem _ hmem))
          fun other hmem hother ↦ hlookup ▸ hidle other (List.mem_cons_of_mem _ hmem) hother
        refine ⟨hnode.trans hlookup, fun sub hnodup hapart ↦ ?_⟩
        rw [run_cons, hlisting sub (hrecipients ▸ hnodup) (fun other hmem c' hother hne ↦
          hrecipients ▸ hapart other (List.mem_cons_of_mem _ hmem) c' hother hne)]
        exact listing_drive_of_not_mem hcommand (hnodup c)
          (hapart command List.mem_cons_self c hcommand hc)

end Runs

section Windows

variable {events : List RawEvent} {pending : Pending} {name : String}
  {found found' : Option EntryFact}

theorem tells_unique (hint : Hint) (h : fs.Tells urls canonical name found hint)
    (h' : fs.Tells urls canonical name found' hint) : found = found' := by
  cases hint with
  | all =>
      obtain ⟨rows, hrows, rfl⟩ := h
      obtain ⟨rows', hrows', rfl⟩ := h'
      rw [Except.ok.inj (hrows.symm.trans hrows')]
  | childNames names => exact Except.ok.inj (h.symm.trans h')

theorem mem_drained :
    command ∈ (run Debouncer.push .new events).drain.1 ↔
      ∃ c pending, coalesced events c = some pending ∧ command = pending.toCommand c := by
  simp only [Debouncer.mem_drain, Debouncer.lookup_pushes]

theorem eq_of_mem_drained (hpending : coalesced events canonical = some pending)
    (h : command ∈ (run Debouncer.push .new events).drain.1)
    (hcommand : command.reconciled = some canonical) :
    command = pending.toCommand canonical := by
  obtain ⟨c, other, hother, rfl⟩ := mem_drained.mp h
  rw [reconciled_toCommand, Option.some.injEq] at hcommand
  subst hcommand
  rw [Option.some.inj (hother.symm.trans hpending)]

theorem mem_names {names : List String}
    (hpending : coalesced events canonical = some (.changed names)) :
    name ∈ names ↔ ∃ paths, .changed canonical paths ∈ events ∧ name ∈ childNames paths := by
  rw [(Debouncer.coalesced_eq_changed hpending).2, mem_extend, mem_touched,
    or_iff_right List.not_mem_nil]

theorem rereads_of_event (hpending : coalesced events canonical = some pending)
    {event : RawEvent} (hmem : event ∈ events) (hevent : event.canonical = canonical)
    (hname : (rawToCommand event).hint.Rereads name) :
    (pending.toCommand canonical).hint.Rereads name := by
  cases pending with
  | overflow => trivial
  | changed names =>
      cases event with
      | changed c paths =>
          obtain rfl : c = canonical := hevent
          exact ⟨(mem_names hpending).mpr ⟨paths, hmem, hname.1⟩, hname.2⟩
      | overflow c =>
          obtain rfl : c = canonical := hevent
          exact absurd hmem (Debouncer.coalesced_eq_changed hpending).1

theorem truthful_drained (hpending : coalesced events canonical = some pending)
    (hreads : r.shard.tree.Reads urls (fs.answersTo urls (pending.toCommand canonical)) canonical
      (pending.toCommand canonical).hint node fresh) :
    Truthful urls fs canonical fresh.lookup (run Debouncer.push .new events).drain.1 := by
  intro command hmem hcommand name found hname hfound
  obtain rfl := eq_of_mem_drained hpending hmem hcommand
  exact tells_unique _ hfound ((tells_of_reads name hcommand hreads).1 hname)

theorem truthful_events (hpending : coalesced events canonical = some pending)
    (hreads : r.shard.tree.Reads urls (fs.answersTo urls (pending.toCommand canonical)) canonical
      (pending.toCommand canonical).hint node fresh)
    (hagrees : .overflow canonical ∈ events → fs.Agrees urls canonical) :
    Truthful urls fs canonical fresh.lookup (events.map rawToCommand) := by
  intro command hmem hcommand name found hname hfound
  obtain ⟨event, hevent, rfl⟩ := List.mem_map.mp hmem
  rw [reconciled_rawToCommand, Option.some.injEq] at hcommand
  have htells := (tells_of_reads name (reconciled_toCommand canonical pending) hreads).1
    (rereads_of_event hpending hevent hcommand hname)
  cases event with
  | overflow c =>
      obtain rfl : c = canonical := hcommand
      obtain rfl := Option.some.inj
        (hpending.symm.trans (Debouncer.coalesced_eq_overflow_iff.mpr hevent))
      exact tells_unique .all hfound htells
  | changed c paths =>
      cases pending with
      | overflow =>
          obtain ⟨rows, hrows, hrow⟩ := htells
          have hoverflow := Debouncer.coalesced_eq_overflow_iff.mp hpending
          exact (hagrees hoverflow rows name found hrows hname.2 hfound).symm.trans hrow
      | changed names => exact Except.ok.inj (hfound.symm.trans htells)

theorem rereadBy_events (hpending : coalesced events canonical = some pending)
    (hreadable : fs.Readable urls canonical (pending.toCommand canonical).hint) :
    rereadBy urls fs canonical (events.map rawToCommand) =
      rereadBy urls fs canonical (run Debouncer.push .new events).drain.1 := by
  ext name
  constructor
  · rintro ⟨_, hmem, hcommand, -, hname⟩
    obtain ⟨event, hevent, rfl⟩ := List.mem_map.mp hmem
    rw [reconciled_rawToCommand, Option.some.injEq] at hcommand
    exact ⟨_, mem_drained.mpr ⟨canonical, pending, hpending, rfl⟩, reconciled_toCommand _ _,
      hreadable, rereads_of_event hpending hevent hcommand hname⟩
  · rintro ⟨command, hmem, hcommand, -, hname⟩
    obtain rfl := eq_of_mem_drained hpending hmem hcommand
    cases pending with
    | overflow =>
        exact ⟨_, List.mem_map_of_mem (Debouncer.coalesced_eq_overflow_iff.mp hpending), rfl,
          hreadable, trivial⟩
    | changed names =>
        obtain ⟨paths, hevent, hpath⟩ := (mem_names hpending).mp hname.1
        refine ⟨_, List.mem_map_of_mem hevent, rfl, fun other hother hshow ↦ ?_, hpath, hname.2⟩
        exact hreadable other ((mem_names hpending).mpr ⟨paths, hevent, hother⟩) hshow

end Windows

section Window

variable (urls : UrlCrate) (fs : FileSystem) (r : Replicas) (events : List RawEvent)
  (canonical : String)

def windowCommands : List Command := (run Debouncer.push .new events).drain.1

def Succeeds : Prop :=
  ∀ command ∈ windowCommands events, command.reconciled = some canonical →
    ∃ outputs, (r.shard.handle urls (fs.answersTo urls command) command).2 = .ok outputs

/-- The directory's command compares two listings of which `P` holds. -/
def Compares (P : Listing → Listing → Prop) : Prop :=
  ∀ command ∈ windowCommands events, command.reconciled = some canonical → ∀ node fresh,
    r.shard.tree.Reads urls (fs.answersTo urls command) canonical command.hint node fresh →
      P node.entries fresh

def NoneSilent (old fresh : Listing) : Prop :=
  ∀ name, fresh.lookup name = old.lookup name ∨ Reported (old.lookup name) (fresh.lookup name)

/-- Two ways through a window come to the same for a directory. -/
structure Alike (batched single : Replicas) : Prop where
  kinds : ∀ name, (batched.shard.tree.stored canonical name).map EntryFact.kind =
    (single.shard.tree.stored canonical name).map EntryFact.kind
  facts : Compares urls fs r events canonical NoneSilent → ∀ name,
    batched.shard.tree.stored canonical name = single.shard.tree.stored canonical name
  listings : ∀ sub ∈ r.shard.recipients canonical, Apart r canonical sub (windowCommands events) →
    (.overflow canonical ∈ events ∨ Compares urls fs r events canonical fun old fresh ↦
      r.Holds sub old ∧ KindsKept old.lookup fresh.lookup) →
    (batched.listings.lookup sub).map kindOf = (single.listings.lookup sub).map kindOf

variable {urls fs r events canonical}

theorem reads_of_ok {outputs : List ShardOutput} (h : command.reconciled = some canonical)
    (hnode : r.shard.tree.nodes.lookup canonical = some node)
    (hok : (r.shard.handle urls (fs.answersTo urls command) command).2 = .ok outputs) :
    ∃ fresh, r.shard.tree.Reads urls (fs.answersTo urls command) canonical command.hint node
      fresh := by
  by_contra hnot
  have hreads : ∀ node' fresh, ¬r.shard.tree.Reads urls (fs.answersTo urls command) canonical
      command.hint node' fresh := by
    intro node' fresh hreads
    obtain rfl := Option.some.inj (hnode.symm.trans hreads.mounted)
    exact hnot ⟨fresh, hreads⟩
  obtain ⟨hnone, -⟩ | ⟨-, e, happly⟩ := TreeModel.apply_of_not_reads hreads
  · rw [hnode] at hnone
    cases hnone
  · cases command with
    | apply c hint =>
        cases h
        simp only [Command.hint] at happly
        simp [Shard.handle, happly, Except.map] at hok
    | overflow c =>
        cases h
        simp only [Command.hint] at happly
        simp [Shard.handle, TreeModel.snapshot, hnode, happly, Except.map] at hok
    | _ => cases h

theorem reconciled_window (hmem : command ∈ windowCommands events) :
    ∃ c, command.reconciled = some c := by
  obtain ⟨c, pending, -, rfl⟩ := mem_drained.mp hmem
  exact ⟨c, reconciled_toCommand c pending⟩

theorem reconciled_events (hmem : command ∈ events.map rawToCommand) :
    ∃ c, command.reconciled = some c := by
  obtain ⟨event, -, rfl⟩ := List.mem_map.mp hmem
  exact ⟨event.canonical, reconciled_rawToCommand event⟩

theorem apart_events (h : Apart r canonical sub (windowCommands events)) :
    Apart r canonical sub (events.map rawToCommand) := by
  intro command hmem c hcommand hne
  obtain ⟨event, hevent, rfl⟩ := List.mem_map.mp hmem
  rw [reconciled_rawToCommand, Option.some.injEq] at hcommand
  cases hpending : coalesced events c with
  | none =>
      exact absurd (List.mem_map.mpr ⟨event, hevent, hcommand⟩)
        (Debouncer.coalesced_eq_none_iff.mp hpending)
  | some pending =>
      exact h _ (mem_drained.mpr ⟨c, pending, hpending, rfl⟩) c (reconciled_toCommand c pending) hne

theorem alike_of_idle (hnodup : ∀ c, (r.shard.recipients c).Nodup)
    (h : canonical ∈ events.map RawEvent.canonical →
      r.shard.tree.nodes.lookup canonical = none) :
    Alike urls fs r events canonical (run (drive urls fs) r (windowCommands events))
      (run (drive urls fs) r (events.map rawToCommand)) := by
  have hwindow : ∀ command ∈ windowCommands events, command.reconciled = some canonical →
      r.shard.tree.nodes.lookup canonical = none := by
    intro command hmem hcommand
    obtain ⟨c, pending, hpending, rfl⟩ := mem_drained.mp hmem
    rw [reconciled_toCommand, Option.some.injEq] at hcommand
    refine h (not_not.mp fun hnot ↦ ?_)
    rw [← hcommand] at hnot
    rw [Debouncer.coalesced_eq_none_iff.mpr hnot] at hpending
    cases hpending
  have hevents : ∀ command ∈ events.map rawToCommand, command.reconciled = some canonical →
      r.shard.tree.nodes.lookup canonical = none := by
    intro command hmem hcommand
    obtain ⟨event, hevent, rfl⟩ := List.mem_map.mp hmem
    rw [reconciled_rawToCommand, Option.some.injEq] at hcommand
    exact h (List.mem_map.mpr ⟨event, hevent, hcommand⟩)
  obtain ⟨hnode, hlisting⟩ := run_drive_idle urls fs canonical (fun _ ↦ reconciled_window) hwindow
  obtain ⟨hnode', hlisting'⟩ := run_drive_idle urls fs canonical (fun _ ↦ reconciled_events) hevents
  have hstored : ∀ name, (run (drive urls fs) r (windowCommands events)).shard.tree.stored
      canonical name = (run (drive urls fs) r (events.map rawToCommand)).shard.tree.stored
      canonical name := by
    intro name
    rw [TreeModel.stored, TreeModel.stored, hnode, hnode']
  exact ⟨fun name ↦ congrArg _ (hstored name), fun _ ↦ hstored, fun sub _ hapart _ ↦ congrArg _
    ((hlisting sub hnodup hapart).trans (hlisting' sub hnodup (apart_events hapart)).symm)⟩

theorem alike_of_reads {pending : Pending} (hnodup : ∀ c, (r.shard.recipients c).Nodup)
    (hpending : coalesced events canonical = some pending)
    (hreads : r.shard.tree.Reads urls (fs.answersTo urls (pending.toCommand canonical)) canonical
      (pending.toCommand canonical).hint node fresh)
    (hagrees : .overflow canonical ∈ events → fs.Agrees urls canonical) :
    Alike urls fs r events canonical (run (drive urls fs) r (windowCommands events))
      (run (drive urls fs) r (events.map rawToCommand)) := by
  have hcommand := reconciled_toCommand canonical pending
  have hreadable := (reads_iff hcommand hreads.mounted hreads.runtime).mp ⟨fresh, hreads⟩
  have hmem := mem_drained.mpr ⟨canonical, pending, hpending, rfl⟩
  have htruth := truthful_drained hpending hreads
  have htruth' := truthful_events hpending hreads hagrees
  have hsame := rereadBy_events hpending hreadable
  -- as far as a view does not show the silent differences, the stored facts are the same
  have hview : ∀ {β : Type} (view : Option EntryFact → β),
      (∀ name, ¬Reported (node.entries.lookup name) (fresh.lookup name) →
        view (node.entries.lookup name) = view (fresh.lookup name)) →
      ∀ name, view ((run (drive urls fs) r (windowCommands events)).shard.tree.stored canonical
        name) = view ((run (drive urls fs) r (events.map rawToCommand)).shard.tree.stored canonical
        name) := by
    intro β view hquiet name
    obtain ⟨node₁, hnode₁, hreread₁⟩ :=
      (nodeAfter_run hreads.mounted hreads.runtime hquiet (fun _ ↦ reconciled_window) htruth).node
    obtain ⟨node₂, hnode₂, hreread₂⟩ :=
      (nodeAfter_run hreads.mounted hreads.runtime hquiet (fun _ ↦ reconciled_events) htruth').node
    rw [hsame] at hreread₂
    rw [TreeModel.stored, TreeModel.stored, hnode₁, hnode₂]
    exact congrFun (hreread₁.view_eq hreread₂) name
  refine ⟨hview kindView fun _ ↦ kindView_eq, fun hloud ↦ hview id fun name hquiet ↦ ?_,
    fun sub hsub hapart hcond ↦ ?_⟩
  · exact ((hloud _ hmem hcommand node fresh hreads name).resolve_right hquiet).symm
  · have hscan : ∀ {commands}, commands = windowCommands events ∨
        commands = events.map rawToCommand → .overflow canonical ∈ commands →
          fs.Readable urls canonical .all := by
      rintro commands (rfl | rfl) hoverflow
      · rw [← eq_of_mem_drained hpending hoverflow rfl] at hreadable
        exact hreadable
      · obtain ⟨event, hevent, heq⟩ := List.mem_map.mp hoverflow
        cases event with
        | changed c paths => cases heq
        | overflow c =>
            cases heq
            obtain rfl := Option.some.inj
              (hpending.symm.trans (Debouncer.coalesced_eq_overflow_iff.mpr hevent))
            exact hreadable
    have hlisted₁ := listed_run hreads.mounted hreads.runtime hnodup hsub
      (fun _ ↦ reconciled_window) hapart (hscan (.inl rfl)) htruth
    have hlisted₂ := listed_run hreads.mounted hreads.runtime hnodup hsub
      (fun _ ↦ reconciled_events) (apart_events hapart) (hscan (.inr rfl)) htruth'
    obtain ⟨node₁, hnode₁, -⟩ := (nodeAfter_run hreads.mounted hreads.runtime
      (fun _ ↦ kindView_eq) (fun _ ↦ reconciled_window) htruth).node
    obtain ⟨node₂, hnode₂, -⟩ := (nodeAfter_run hreads.mounted hreads.runtime
      (fun _ ↦ kindView_eq) (fun _ ↦ reconciled_events) htruth').node
    have hinSync := fun h ↦ hcond.resolve_left h _ hmem hcommand node fresh hreads
    obtain ⟨entries₁, hentries₁, hshows₁⟩ := hlisted₁ (by
      by_cases hoverflow : .overflow canonical ∈ events
      · exact .inr ((Debouncer.drains_pushes events).overflow canonical |>.mpr hoverflow)
      · exact .inl (hinSync hoverflow)) node₁ hnode₁
    obtain ⟨entries₂, hentries₂, hshows₂⟩ := hlisted₂ (by
      by_cases hoverflow : .overflow canonical ∈ events
      · exact .inr (List.mem_map.mpr ⟨_, hoverflow, rfl⟩)
      · exact .inl (hinSync hoverflow)) node₂ hnode₂
    have hkinds : kinds node₁.entries = kinds node₂.entries := by
      funext name
      have hname := hview kindView (fun _ ↦ kindView_eq) name
      rw [TreeModel.stored, TreeModel.stored, hnode₁, hnode₂] at hname
      exact hname
    rw [hentries₁, hentries₂, Option.map_some, Option.map_some, hshows₁.kinds, hshows₂.kinds,
      hkinds]

end Window

/-- A window yields one command for each directory that events have reported.  Over a file system
that stands still it comes to the same as the events one by one, for each directory whose command
does not fail: the node has the same names and kinds, and the same facts unless a difference is
silent, and a subscriber's listing has the same names and kinds after a rescan, or if it had the
node's and no name changes its kind. -/
theorem window_like_events (urls : UrlCrate) (schemes : List String) (warmBudget : ℕ)
    (acts : List Dispatch) (fs : FileSystem) (events : List RawEvent) :
    Debouncer.Drains events (run Debouncer.push .new events).drain ∧
    ∀ canonical, Succeeds urls fs (run (step urls) (new schemes warmBudget) acts) events canonical →
      (.overflow canonical ∈ events → fs.Agrees urls canonical) →
        Alike urls fs (run (step urls) (new schemes warmBudget) acts) events canonical
          (run (drive urls fs) (run (step urls) (new schemes warmBudget) acts)
            (windowCommands events))
          (run (drive urls fs) (run (step urls) (new schemes warmBudget) acts)
            (events.map rawToCommand)) := by
  refine ⟨Debouncer.drains_pushes events, fun canonical hsucceeds hagrees ↦ ?_⟩
  have hstep : ∀ r d, Sound urls r → Sound urls (r.step urls d) := fun _ d h ↦ sound_step h d
  have hsound : (run (step urls) (new schemes warmBudget) acts).Sound urls :=
    run_invariant hstep (sound_new schemes warmBudget) acts
  cases hpending : coalesced events canonical with
  | none =>
      exact alike_of_idle hsound.nodup fun hmem ↦
        absurd hmem (Debouncer.coalesced_eq_none_iff.mp hpending)
  | some pending =>
      cases hnode : (run (step urls) (new schemes warmBudget) acts).shard.tree.nodes.lookup
        canonical with
      | none => exact alike_of_idle hsound.nodup fun _ ↦ hnode
      | some node =>
          have hcommand := reconciled_toCommand canonical pending
          obtain ⟨outputs, hok⟩ := hsucceeds _
            (mem_drained.mpr ⟨canonical, pending, hpending, rfl⟩) hcommand
          obtain ⟨fresh, hreads⟩ := reads_of_ok hcommand hnode hok
          exact alike_of_reads hsound.nodup hpending hreads hagrees

section Differences

def subscribe (rows : List (String × EntryFact)) : Dispatch :=
  ⟨.subscribe (reader "s") "/work" 0, reads rows, reader "s"⟩

def emptied : FileSystem := ⟨fun _ ↦ .ok [], fun _ ↦ .ok none⟩

theorem emptied_window_like_events :
    let r := run (step Shard.plainUrls) (new ["file"] 8) [subscribe [("a", ⟨.file, 1, none, none⟩)]]
    let events := [RawEvent.changed "/work" ["/work/a"], .overflow "/work"]
    Alike Shard.plainUrls emptied r events "/work"
      (run (drive Shard.plainUrls emptied) r (windowCommands events))
      (run (drive Shard.plainUrls emptied) r (events.map rawToCommand)) := by
  refine (window_like_events Shard.plainUrls ["file"] 8 _ emptied _).2 "/work" ?_ ?_
  · intro command hmem _
    rw [show windowCommands _ = [Command.overflow "/work"] from rfl, List.mem_singleton] at hmem
    subst hmem
    exact ⟨_, rfl⟩
  · rintro - rows name found hrows - hfound
    cases hrows
    cases hfound
    rfl

def guarded : FileSystem where
  readDir _ := .ok []
  stat uri := if uri = "/work/x" then .error (.permissionDenied uri)
    else .ok (some ⟨.file, 2, none, none⟩)

def moved : FileSystem where
  readDir _ := .ok [("b", ⟨.symlink, 1, some "t", none⟩)]
  stat uri := .ok (if uri = "/work/b" then some ⟨.symlink, 1, some "t", none⟩ else none)

def subscribed (rows : List (String × EntryFact)) : Replicas :=
  run (step Shard.plainUrls) (new ["file"] 8) [subscribe rows]

def unlike : FileSystem where
  readDir _ := .ok [("x", ⟨.file, 1, none, none⟩)]
  stat _ := .ok none

/-- A name that cannot be read keeps the others of its window from being stored, of a link whose
rename is seen in two steps the listing has no target, and a name that only the listing tells of is
lost again after a rescan. -/
theorem window_unlike_events :
    (let events := [RawEvent.changed "/work" ["/work/x"], .changed "/work" ["/work/y"]]
      let batched := run (drive Shard.plainUrls guarded) (subscribed []) (windowCommands events)
      let single := run (drive Shard.plainUrls guarded) (subscribed []) (events.map rawToCommand)
      batched.shard.tree.stored "/work" "y" = none ∧
        single.shard.tree.stored "/work" "y" = some ⟨.file, 2, none, none⟩) ∧
    (let events := [RawEvent.changed "/work" ["/work/a"], .changed "/work" ["/work/b"]]
      let r := subscribed [("a", ⟨.symlink, 1, some "t", none⟩)]
      let batched := run (drive Shard.plainUrls moved) r (windowCommands events)
      let single := run (drive Shard.plainUrls moved) r (events.map rawToCommand)
      batched.listings.lookup (reader "s") = some [⟨"b", .symlink, some "t", none⟩] ∧
        single.listings.lookup (reader "s") = some [⟨"b", .symlink, none, none⟩]) ∧
    (let events := [RawEvent.overflow "/work", .changed "/work" ["/work/x"]]
      let batched := run (drive Shard.plainUrls unlike) (subscribed []) (windowCommands events)
      let single := run (drive Shard.plainUrls unlike) (subscribed []) (events.map rawToCommand)
      batched.shard.tree.stored "/work" "x" = some ⟨.file, 1, none, none⟩ ∧
        single.shard.tree.stored "/work" "x" = none) := by
  decide

end Differences

end Replicas

end Zaowutai.Explorer
