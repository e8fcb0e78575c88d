import Zaowutai.Explorer.Replica
import Zaowutai.Explorer.StoredFacts

/-!
# Driving the shard

Over a file system that stands still, a command that reconciles a directory
changes nothing but its node, and what its subscribers get brings their
listings from the old node to the new one.
-/

namespace Zaowutai.Explorer

open Zaowutai.Lib

def Command.reconciled : Command → Option String
  | .apply canonical _ | .overflow canonical => some canonical
  | _ => none

def Command.hint : Command → Hint
  | .apply _ hint => hint
  | _ => .all

/-- What the provider answers, by the URI it is asked for. -/
structure FileSystem where
  readDir : String → Except FsError (List (String × EntryFact))
  stat : String → Except FsError (Option EntryFact)

namespace FileSystem

variable (urls : UrlCrate) (fs : FileSystem) (canonical : String)

def childStat (name : String) : Except FsError (Option EntryFact) :=
  match TreeModel.childUri urls canonical name with
  | .error e => .error e
  | .ok uri => fs.stat uri

def answers (names : List String) : FsAnswers where
  watch := .ok ()
  readDir := fs.readDir canonical
  stat call := match (names.filter fun name ↦ !shouldHide name)[call]? with
    | some name => fs.childStat urls canonical name
    | none => .ok none

def hintNames : Hint → List String
  | .childNames names => names
  | .all => []

def Readable : Hint → Prop
  | .all => ∃ rows, fs.readDir canonical = .ok rows
  | .childNames names => ∀ name ∈ names, shouldHide name = false →
      ∃ found, fs.childStat urls canonical name = .ok found

/-- The listing of the directory and its entries by themselves tell the same. -/
def Agrees : Prop :=
  ∀ rows name found, fs.readDir canonical = .ok rows → shouldHide name = false →
    fs.childStat urls canonical name = .ok found → (collect rows).lookup name = found

def Tells (name : String) (found : Option EntryFact) : Hint → Prop
  | .all => ∃ rows, fs.readDir canonical = .ok rows ∧ (collect rows).lookup name = found
  | .childNames _ => fs.childStat urls canonical name = .ok found

variable {urls fs canonical}

theorem statChildren_answers (before : List String) {names : List String} {calls : ℕ}
    {m fresh : Listing} (hcalls : calls = (before.filter fun name ↦ !shouldHide name).length)
    (h : TreeModel.statChildren urls (fs.answers urls canonical (before ++ names)) canonical calls m
      names = .ok fresh) :
    (∀ name ∈ names, shouldHide name = false →
      fs.childStat urls canonical name = .ok (fresh.lookup name)) ∧
    ∀ name, ¬(name ∈ names ∧ shouldHide name = false) → fresh.lookup name = m.lookup name := by
  induction names generalizing before calls m with
  | nil =>
      cases h
      exact ⟨fun _ hmem ↦ absurd hmem List.not_mem_nil, fun _ _ ↦ rfl⟩
  | cons name names ih =>
      have happend : before ++ name :: names = (before ++ [name]) ++ names := by simp
      unfold TreeModel.statChildren at h
      cases hhide : shouldHide name with
      | true =>
          simp only [hhide, if_true] at h
          rw [happend] at h
          obtain ⟨hread, hkept⟩ := ih (before ++ [name])
            (by simp [hcalls, List.filter_append, hhide]) h
          refine ⟨fun other hmem hshow ↦ ?_, fun other hnot ↦ hkept other fun hboth ↦ ?_⟩
          · obtain rfl | hmem := List.mem_cons.mp hmem
            · rw [hhide] at hshow
              cases hshow
            · exact hread other hmem hshow
          · exact hnot ⟨List.mem_cons_of_mem _ hboth.1, hboth.2⟩
      | false =>
          have hstat : (fs.answers urls canonical (before ++ name :: names)).stat calls =
              fs.childStat urls canonical name := by
            simp [answers, List.filter_append, hhide, hcalls]
          simp only [hhide, Bool.false_eq_true, if_false, hstat] at h
          obtain ⟨uri, huri⟩ : ∃ uri, TreeModel.childUri urls canonical name = .ok uri := by
            cases huri : TreeModel.childUri urls canonical name with
            | error e => simp [huri] at h
            | ok uri => exact ⟨uri, rfl⟩
          obtain ⟨found, m', hfound, hname, hother, h⟩ : ∃ found, ∃ m' : Listing,
              fs.childStat urls canonical name = .ok found ∧ m'.lookup name = found ∧
                (∀ other, other ≠ name → m'.lookup other = m.lookup other) ∧
                TreeModel.statChildren urls (fs.answers urls canonical (before ++ name :: names))
                  canonical (calls + 1) m' names = .ok fresh := by
            cases hfound : fs.childStat urls canonical name with
            | error e => simp [huri, hfound] at h
            | ok found =>
                cases found with
                | some fact =>
                    simp only [huri, hfound] at h
                    exact ⟨some fact, m.insert name fact, rfl, AList.lookup_insert _,
                      fun other hne ↦ AList.lookup_insert_ne hne, h⟩
                | none =>
                    simp only [huri, hfound] at h
                    exact ⟨none, m.erase name, rfl, AList.lookup_erase _ _,
                      fun other hne ↦ AList.lookup_erase_ne hne, h⟩
          rw [happend] at h
          obtain ⟨hread, hkept⟩ := ih (before ++ [name])
            (by simp [hcalls, List.filter_append, hhide]) h
          refine ⟨fun other hmem hshow ↦ ?_, fun other hnot ↦ ?_⟩
          · by_cases hlater : other ∈ names
            · exact hread other hlater hshow
            · obtain rfl := (List.mem_cons.mp hmem).resolve_right hlater
              rw [hkept other fun hboth ↦ hlater hboth.1, hname, hfound]
          · rw [hkept other fun hboth ↦ hnot ⟨List.mem_cons_of_mem _ hboth.1, hboth.2⟩]
            refine hother other ?_
            rintro rfl
            exact hnot ⟨List.mem_cons_self, hhide⟩

theorem statChildren_isOk (before : List String) {names : List String} {calls : ℕ} (m : Listing)
    (hcalls : calls = (before.filter fun name ↦ !shouldHide name).length)
    (h : ∀ name ∈ names, shouldHide name = false →
      ∃ found, fs.childStat urls canonical name = .ok found) :
    ∃ fresh, TreeModel.statChildren urls (fs.answers urls canonical (before ++ names)) canonical
      calls m names = .ok fresh := by
  induction names generalizing before calls m with
  | nil => exact ⟨m, rfl⟩
  | cons name names ih =>
      have happend : before ++ name :: names = (before ++ [name]) ++ names := by simp
      have hrest : ∀ other ∈ names, shouldHide other = false →
          ∃ found, fs.childStat urls canonical other = .ok found :=
        fun other hmem ↦ h other (List.mem_cons_of_mem _ hmem)
      unfold TreeModel.statChildren
      cases hhide : shouldHide name with
      | true =>
          simp only [if_true]
          rw [happend]
          exact ih (before ++ [name]) m (by simp [hcalls, List.filter_append, hhide]) hrest
      | false =>
          have hstat : (fs.answers urls canonical (before ++ name :: names)).stat calls =
              fs.childStat urls canonical name := by
            simp [answers, List.filter_append, hhide, hcalls]
          obtain ⟨found, hfound⟩ := h name List.mem_cons_self hhide
          obtain ⟨uri, huri⟩ : ∃ uri, TreeModel.childUri urls canonical name = .ok uri := by
            cases huri : TreeModel.childUri urls canonical name with
            | error e => simp [childStat, huri] at hfound
            | ok uri => exact ⟨uri, rfl⟩
          have hnext : calls + 1 =
              ((before ++ [name]).filter fun name ↦ !shouldHide name).length := by
            simp [hcalls, List.filter_append, hhide]
          cases found with
          | some fact =>
              simp only [Bool.false_eq_true, if_false, hstat, huri, hfound]
              rw [happend]
              exact ih (before ++ [name]) (m.insert name fact) hnext hrest
          | none =>
              simp only [Bool.false_eq_true, if_false, hstat, huri, hfound]
              rw [happend]
              exact ih (before ++ [name]) (m.erase name) hnext hrest

theorem freshListing_childNames {names : List String} {m fresh : Listing}
    (h : TreeModel.freshListing urls (fs.answers urls canonical names) canonical m
      (.childNames names) = .ok fresh) :
    (∀ name, (Hint.childNames names).Rereads name →
      fs.childStat urls canonical name = .ok (fresh.lookup name)) ∧
    ∀ name, ¬(Hint.childNames names).Rereads name → fresh.lookup name = m.lookup name := by
  obtain ⟨hread, hkept⟩ := statChildren_answers [] rfl h
  exact ⟨fun name hname ↦ hread name hname.1 hname.2, hkept⟩

theorem freshListing_all {answers : FsAnswers} {m fresh : Listing}
    (h : TreeModel.freshListing urls answers canonical m .all = .ok fresh) :
    ∃ rows, answers.readDir = .ok rows ∧ collect rows = fresh := by
  rw [TreeModel.freshListing] at h
  cases hrows : answers.readDir with
  | error e =>
      rw [hrows] at h
      cases h
  | ok rows =>
      rw [hrows] at h
      exact ⟨rows, rfl, Except.ok.inj h⟩

theorem freshListing_isOk_iff (urls : UrlCrate) (fs : FileSystem) (canonical : String) (hint : Hint)
    (m : Listing) :
    (∃ fresh, TreeModel.freshListing urls (fs.answers urls canonical (hintNames hint)) canonical m
      hint = .ok fresh) ↔ fs.Readable urls canonical hint := by
  cases hint with
  | all =>
      simp only [TreeModel.freshListing, answers, Readable]
      cases fs.readDir canonical <;> simp [Except.map]
  | childNames names =>
      constructor
      · rintro ⟨fresh, h⟩ name hmem hshow
        exact ⟨_, (freshListing_childNames h).1 name ⟨hmem, hshow⟩⟩
      · exact fun h ↦ statChildren_isOk [] m rfl h

def answersTo (urls : UrlCrate) (fs : FileSystem) : Command → FsAnswers
  | .apply canonical hint => fs.answers urls canonical (hintNames hint)
  | .subscribe _ canonical _ | .unsubscribe _ canonical _ | .remount canonical
  | .overflow canonical => fs.answers urls canonical []
  | .dropSession _ _ | .reapTick _ => ⟨.ok (), .ok [], fun _ ↦ .ok none⟩

end FileSystem

namespace Replicas

/-- A failure is logged and stops nothing; other outputs are fanned out. -/
def drive (urls : UrlCrate) (fs : FileSystem) (r : Replicas) (command : Command) : Replicas where
  shard := (r.shard.handle urls (fs.answersTo urls command) command).1
  listings := match (r.shard.handle urls (fs.answersTo urls command) command).2 with
    | .ok outputs => outputs.foldl fanOut r.listings
    | .error _ => r.listings

variable {urls : UrlCrate} {fs : FileSystem} {r : Replicas} {command : Command}
  {canonical c : String} {sub : Subscriber}

theorem subs_drive (h : command.reconciled = some c) :
    (r.drive urls fs command).shard.subs = r.shard.subs := by
  cases command with
  | apply canonical hint => rfl
  | overflow canonical =>
      simp only [drive, Shard.handle]
      split <;> rfl
  | _ => cases h

theorem tree_drive (h : command.reconciled = some c) :
    (r.drive urls fs command).shard.tree =
      (r.shard.tree.apply urls (fs.answersTo urls command) c command.hint).1 := by
  cases command with
  | apply canonical hint =>
      cases h
      rfl
  | overflow canonical =>
      cases h
      simp only [drive, Shard.handle]
      split
      · next hnone =>
          rw [TreeModel.snapshot, Option.isNone_map, Option.isNone_iff_eq_none] at hnone
          simp only [TreeModel.apply, hnone]
      · rfl
  | _ => cases h

theorem lookup_drive_of_ne (urls : UrlCrate) (fs : FileSystem) (r : Replicas)
    (h : command.reconciled = some c) (hne : canonical ≠ c) :
    (r.drive urls fs command).shard.tree.nodes.lookup canonical =
      r.shard.tree.nodes.lookup canonical := by
  rw [tree_drive h]
  obtain ⟨node, fresh, -, -, happly⟩ | happly := TreeModel.apply_cases urls
    (fs.answersTo urls command) r.shard.tree c command.hint
  · rw [happly, Table.lookup_modify, if_neg hne]
  · rw [happly]

theorem schemes_drive (h : command.reconciled = some c) :
    (r.drive urls fs command).shard.tree.runtimes = r.shard.tree.runtimes := by
  rw [tree_drive h]
  obtain ⟨node, fresh, -, -, happly⟩ | happly := TreeModel.apply_cases urls
    (fs.answersTo urls command) r.shard.tree c command.hint
  · rw [happly]
  · rw [happly]

variable {node : Node} {fresh : Listing}

theorem lookup_drive_of_reads (h : command.reconciled = some canonical)
    (hreads : r.shard.tree.Reads urls (fs.answersTo urls command) canonical command.hint node
      fresh) :
    (r.drive urls fs command).shard.tree.nodes.lookup canonical =
      some (if diff node.entries fresh = [] then node else { node with entries := fresh }) := by
  rw [tree_drive h, TreeModel.apply_of_reads hreads]
  split
  · exact hreads.mounted
  · rw [Table.lookup_modify, if_pos rfl, hreads.mounted, Option.map_some]

theorem drive_of_not_reads (h : command.reconciled = some canonical)
    (hnot : ∀ node fresh, ¬r.shard.tree.Reads urls (fs.answersTo urls command) canonical
      command.hint node fresh) :
    r.drive urls fs command = r := by
  have happly := TreeModel.apply_of_not_reads hnot
  cases command with
  | apply c hint =>
      cases h
      obtain ⟨-, happly⟩ | ⟨-, e, happly⟩ := happly <;>
        simp only [Command.hint] at happly <;>
        simp only [drive, Shard.handle, happly, Except.map, List.foldl_nil]
  | overflow c =>
      cases h
      obtain ⟨hnone, -⟩ | ⟨hsome, e, happly⟩ := happly
      · simp only [drive, Shard.handle, TreeModel.snapshot, hnone, Option.map_none,
          Option.isNone_none, if_true, List.foldl_nil]
      · simp only [Command.hint] at happly
        simp only [drive, Shard.handle, TreeModel.snapshot, Option.isNone_map,
          Option.isNone_iff_eq_none, Option.ne_none_iff_isSome.mpr hsome, if_false, happly,
          Except.map]
  | _ => cases h

theorem listing_apply {hint : Hint} (hnodup : (r.shard.recipients canonical).Nodup)
    (hreads : r.shard.tree.Reads urls (fs.answersTo urls (.apply canonical hint)) canonical hint
      node fresh) (sub : Subscriber) :
    (r.drive urls fs (.apply canonical hint)).listings.lookup sub =
      if sub ∈ r.shard.recipients canonical then
        (r.listings.lookup sub).map fun entries ↦
          ((diff node.entries fresh).map changeToWire).foldl applyChange entries
      else r.listings.lookup sub := by
  have happly := TreeModel.apply_of_reads hreads
  split at happly
  · next hdiff =>
      simp only [drive, Shard.handle, happly, Except.map, List.foldl_nil, hdiff, List.map_nil,
        Option.map_id', ite_self]
  · by_cases hnil : r.shard.recipients canonical = []
    · simp [drive, Shard.handle, happly, Except.map, hnil]
    · simp only [drive, Shard.handle, happly, Except.map, List.isEmpty_iff, if_neg hnil,
        List.foldl_cons, List.foldl_nil, lookup_fanOut_delta _ hnodup]

theorem listing_overflow {node' : Node}
    (hreads : r.shard.tree.Reads urls (fs.answersTo urls (.overflow canonical)) canonical .all
      node fresh)
    (hnode' : (r.drive urls fs (.overflow canonical)).shard.tree.nodes.lookup canonical =
      some node') (sub : Subscriber) :
    (r.drive urls fs (.overflow canonical)).listings.lookup sub =
      if sub ∈ r.shard.recipients canonical then
        some (wireEntries ⟨canonical, inOrder node'.entries⟩)
      else r.listings.lookup sub := by
  have hmounted : r.shard.tree.snapshot canonical = some ⟨canonical, inOrder node.entries⟩ := by
    rw [TreeModel.snapshot, hreads.mounted, Option.map_some]
  obtain ⟨-, -, delta, hdelta⟩ := apply_of_reads hreads
  have hsnapshot : (r.shard.tree.apply urls (fs.answersTo urls (.overflow canonical)) canonical
      .all).1.snapshot canonical = some ⟨canonical, inOrder node'.entries⟩ := by
    rw [tree_drive (c := canonical) rfl] at hnode'
    exact congrArg
      (Option.map fun node : Node ↦ Snapshot.mk canonical (inOrder node.entries)) hnode'
  by_cases hnil : r.shard.recipients canonical = []
  · simp only [drive, Shard.handle, hmounted, Option.isNone_some, Bool.false_eq_true, if_false,
      hdelta, Except.map, hsnapshot, hnil, List.isEmpty_nil, List.foldl_nil, List.not_mem_nil]
  · have hempty : (r.shard.recipients canonical).isEmpty = false := by
      rw [← Bool.not_eq_true, List.isEmpty_iff]
      exact hnil
    simp only [drive, Shard.handle, hmounted, Option.isNone_some, Bool.false_eq_true, if_false,
      hdelta, Except.map, hempty, hsnapshot, List.foldl_cons, List.foldl_nil,
      lookup_fanOut_snapshot]

theorem listing_drive_of_not_mem (h : command.reconciled = some c)
    (hnodup : (r.shard.recipients c).Nodup) (hsub : sub ∉ r.shard.recipients c) :
    (r.drive urls fs command).listings.lookup sub = r.listings.lookup sub := by
  by_cases hreads : ∃ node fresh,
      r.shard.tree.Reads urls (fs.answersTo urls command) c command.hint node fresh
  · obtain ⟨node, fresh, hreads⟩ := hreads
    cases command with
    | apply canonical hint =>
        cases h
        rw [listing_apply hnodup hreads, if_neg hsub]
    | overflow canonical =>
        cases h
        rw [listing_overflow hreads (lookup_drive_of_reads rfl hreads), if_neg hsub]
    | _ => cases h
  · rw [drive_of_not_reads h fun node fresh h' ↦ hreads ⟨node, fresh, h'⟩]

def KindsKept (old fresh : String → Option EntryFact) : Prop :=
  ∀ name of nf, old name = some of → fresh name = some nf → nf.kind = of.kind

theorem kindChangesMoved_of_kept {old fresh : Listing} (h : KindsKept old.lookup fresh.lookup) :
    KindChangesMoved old fresh := by
  intro name hold hfresh hne
  simp only [kinds, Option.isSome_map, Option.isSome_iff_exists] at hold hfresh
  obtain ⟨of, hof⟩ := hold
  obtain ⟨nf, hnf⟩ := hfresh
  rw [kinds, kinds, hof, hnf, Option.map_some, Option.map_some, h name of nf hof hnf] at hne
  exact absurd rfl hne

theorem holds_drive (h : command.reconciled = some canonical)
    (hnodup : (r.shard.recipients canonical).Nodup) (hsub : sub ∈ r.shard.recipients canonical)
    (hreads : r.shard.tree.Reads urls (fs.answersTo urls command) canonical command.hint node
      fresh)
    (hlisted : command = .overflow canonical ∨
      r.Holds sub node.entries ∧ KindsKept node.entries.lookup fresh.lookup) :
    (r.drive urls fs command).Holds sub
      (if diff node.entries fresh = [] then node else { node with entries := fresh }).entries := by
  have hnode' := lookup_drive_of_reads h hreads
  cases command with
  | apply c hint =>
      cases h
      obtain hlisted | ⟨⟨entries, hentries, hshows⟩, hkept⟩ := hlisted
      · cases hlisted
      · have hshows' := (shows_diff_iff hshows).mpr (kindChangesMoved_of_kept hkept)
        have hkinds : kinds (if diff node.entries fresh = [] then node
            else { node with entries := fresh }).entries = kinds fresh := by
          split
          · next hdiff => exact (kinds_eq_of_diff_eq_nil hdiff).symm
          · rfl
        refine Holds.congr ⟨_, ?_, hshows'⟩ hkinds
        rw [listing_apply hnodup hreads, if_pos hsub, hentries, Option.map_some]
  | overflow c =>
      cases h
      refine ⟨_, ?_, shows_wireEntries canonical _⟩
      rw [listing_overflow hreads hnode', if_pos hsub]
  | _ => cases h

end Replicas

end Zaowutai.Explorer
