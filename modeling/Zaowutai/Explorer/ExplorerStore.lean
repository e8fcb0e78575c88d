import Zaowutai.Explorer.ExplorerModel
import Zaowutai.Explorer.LocalWatcher
import Zaowutai.Explorer.Subscription

/-!
# The explorer store

The store holds the expanded directories, the set it has reported to the
backend and the listings.  A reconciliation sends what the reported set lacks
and what it has too much.  The frames reach the backend in their order; the
requests settle in any order.
-/

namespace Zaowutai.Explorer

open Zaowutai.Lib

/-- A listing, with the directory whose snapshot it came from. -/
structure CachedListing where
  source : PeKey
  entries : List Entry
  deriving DecidableEq, Repr

inductive Frame
  | subscribe (id : ℕ) (refs : List PeKey)
  | unsubscribe (refs : List PeKey)
  deriving DecidableEq, Repr

inductive Progress
  | waiting
  | answered (snapshots : List (PeKey × List Entry))
  /-- Not sent, or answered with an error. -/
  | failed
  deriving DecidableEq, Repr

structure PendingSubscribe where
  id : ℕ
  keys : List PeKey
  progress : Progress
  deriving DecidableEq, Repr

def setKey (cache : Table PeKey CachedListing) (key : PeKey) (listing : CachedListing) :
    Table PeKey CachedListing :=
  if (cache.lookup key).isSome then cache.modify key fun _ ↦ listing else cache.insert key listing

structure ExplorerStore where
  expanded : List PeKey
  current : List PeKey
  cache : Table PeKey CachedListing
  reconcileScheduled : Bool
  nextId : ℕ
  pending : List PendingSubscribe
  outbox : List Frame
  subscribed : List PeKey
  /-- What rejected requests have taken out of `current` since the last reconciliation. -/
  rolledBack : List PeKey

structure BackendAnswers where
  /-- The targets that do not resolve to a directory. -/
  unresolved : List PeKey
  /-- The listings of those that can be mounted. -/
  listing : PeKey → Option (List Entry)

inductive StoreAct
  | setExpanded (key : PeKey) (isExpanded : Bool)
  | setExpandedKeys (keys : List PeKey)
  | snapshot (target : PeKey) (entries : List Entry)
  | delta (target : PeKey) (changes : List WireChange)
  /-- The scheduled microtask; the socket may not be open. -/
  | reconcile (online : Bool)
  /-- The backend handles the first frame. -/
  | backend (answers : BackendAnswers)
  | resolve (id : ℕ)
  | reject (id : ℕ)

namespace ExplorerStore

variable (s : ExplorerStore)

def new : ExplorerStore := ⟨[], [], ∅, false, 0, [], [], [], []⟩

def scheduleReconcile : ExplorerStore := { s with reconcileScheduled := true }

def isWanted (key : PeKey) : Bool := (deriveWant s.expanded).contains key

def applySnapshot (key : PeKey) (entries : List Entry) : ExplorerStore :=
  { s with cache := setKey s.cache key ⟨key, entries⟩ }

def notify (online : Bool) (refs : List PeKey) : ExplorerStore :=
  if online then { s with outbox := s.outbox ++ [.unsubscribe refs] } else s

def request (online : Bool) (refs : List PeKey) : ExplorerStore :=
  { s with
    nextId := s.nextId + 1
    pending := s.pending ++ [⟨s.nextId, refs, if online then .waiting else .failed⟩]
    outbox := if online then s.outbox ++ [.subscribe s.nextId refs] else s.outbox }

def runReconcile (online : Bool) : ExplorerStore :=
  let want := deriveWant s.expanded
  let diff := reconcileDiff want s.current
  let s := { s with current := want, reconcileScheduled := false, rolledBack := [] }
  let s := if diff.2.isEmpty then s else s.notify online diff.2
  if diff.1.isEmpty then s else s.request online diff.1

def pruneSubtree (rootKey : PeKey) : ExplorerStore :=
  { s with
    expanded := s.expanded.filter fun key ↦ !isDescendantOrSelf key rootKey
    current := s.current.filter fun key ↦ !isDescendantOrSelf key rootKey
    cache := s.cache.eraseAll (subtreeKeys s.cache.keys rootKey) }

/-- The listings under the moved keys, from the oldest on; a later one replaces an earlier one of
the same key. -/
def migrateCache (cache : Table PeKey CachedListing) (source target : PeKey) :
    Table PeKey CachedListing :=
  cache.entries.reverse.foldl (fun next e ↦ setKey next (migrateKey e.1 source target) e.2) ∅

def migratePrefix (source target : PeKey) : ExplorerStore :=
  { s with
    expanded := (s.expanded.map fun key ↦ migrateKey key source target).dedup
    current := (s.current.map fun key ↦ migrateKey key source target).dedup
    cache := migrateCache s.cache source target }

def childKey (target : PeKey) (name : String) : PeKey :=
  ⟨target.peId, joinRel target.relativePath name.toList⟩

/-- One round of the loop over the changes of a delta. -/
def applyStructure (target : PeKey) (s : ExplorerStore) : WireChange → ExplorerStore
  | .removed name => s.pruneSubtree (childKey target name)
  | .renamed source name => s.migratePrefix (childKey target source) (childKey target name)
  | .added _ _ _ | .modified _ | .other _ => s

def applyDelta (key : PeKey) (changes : List WireChange) : ExplorerStore :=
  { s with cache := s.cache.modify key fun listing ↦
      { listing with entries := changes.foldl applyChange listing.entries } }

def applyServerDelta (target : PeKey) (changes : List WireChange) : ExplorerStore :=
  if s.isWanted target then
    (changes.foldl (applyStructure target) (s.applyDelta target changes)).scheduleReconcile
  else s

def setProgress (id : ℕ) (progress : Progress) : ExplorerStore :=
  { s with pending := s.pending.map fun r ↦
      if r.id = id then { r with progress := progress } else r }

/-- A target that does not resolve fails a whole subscription, and is ignored otherwise.  A
subscription is registered before its directory is mounted, and is answered with the listings of
those that could be. -/
def handleFrame (answers : BackendAnswers) : Frame → ExplorerStore
  | .unsubscribe refs =>
      { s with subscribed := s.subscribed.filter fun key ↦
          !refs.contains key || answers.unresolved.contains key }
  | .subscribe id refs =>
      if refs.any answers.unresolved.contains then s.setProgress id .failed
      else
        let snapshots := refs.filterMap fun key ↦ (answers.listing key).map fun es ↦ (key, es)
        let s := { s with subscribed := s.subscribed ∪ refs }
        s.setProgress id (if snapshots.isEmpty then .failed else .answered snapshots)

def applyReply (snapshots : List (PeKey × List Entry)) : ExplorerStore :=
  snapshots.foldl (fun s snap ↦ if s.isWanted snap.1 then s.applySnapshot snap.1 snap.2 else s) s

def request? (id : ℕ) : Option PendingSubscribe := s.pending.find? fun r ↦ r.id = id

def settle (id : ℕ) : ExplorerStore :=
  { s with pending := s.pending.filter fun r ↦ r.id ≠ id }

/-- A rejected subscription takes its keys back; it is not tried again before the next
reconciliation. -/
def rollBack (keys : List PeKey) : ExplorerStore :=
  { s with
    current := s.current.filter fun key ↦ !keys.contains key
    rolledBack := s.rolledBack ++ keys }

def step : StoreAct → ExplorerStore
  | .setExpanded key isExpanded =>
      { s with expanded := if isExpanded then s.expanded.insert key
          else s.expanded.filter (· ≠ key) }.scheduleReconcile
  | .setExpandedKeys keys => { s with expanded := keys.dedup }.scheduleReconcile
  | .snapshot target entries => if s.isWanted target then s.applySnapshot target entries else s
  | .delta target changes => s.applyServerDelta target changes
  | .reconcile online => if s.reconcileScheduled then s.runReconcile online else s
  | .backend answers =>
      match s.outbox with
      | [] => s
      | frame :: outbox => { s with outbox := outbox }.handleFrame answers frame
  | .resolve id =>
      match s.request? id with
      | some ⟨_, _, .answered snapshots⟩ => (s.settle id).applyReply snapshots
      | _ => s
  | .reject id =>
      match s.request? id with
      | some ⟨_, keys, .answered _⟩ | some ⟨_, keys, .failed⟩ => (s.settle id).rollBack keys
      | _ => s

end ExplorerStore

/-!
## The shard

A sequential worker owns the file tree and the subscriptions.  Each command
runs to its end before the next one; a command that fails keeps what it has
done up to the failure.
-/

inductive Command
  | subscribe (sub : Subscriber) (canonical : String) (now : Millis)
  | unsubscribe (sub : Subscriber) (canonical : String) (now : Millis)
  | remount (canonical : String)
  | apply (canonical : String) (hint : Hint)
  | overflow (canonical : String)
  | dropSession (session : String) (now : Millis)
  | reapTick (now : Millis)
  deriving DecidableEq, Repr

inductive ShardOutput
  | snapshot (subscribers : List Subscriber) (snapshot : Snapshot)
  | delta (subscribers : List Subscriber) (delta : DeltaBatch)
  deriving DecidableEq, Repr

structure Shard where
  tree : TreeModel
  subs : SubscriptionRegistry
  warmBudget : ℕ

namespace Shard

variable (urls : UrlCrate) (answers : FsAnswers) (s : Shard)

def new (schemes : List String) (warmBudget : ℕ) : Shard :=
  ⟨.new schemes, .new, warmBudget⟩

def recipients (canonical : String) : List Subscriber := s.subs.subscribers canonical

def serve (canonical : String) : SubscribeOutcome → TreeModel × Except FsError Snapshot
  | .mount => s.tree.mount urls answers canonical
  | .rescuedFromGrace | .alreadyLive =>
      match s.tree.snapshot canonical with
      | some snapshot => (s.tree, .ok snapshot)
      | none => s.tree.mount urls answers canonical

def unmountAll (t : TreeModel) (canonicals : List String) : TreeModel :=
  canonicals.foldl (fun t canonical ↦ t.unmount urls canonical) t

def handle : Command → Shard × Except FsError (List ShardOutput)
  | .subscribe sub canonical _ =>
      let (subs, outcome) := s.subs.subscribe sub canonical
      let (tree, result) := s.serve urls answers canonical outcome
      ({ s with tree := tree, subs := subs },
        result.map fun snapshot ↦ [.snapshot [sub] snapshot])
  | .unsubscribe sub canonical now =>
      ({ s with subs := (s.subs.unsubscribe sub canonical now).1 }, .ok [])
  | .remount canonical =>
      -- mounting a cold directory would leave a node that the reaper never finds
      if !s.subs.isWatched canonical then (s, .ok [])
      else
        let (tree, result) := (s.tree.unmount urls canonical).mount urls answers canonical
        ({ s with tree := tree },
          result.map fun snapshot ↦ [.snapshot (s.recipients canonical) snapshot])
  | .apply canonical hint =>
      let (tree, result) := s.tree.apply urls answers canonical hint
      ({ s with tree := tree }, result.map fun
        | none => []
        | some delta =>
            if (s.recipients canonical).isEmpty then []
            else [.delta (s.recipients canonical) delta])
  | .overflow canonical =>
      if (s.tree.snapshot canonical).isNone then (s, .ok [])
      else
        let (tree, result) := s.tree.apply urls answers canonical .all
        ({ s with tree := tree }, result.map fun _ ↦
          match (s.recipients canonical).isEmpty, tree.snapshot canonical with
          | false, some snapshot => [.snapshot (s.recipients canonical) snapshot]
          | _, _ => [])
  | .dropSession session now =>
      ({ s with subs := (s.subs.dropSession session now).1 }, .ok [])
  | .reapTick now =>
      let (subs, expired) := s.subs.reap now
      let tree := unmountAll urls s.tree expired
      let (subs, evicted) := subs.enforceWatchBudget s.warmBudget
      ({ s with tree := unmountAll urls tree evicted, subs := subs }, .ok [])

end Shard

namespace TreeModel

variable {urls : UrlCrate} {answers : FsAnswers} {t : TreeModel} {canonical c : String}

structure MountSucceeds (urls : UrlCrate) (answers : FsAnswers) (t : TreeModel)
    (canonical : String) (rows : List (String × EntryFact)) : Prop where
  runtime : t.runtimeFor urls canonical = .ok ()
  watch : answers.watch = .ok ()
  readDir : answers.readDir = .ok rows

theorem mount_of_mounted {node : Node} (h : t.nodes.lookup canonical = some node) :
    t.mount urls answers canonical = (t, .ok ⟨canonical, inOrder node.entries⟩) := by
  simp only [mount, snapshot, h, Option.map_some]

theorem mount_cases (urls : UrlCrate) (answers : FsAnswers)
    (h : t.nodes.lookup canonical = none) :
    (∃ rows, MountSucceeds urls answers t canonical rows ∧
        t.mount urls answers canonical =
          (⟨t.nodes.insert canonical ⟨collect rows, ⟨canonical⟩⟩,
            ⟨t.runtimes.schemes, insert canonical t.runtimes.armed⟩⟩,
              .ok ⟨canonical, inOrder (collect rows)⟩)) ∨
      (∀ rows, ¬ MountSucceeds urls answers t canonical rows) ∧
        (t.mount urls answers canonical).1.nodes = t.nodes ∧
        (t.mount urls answers canonical).1.runtimes.schemes = t.runtimes.schemes ∧
        ∃ e, (t.mount urls answers canonical).2 = .error e := by
  simp only [mount, snapshot, h, Option.map_none]
  cases hruntime : t.runtimeFor urls canonical with
  | error e =>
      right
      refine ⟨fun rows hmount ↦ ?_, rfl, rfl, e, rfl⟩
      cases hruntime.symm.trans hmount.runtime
  | ok _ =>
      cases hwatch : answers.watch with
      | error e =>
          right
          refine ⟨fun rows hmount ↦ ?_, rfl, rfl, e, rfl⟩
          cases hwatch.symm.trans hmount.watch
      | ok _ =>
          cases hread : answers.readDir with
          | error e =>
              right
              refine ⟨fun rows hmount ↦ ?_, rfl, rfl, e, rfl⟩
              cases hread.symm.trans hmount.readDir
          | ok rows =>
              left
              exact ⟨rows, ⟨hruntime, hwatch, hread⟩, rfl⟩

theorem runtimeFor_congr {t' : TreeModel} (h : t'.runtimes.schemes = t.runtimes.schemes) :
    t'.runtimeFor urls = t.runtimeFor urls := by
  funext canonical
  rw [runtimeFor, runtimeFor, h]

@[simp] theorem schemes_unmount :
    (t.unmount urls canonical).runtimes.schemes = t.runtimes.schemes := by
  simp only [unmount]
  split
  · rfl
  · split <;> rfl

theorem lookup_unmount :
    (t.unmount urls canonical).nodes.lookup c =
      if c = canonical then none else t.nodes.lookup c := by
  simp only [unmount]
  split
  · next hnone =>
      split
      · next heq => rw [heq, hnone]
      · rfl
  · split <;> exact Table.lookup_erase_eq

theorem mountSucceeds_unmount {rows : List (String × EntryFact)} :
    MountSucceeds urls answers (t.unmount urls c) canonical rows ↔
      MountSucceeds urls answers t canonical rows := by
  constructor <;> rintro ⟨hruntime, hwatch, hread⟩ <;> refine ⟨?_, hwatch, hread⟩
  · rw [← hruntime, runtimeFor_congr schemes_unmount]
  · rw [← hruntime, runtimeFor_congr schemes_unmount]

structure Reads (urls : UrlCrate) (answers : FsAnswers) (t : TreeModel) (canonical : String)
    (hint : Hint) (node : Node) (fresh : Listing) : Prop where
  mounted : t.nodes.lookup canonical = some node
  runtime : t.runtimeFor urls canonical = .ok ()
  fresh : freshListing urls answers canonical node.entries hint = .ok fresh

theorem Reads.unique {hint : Hint} {node node' : Node} {fresh fresh' : Listing}
    (h : Reads urls answers t canonical hint node fresh)
    (h' : Reads urls answers t canonical hint node' fresh') : node' = node ∧ fresh' = fresh := by
  have hnode := h'.mounted.symm.trans h.mounted
  cases hnode
  have hfresh := h'.fresh.symm.trans h.fresh
  cases hfresh
  exact ⟨rfl, rfl⟩

theorem apply_of_reads {hint : Hint} {node : Node} {fresh : Listing}
    (h : Reads urls answers t canonical hint node fresh) :
    t.apply urls answers canonical hint =
      if diff node.entries fresh = [] then (t, .ok none)
      else
        ({ t with nodes := t.nodes.modify canonical fun node ↦ { node with entries := fresh } },
          .ok (some ⟨canonical, diff node.entries fresh⟩)) := by
  simp only [apply, h.mounted, h.runtime, h.fresh, List.isEmpty_iff]

theorem apply_of_not_reads {hint : Hint}
    (h : ∀ node fresh, ¬ Reads urls answers t canonical hint node fresh) :
    t.nodes.lookup canonical = none ∧ t.apply urls answers canonical hint = (t, .ok none) ∨
      (t.nodes.lookup canonical).isSome = true ∧
        ∃ e, t.apply urls answers canonical hint = (t, .error e) := by
  cases hnode : t.nodes.lookup canonical with
  | none => exact .inl ⟨rfl, by simp [apply, hnode]⟩
  | some node =>
      refine .inr ⟨rfl, ?_⟩
      cases hruntime : t.runtimeFor urls canonical with
      | error e => exact ⟨e, by simp [apply, hnode, hruntime]⟩
      | ok _ =>
          cases hfresh : freshListing urls answers canonical node.entries hint with
          | error e => exact ⟨e, by simp [apply, hnode, hruntime, hfresh]⟩
          | ok fresh => exact absurd ⟨hnode, hruntime, hfresh⟩ (h node fresh)

theorem apply_cases (urls : UrlCrate) (answers : FsAnswers) (t : TreeModel) (canonical : String)
    (hint : Hint) :
    (∃ node fresh, Reads urls answers t canonical hint node fresh ∧
        diff node.entries fresh ≠ [] ∧
        t.apply urls answers canonical hint =
          ({ t with nodes := t.nodes.modify canonical fun node ↦ { node with entries := fresh } },
            .ok (some ⟨canonical, diff node.entries fresh⟩))) ∨
      (t.apply urls answers canonical hint).1 = t := by
  by_cases hreads : ∃ node fresh, Reads urls answers t canonical hint node fresh
  · obtain ⟨node, fresh, hreads⟩ := hreads
    have heq := apply_of_reads hreads
    split at heq
    · exact .inr (by rw [heq])
    · next hdiff => exact .inl ⟨node, fresh, hreads, hdiff, heq⟩
  · right
    rcases apply_of_not_reads fun node fresh h ↦ hreads ⟨node, fresh, h⟩ with
      ⟨-, heq⟩ | ⟨-, e, heq⟩ <;>
      rw [heq]

end TreeModel

namespace Shard

variable {urls : UrlCrate} {answers : FsAnswers} {s : Shard}

theorem serve_eq (canonical : String) (outcome : SubscribeOutcome) :
    s.serve urls answers canonical outcome = s.tree.mount urls answers canonical := by
  cases outcome with
  | mount => rfl
  | rescuedFromGrace =>
      simp only [serve]
      split
      · next hsnapshot => simp only [TreeModel.mount, hsnapshot]
      · rfl
  | alreadyLive =>
      simp only [serve]
      split
      · next hsnapshot => simp only [TreeModel.mount, hsnapshot]
      · rfl

end Shard

end Zaowutai.Explorer
