import Mathlib.Data.Set.Finite.Basic
import Zaowutai.Lib.ClosedWalks
import Zaowutai.Extension.Dependency

/-!
# What the sort emits

The counter of an extension is the number of its installed dependencies that
have not been emitted.  While names are taken from the queue the counters stay
true, so none is taken below zero.  What is emitted comes after everything it
depends on, and what is left over leads to a cycle.
-/

namespace Zaowutai.Extension

open Zaowutai.Lib

def DependsOn (extensions : List LoadedExtension) (name dependency : String) : Prop :=
  ∃ ext ∈ extensions, ext.name = name ∧ dependency ∈ ext.keys ∧
    dependency ∈ knownNames extensions

section Names

variable {extensions : List LoadedExtension} {name : String} {ext ext' : LoadedExtension}

theorem mem_knownNames : name ∈ knownNames extensions ↔ ∃ ext ∈ extensions, ext.name = name := by
  simp [knownNames]

theorem nodup_knownNames (extensions : List LoadedExtension) : (knownNames extensions).Nodup :=
  List.nodup_dedup _

theorem DependsOn.known {dependency : String} (h : DependsOn extensions name dependency) :
    dependency ∈ knownNames extensions := by
  obtain ⟨_, _, _, _, hknown⟩ := h
  exact hknown

theorem DependsOn.installed {dependency : String} (h : DependsOn extensions name dependency) :
    name ∈ knownNames extensions := by
  obtain ⟨ext, hext, hname, -⟩ := h
  exact mem_knownNames.mpr ⟨ext, hext, hname⟩

theorem eq_of_name_eq (hdistinct : (extensions.map (·.name)).Nodup) (hext : ext ∈ extensions)
    (hext' : ext' ∈ extensions) (hname : ext.name = ext'.name) : ext = ext' :=
  List.inj_on_of_nodup_map hdistinct hext hext' hname

theorem dependsOn_iff (hdistinct : (extensions.map (·.name)).Nodup) (hext : ext ∈ extensions)
    {dependency : String} :
    DependsOn extensions ext.name dependency ↔
      dependency ∈ ext.keys ∧ dependency ∈ knownNames extensions := by
  constructor
  · rintro ⟨ext', hext', hname, hkey, hknown⟩
    rw [eq_of_name_eq hdistinct hext' hext hname] at hkey
    exact ⟨hkey, hknown⟩
  · rintro ⟨hkey, hknown⟩
    exact ⟨ext, hext, rfl, hkey, hknown⟩

theorem mem_sorted {names : List String} : name ∈ sorted names ↔ name ∈ names :=
  List.mem_insertionSort _

theorem sorted_perm (names : List String) : (sorted names).Perm names :=
  List.perm_insertionSort _ names

end Names

section Graph

variable {known : List String} {name d : String} {keys : List String} {g : DependencyGraph}

theorem foldl_addDependency_adj (hkeys : keys.Nodup) :
    (keys.foldl (DependencyGraph.addDependency known name) g).adj d =
      g.adj d ++ if d ∈ keys ∧ d ∈ known then [name] else [] := by
  induction keys generalizing g with
  | nil => simp
  | cons key keys ih =>
      obtain ⟨hkey, hkeys⟩ := List.nodup_cons.mp hkeys
      rw [List.foldl_cons, ih hkeys, DependencyGraph.addDependency]
      by_cases hknown : key ∈ known
      · rw [if_pos hknown]
        by_cases hd : d = key
        · subst hd
          simp [hkey, hknown]
        · simp [hd]
      · rw [if_neg hknown]
        by_cases hd : d = key
        · subst hd
          simp [hknown]
        · simp [hd]

theorem foldl_addDependency_inDegree {count : ℕ} (hcount : g.inDegree name = some count) :
    (keys.foldl (DependencyGraph.addDependency known name) g).inDegree =
      Function.update g.inDegree name (some (count + (keys.filter (· ∈ known)).length)) := by
  induction keys generalizing g count with
  | nil => simp [← hcount]
  | cons key keys ih =>
      rw [List.foldl_cons, DependencyGraph.addDependency]
      by_cases hknown : key ∈ known
      · have hnext : Function.update g.inDegree name (some ((g.inDegree name).getD 0 + 1)) name =
            some (count + 1) := by
          simp [hcount]
        rw [if_pos hknown, ih hnext, List.filter_cons_of_pos (by simpa using hknown)]
        simp only [Function.update_idem, List.length_cons]
        rw [show count + 1 + (keys.filter (· ∈ known)).length =
          count + ((keys.filter (· ∈ known)).length + 1) by omega]
      · rw [if_neg hknown, ih hcount, List.filter_cons_of_neg (by simpa using hknown)]

theorem addExtension_adj (g : DependencyGraph) (ext : LoadedExtension) :
    (g.addExtension known ext).adj d =
      g.adj d ++ if d ∈ ext.keys ∧ d ∈ known then [ext.name] else [] :=
  foldl_addDependency_adj ext.manifest.nodup_keys

theorem addExtension_inDegree (g : DependencyGraph) (ext : LoadedExtension) :
    (g.addExtension known ext).inDegree = Function.update g.inDegree ext.name
      (some ((g.inDegree ext.name).getD 0 + (ext.keys.filter (· ∈ known)).length)) := by
  have hentry : Function.update g.inDegree ext.name (some ((g.inDegree ext.name).getD 0)) ext.name =
      some ((g.inDegree ext.name).getD 0) := Function.update_self ..
  rw [DependencyGraph.addExtension, foldl_addDependency_inDegree hentry, Function.update_idem]

theorem foldl_addExtension_adj (extensions : List LoadedExtension) (g : DependencyGraph) :
    (extensions.foldl (DependencyGraph.addExtension known) g).adj d =
      g.adj d ++ (extensions.filter fun ext ↦ d ∈ ext.keys ∧ d ∈ known).map (·.name) := by
  induction extensions generalizing g with
  | nil => simp
  | cons ext extensions ih =>
      rw [List.foldl_cons, ih, addExtension_adj, List.append_assoc, List.filter_cons]
      by_cases h : d ∈ ext.keys ∧ d ∈ known
      · simp [h]
      · simp [h]

theorem foldl_addExtension_inDegree_of_notMem {extensions : List LoadedExtension}
    (hname : name ∉ extensions.map (·.name)) (g : DependencyGraph) :
    (extensions.foldl (DependencyGraph.addExtension known) g).inDegree name =
      g.inDegree name := by
  induction extensions generalizing g with
  | nil => rfl
  | cons ext extensions ih =>
      rw [List.map_cons, List.mem_cons, not_or] at hname
      rw [List.foldl_cons, ih hname.2, addExtension_inDegree, Function.update_of_ne hname.1]

theorem foldl_addExtension_inDegree {extensions : List LoadedExtension}
    (hdistinct : (extensions.map (·.name)).Nodup) {ext : LoadedExtension} (hext : ext ∈ extensions)
    (hnone : ∀ ext ∈ extensions, g.inDegree ext.name = none) :
    (extensions.foldl (DependencyGraph.addExtension known) g).inDegree ext.name =
      some (ext.keys.filter (· ∈ known)).length := by
  induction extensions generalizing g with
  | nil => cases hext
  | cons first extensions ih =>
      rw [List.map_cons, List.nodup_cons] at hdistinct
      rw [List.foldl_cons]
      rcases List.mem_cons.mp hext with rfl | hext
      · rw [foldl_addExtension_inDegree_of_notMem hdistinct.1, addExtension_inDegree,
          Function.update_self, hnone _ List.mem_cons_self]
        simp
      · apply ih hdistinct.2 hext
        intro other hother
        have hne : other.name ≠ first.name := by
          intro he
          exact hdistinct.1 (he ▸ List.mem_map_of_mem hother)
        rw [addExtension_inDegree, Function.update_of_ne hne]
        exact hnone other (List.mem_cons_of_mem _ hother)

end Graph

section Release

variable {inDegree : String → Option ℕ} {dependents : List String}

def lowered (inDegree : String → Option ℕ) (dependents : List String) (name : String) : Option ℕ :=
  if name ∈ dependents then (inDegree name).map (· - 1) else inDegree name

theorem foldlM_release (hnodup : dependents.Nodup)
    (hpos : ∀ name ∈ dependents, ∃ deg, inDegree name = some (deg + 1)) (ready : List String) :
    dependents.foldlM release (inDegree, ready) =
      some (lowered inDegree dependents, ready ++ dependents.filter (inDegree · = some 1)) := by
  induction dependents generalizing inDegree ready with
  | nil =>
      have hlowered : lowered inDegree [] = inDegree := by
        funext name
        simp [lowered]
      simp [hlowered]
  | cons first dependents ih =>
      obtain ⟨hfirst, hnodup⟩ := List.nodup_cons.mp hnodup
      obtain ⟨deg, hdeg⟩ := hpos first List.mem_cons_self
      have hother : ∀ name ∈ dependents,
          Function.update inDegree first (some deg) name = inDegree name := by
        intro name hname
        apply Function.update_of_ne
        rintro rfl
        exact hfirst hname
      have hrest : ∀ name ∈ dependents,
          ∃ k, Function.update inDegree first (some deg) name = some (k + 1) := by
        intro name hname
        rw [hother name hname]
        exact hpos name (List.mem_cons_of_mem _ hname)
      have hlowered : lowered (Function.update inDegree first (some deg)) dependents =
          lowered inDegree (first :: dependents) := by
        funext name
        by_cases hname : name = first
        · subst hname
          simp [lowered, hfirst, hdeg]
        · simp [lowered, hname]
      have hready : dependents.filter
          (fun name ↦ Function.update inDegree first (some deg) name = some 1) =
            dependents.filter (inDegree · = some 1) := by
        apply List.filter_congr
        intro name hname
        rw [hother name hname]
      simp only [List.foldlM_cons, release, hdeg, Option.bind_eq_bind, Option.bind_some]
      rw [ih hnodup hrest, hlowered, hready]
      by_cases hzero : deg = 0
      · simp [hzero, hdeg]
      · simp [hzero, hdeg]

end Release

section Emitting

variable {extensions : List LoadedExtension}

/-- The installed dependencies of the extension that have not been emitted. -/
def waiting (extensions : List LoadedExtension) (emitted : List String) (ext : LoadedExtension) :
    List String :=
  ext.keys.filter fun d ↦ d ∈ knownNames extensions ∧ d ∉ emitted

/-- The counters are true, and what has no dependency left is queued or emitted. -/
structure Emitting (extensions : List LoadedExtension) (queue : List String)
    (inDegree : String → Option ℕ) (order : List String) : Prop where
  counted : ∀ ext ∈ extensions, inDegree ext.name = some (waiting extensions order ext).length
  nodup : (order ++ queue).Nodup
  free : ∀ ext ∈ extensions, ext.name ∈ order ++ queue ↔ waiting extensions order ext = []
  known : ∀ name ∈ order ++ queue, name ∈ knownNames extensions
  ordered : ∀ e d, e ∈ order → DependsOn extensions e d → order.idxOf d < order.idxOf e

theorem mem_waiting {emitted : List String} {ext : LoadedExtension} {d : String} :
    d ∈ waiting extensions emitted ext ↔
      d ∈ ext.keys ∧ d ∈ knownNames extensions ∧ d ∉ emitted := by
  simp [waiting]

theorem nodup_waiting (emitted : List String) (ext : LoadedExtension) :
    (waiting extensions emitted ext).Nodup :=
  ext.manifest.nodup_keys.filter _

theorem waiting_snoc (emitted : List String) (ext : LoadedExtension) (node : String) :
    waiting extensions (emitted ++ [node]) ext =
      (waiting extensions emitted ext).erase node := by
  rw [(nodup_waiting emitted ext).erase_eq_filter, waiting, waiting, List.filter_filter]
  apply List.filter_congr
  intro d _
  simp
  grind

theorem mem_dependents {d : String} (hknown : d ∈ knownNames extensions) {name : String} :
    name ∈ (dependencyGraph extensions).adj d ↔ DependsOn extensions name d := by
  rw [dependencyGraph, foldl_addExtension_adj]
  simp only [DependencyGraph.empty, List.nil_append, List.mem_map, List.mem_filter,
    decide_eq_true_eq]
  constructor
  · rintro ⟨ext, ⟨hext, hkey, _⟩, hname⟩
    exact ⟨ext, hext, hname, hkey, hknown⟩
  · rintro ⟨ext, hext, hname, hkey, _⟩
    exact ⟨ext, ⟨hext, hkey, hknown⟩, hname⟩

theorem nodup_dependents (hdistinct : (extensions.map (·.name)).Nodup) (d : String) :
    ((dependencyGraph extensions).adj d).Nodup := by
  rw [dependencyGraph, foldl_addExtension_adj]
  exact hdistinct.sublist (List.filter_sublist.map _)

theorem emitting_start (hdistinct : (extensions.map (·.name)).Nodup) :
    Emitting extensions
      (sorted ((knownNames extensions).filter ((dependencyGraph extensions).inDegree · = some 0)))
      (dependencyGraph extensions).inDegree [] := by
  have hcount : ∀ ext ∈ extensions,
      (dependencyGraph extensions).inDegree ext.name =
        some (waiting extensions [] ext).length := by
    intro ext hext
    have hempty : ∀ ext ∈ extensions, DependencyGraph.empty.inDegree ext.name = none :=
      fun _ _ ↦ rfl
    rw [dependencyGraph, foldl_addExtension_inDegree hdistinct hext hempty]
    simp [waiting]
  refine ⟨hcount, ?_, ?_, ?_, ?_⟩
  · exact (sorted_perm _).nodup_iff.mpr ((nodup_knownNames extensions).filter _)
  · intro ext hext
    have hknown : ext.name ∈ knownNames extensions := mem_knownNames.mpr ⟨ext, hext, rfl⟩
    simp [mem_sorted, hknown, hcount ext hext]
  · intro name hname
    rw [List.nil_append, mem_sorted] at hname
    exact List.mem_of_mem_filter hname
  · intro e d he
    cases he

variable {queue order : List String} {inDegree : String → Option ℕ} {node : String}

theorem Emitting.node_notMem (h : Emitting extensions (node :: queue) inDegree order) :
    node ∉ order ∧ node ∉ queue := by
  have hnodup := List.nodup_append.mp h.nodup
  refine ⟨fun hmem ↦ ?_, (List.nodup_cons.mp hnodup.2.1).1⟩
  exact hnodup.2.2 node hmem node List.mem_cons_self rfl

theorem Emitting.dependent_waits (h : Emitting extensions (node :: queue) inDegree order)
    (hdistinct : (extensions.map (·.name)).Nodup) {ext : LoadedExtension}
    (hext : ext ∈ extensions) :
    ext.name ∈ (dependencyGraph extensions).adj node ↔ node ∈ waiting extensions order ext := by
  have hknown : node ∈ knownNames extensions := h.known node (by simp)
  rw [mem_dependents hknown, dependsOn_iff hdistinct hext, mem_waiting]
  simp [h.node_notMem.1]

theorem Emitting.pos_of_dependent (h : Emitting extensions (node :: queue) inDegree order)
    (hdistinct : (extensions.map (·.name)).Nodup) {name : String}
    (hname : name ∈ (dependencyGraph extensions).adj node) :
    ∃ deg, inDegree name = some (deg + 1) := by
  obtain ⟨ext, hext, rfl, _⟩ := (mem_dependents (h.known node (by simp))).mp hname
  have hwaits := (h.dependent_waits hdistinct hext).mp hname
  have hlength := List.length_pos_of_mem hwaits
  refine ⟨(waiting extensions order ext).length - 1, ?_⟩
  rw [h.counted ext hext, Option.some.injEq]
  omega

theorem Emitting.ready_iff (h : Emitting extensions (node :: queue) inDegree order)
    (hdistinct : (extensions.map (·.name)).Nodup) {ext : LoadedExtension}
    (hext : ext ∈ extensions) :
    ext.name ∈ ((dependencyGraph extensions).adj node).filter (inDegree · = some 1) ↔
      waiting extensions order ext = [node] := by
  rw [List.mem_filter, h.dependent_waits hdistinct hext, decide_eq_true_eq, h.counted ext hext,
    Option.some.injEq, List.length_eq_one_iff]
  constructor
  · rintro ⟨hmem, d, hd⟩
    rw [hd, List.mem_singleton] at hmem
    rw [hd, hmem]
  · intro hone
    exact ⟨hone ▸ List.mem_singleton_self node, node, hone⟩

theorem Emitting.counted_step (h : Emitting extensions (node :: queue) inDegree order)
    (hdistinct : (extensions.map (·.name)).Nodup) {ext : LoadedExtension}
    (hext : ext ∈ extensions) :
    lowered inDegree ((dependencyGraph extensions).adj node) ext.name =
      some (waiting extensions (order ++ [node]) ext).length := by
  have hdependent := h.dependent_waits hdistinct hext
  rw [waiting_snoc, lowered, h.counted ext hext]
  by_cases hwaits : node ∈ waiting extensions order ext
  · rw [if_pos (hdependent.mpr hwaits), List.length_erase_of_mem hwaits, Option.map_some]
  · rw [if_neg (fun hmem ↦ hwaits (hdependent.mp hmem)), List.erase_of_not_mem hwaits]

theorem Emitting.step (h : Emitting extensions (node :: queue) inDegree order)
    (hdistinct : (extensions.map (·.name)).Nodup) {ready : List String}
    (hready : ready = ((dependencyGraph extensions).adj node).filter (inDegree · = some 1)) :
    Emitting extensions (queue ++ sorted ready)
      (lowered inDegree ((dependencyGraph extensions).adj node)) (order ++ [node]) := by
  have hmem : ∀ name, name ∈ order ++ [node] ++ (queue ++ sorted ready) ↔
      name ∈ order ++ node :: queue ∨ name ∈ ready := by
    intro name
    simp [mem_sorted, or_assoc]
  have hextension : ∀ name ∈ ready, ∃ ext ∈ extensions, ext.name = name := by
    intro name hname
    rw [hready] at hname
    obtain ⟨ext, hext, hname, _⟩ :=
      (mem_dependents (h.known node (by simp))).mp (List.mem_of_mem_filter hname)
    exact ⟨ext, hext, hname⟩
  have hfresh : ∀ name ∈ ready, name ∉ order ++ node :: queue := by
    intro name hname hold
    obtain ⟨ext, hext, rfl⟩ := hextension name hname
    have hone := (h.ready_iff hdistinct hext).mp (hready ▸ hname)
    rw [(h.free ext hext).mp hold] at hone
    cases hone
  refine ⟨fun ext hext ↦ h.counted_step hdistinct hext, ?_, ?_, ?_, ?_⟩
  · have hnodup : (sorted ready).Nodup := by
      rw [(sorted_perm ready).nodup_iff, hready]
      exact (nodup_dependents hdistinct node).filter _
    have hsplit : order ++ [node] ++ (queue ++ sorted ready) =
        order ++ node :: queue ++ sorted ready := by simp
    rw [hsplit, List.nodup_append]
    refine ⟨h.nodup, hnodup, ?_⟩
    rintro a ha b hb rfl
    exact hfresh a (mem_sorted.mp hb) ha
  · intro ext hext
    rw [hmem, h.free ext hext, waiting_snoc, hready, h.ready_iff hdistinct hext]
    constructor
    · rintro (hnil | hone)
      · rw [hnil, List.erase_nil]
      · rw [hone, List.erase_cons_head]
    · intro herase
      by_cases hwaits : node ∈ waiting extensions order ext
      · have hlength := List.length_erase_of_mem hwaits
        rw [herase, List.length_nil] at hlength
        have hpos := List.length_pos_of_mem hwaits
        obtain ⟨d, hd⟩ := List.length_eq_one_iff.mp
          (show (waiting extensions order ext).length = 1 by omega)
        rw [hd, List.mem_singleton] at hwaits
        exact .inr (hwaits ▸ hd)
      · rw [List.erase_of_not_mem hwaits] at herase
        exact .inl herase
  · intro name hname
    rcases (hmem name).mp hname with hold | hnew
    · exact h.known name hold
    · exact mem_knownNames.mpr (hextension name hnew)
  · intro e d he hdep
    rcases List.mem_append.mp he with he | he
    · have hlt := h.ordered e d he hdep
      have hd : d ∈ order := List.idxOf_lt_length_iff.mp (by
        have := List.idxOf_lt_length_of_mem he
        omega)
      rwa [List.idxOf_append_of_mem hd, List.idxOf_append_of_mem he]
    · rw [List.mem_singleton] at he
      subst he
      obtain ⟨ext, hext, rfl, hkey, hknown⟩ := hdep
      have hnil := (h.free ext hext).mp (by simp)
      have hd : d ∈ order := by
        by_contra hd
        have hwaits := mem_waiting.mpr ⟨hkey, hknown, hd⟩
        rw [hnil] at hwaits
        cases hwaits
      rw [List.idxOf_append_of_mem hd, List.idxOf_append_of_notMem h.node_notMem.1]
      have := List.idxOf_lt_length_of_mem hd
      omega

theorem Emitting.emit (h : Emitting extensions queue inDegree order)
    (hdistinct : (extensions.map (·.name)).Nodup) {rounds : ℕ}
    (hrounds : (knownNames extensions).length ≤ order.length + rounds) :
    ∃ last counts, emit (dependencyGraph extensions).adj rounds ⟨queue, inDegree, order⟩ =
      some last ∧ Emitting extensions [] counts last := by
  induction rounds generalizing queue inDegree order with
  | zero =>
      cases queue with
      | nil => exact ⟨order, inDegree, rfl, h⟩
      | cons node queue =>
          have hle := (List.subperm_of_subset h.nodup h.known).length_le
          simp only [List.length_append, List.length_cons] at hle
          omega
  | succ rounds ih =>
      cases queue with
      | nil => exact ⟨order, inDegree, rfl, h⟩
      | cons node queue =>
          have hpos : ∀ name ∈ (dependencyGraph extensions).adj node,
              ∃ deg, inDegree name = some (deg + 1) :=
            fun _ hname ↦ h.pos_of_dependent hdistinct hname
          rw [Extension.emit, foldlM_release (nodup_dependents hdistinct node) hpos []]
          have hlength : (knownNames extensions).length ≤ (order ++ [node]).length + rounds := by
            rw [List.length_append, List.length_singleton]
            omega
          exact ih (h.step hdistinct rfl) hlength

/-- What is left over waits for something left over. -/
theorem Emitting.leadsToCycle (h : Emitting extensions [] inDegree order) {name : String}
    (hname : name ∈ knownNames extensions) :
    name ∉ order ↔ LeadsToCycle (DependsOn extensions) name := by
  constructor
  · intro hleft
    apply leadsToCycle_of_steps (s := {n | n ∈ knownNames extensions ∧ n ∉ order}) ?_ ?_
      ⟨hname, hleft⟩
    · exact (List.finite_toSet (knownNames extensions)).subset fun n hn ↦ hn.1
    · rintro n ⟨hn, hleft⟩
      obtain ⟨ext, hext, rfl⟩ := mem_knownNames.mp hn
      have hne : waiting extensions order ext ≠ [] := by
        rw [Ne, ← h.free ext hext]
        simpa using hleft
      obtain ⟨d, hd⟩ := List.exists_mem_of_ne_nil _ hne
      obtain ⟨hkey, hknown, hd⟩ := mem_waiting.mp hd
      exact ⟨d, ⟨hknown, hd⟩, ext, hext, rfl, hkey, hknown⟩
  · intro hcycle hmem
    have hacc : ∀ n (e : String), e ∈ order → order.idxOf e < n →
        Acc (fun d e ↦ DependsOn extensions e d) e := by
      intro n
      induction n with
      | zero =>
          intro e _ hlt
          omega
      | succ n ih =>
          intro e he hlt
          refine ⟨e, fun d hdep ↦ ?_⟩
          have hbefore := h.ordered e d he hdep
          have hd : d ∈ order := List.idxOf_lt_length_iff.mp (by
            have := List.idxOf_lt_length_of_mem he
            omega)
          exact ih d hd (by omega)
    exact not_leadsToCycle_of_acc (hacc _ name hmem (Nat.lt_succ_self _)) hcycle

end Emitting

theorem emittedOrder_spec {extensions : List LoadedExtension}
    (hdistinct : (extensions.map (·.name)).Nodup) :
    ∃ order counts, emittedOrder extensions = some order ∧
      Emitting extensions [] counts order :=
  (emitting_start hdistinct).emit hdistinct (by simp)

end Zaowutai.Extension
