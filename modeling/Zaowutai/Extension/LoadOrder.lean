import Zaowutai.Extension.CycleSearch

/-!
# The load order

What is left over by the sort follows the emitted names alphabetically, whether
it lies on a cycle or only depends on one.  So a dependency comes first unless it
leads to a cycle, shares none with its dependent and has the greater name.
-/

namespace Zaowutai.Extension

open Relation
open Zaowutai.Lib

variable {extensions : List LoadedExtension} {involved : List String} {e d name : String}

structure Correct (extensions : List LoadedExtension) (result : DependencyValidationResult) :
    Prop where
  perm : result.loadOrder.Perm (extensions.map (·.name))
  precedes : ∀ e d, DependsOn extensions e d → ¬CommonCycle (DependsOn extensions) e d →
    result.loadOrder.idxOf d < result.loadOrder.idxOf e
  reported : (∃ cycle, .circular cycle ∈ result.issues) ↔
    ∃ name, OnCycle (DependsOn extensions) name
  closed : ∀ cycle, .circular cycle ∈ result.issues → ClosedWalk (DependsOn extensions) cycle
  complete : ∀ name, OnCycle (DependsOn extensions) name →
    ∃ cycle, .circular cycle ∈ result.issues ∧
      ∃ n ∈ cycle, ReflTransGen (DependsOn extensions) n name

/-- The validation answers, which it does not when a counter underflows, and the answer is
correct. -/
def ValidatesCorrectly {Version VersionReq : Type*} (semver : Semver Version VersionReq)
    (extensions : List LoadedExtension) : Prop :=
  ∃ result, validateDependencies semver extensions = some result ∧ Correct extensions result

/-- A dependency that leads to a cycle and shares none with its dependent has the lesser name. -/
def AlphabeticalAtCycles (extensions : List LoadedExtension) : Prop :=
  ∀ e d, DependsOn extensions e d → LeadsToCycle (DependsOn extensions) d →
    ¬CommonCycle (DependsOn extensions) e d → d < e

theorem edge_involvedDeps (hdistinct : (extensions.map (·.name)).Nodup)
    (hknown : involved ⊆ knownNames extensions) :
    CycleSearch.Edge (involvedDeps extensions involved) e d ↔
      e ∈ involved ∧ d ∈ involved ∧ DependsOn extensions e d := by
  rw [CycleSearch.Edge, involvedDeps]
  by_cases he : e ∈ involved
  · obtain ⟨ext, hext, rfl⟩ := mem_knownNames.mp (hknown he)
    have hfind : extensions.reverse.find? (·.name = ext.name) = some ext := by
      have hsome : (extensions.reverse.find? (·.name = ext.name)).isSome := by
        rw [List.find?_isSome]
        exact ⟨ext, List.mem_reverse.mpr hext, by simp⟩
      obtain ⟨found, hfound⟩ := Option.isSome_iff_exists.mp hsome
      have hname : found.name = ext.name := by simpa using List.find?_some hfound
      have hmem := List.mem_reverse.mp (List.mem_of_find?_eq_some hfound)
      rw [hfound, eq_of_name_eq hdistinct hmem hext hname]
    rw [if_pos he, hfind, Option.map_some, Option.getD_some, mem_sorted, List.mem_filter,
      decide_eq_true_eq, dependsOn_iff hdistinct hext]
    constructor
    · rintro ⟨hkey, hd⟩
      exact ⟨he, hd, hkey, hknown hd⟩
    · rintro ⟨-, hd, hkey, -⟩
      exact ⟨hkey, hd⟩
  · rw [if_neg he]
    simp [he]

theorem closedWalk_mono {r r' : String → String → Prop} {walk : List String}
    (h : ClosedWalk r walk) (hsub : ∀ a b, r a b → r' a b) : ClosedWalk r' walk :=
  ⟨h.chain.imp hsub, h.step, h.closed⟩

theorem idxOf_lt_iff {names : List String} (hsorted : names.Pairwise (· < ·)) (he : e ∈ names)
    (hd : d ∈ names) : names.idxOf d < names.idxOf e ↔ d < e := by
  have hlt : ∀ a b, a ∈ names → b ∈ names → names.idxOf a < names.idxOf b → a < b := by
    intro a b ha hb hidx
    have hbefore := List.pairwise_iff_getElem.mp hsorted (names.idxOf a) (names.idxOf b)
      (List.idxOf_lt_length_of_mem ha) (List.idxOf_lt_length_of_mem hb) hidx
    rwa [List.getElem_idxOf, List.getElem_idxOf] at hbefore
  refine ⟨hlt d e hd he, fun hde ↦ ?_⟩
  by_contra hnot
  rcases Nat.lt_or_eq_of_le (Nat.le_of_not_lt hnot) with hidx | hidx
  · exact absurd (hlt e d he hd hidx) (lt_asymm hde)
  · have heq : e = d := (List.idxOf_inj he).mp hidx
    exact absurd hde (heq ▸ lt_irrefl d)

theorem pairwise_sorted {names : List String} (hnodup : names.Nodup) :
    (sorted names).Pairwise (· < ·) := by
  have hle := List.pairwise_insertionSort (· ≤ ·) names
  have hne := (sorted_perm names).nodup_iff.mpr hnodup
  exact hle.imp₂ (fun _ _ hle hne ↦ lt_of_le_of_ne hle hne) hne

section Answer

variable {order : List String} {counts : String → Option ℕ}

def leftover (extensions : List LoadedExtension) (order : List String) : List String :=
  (knownNames extensions).filter (· ∉ order)

theorem Emitting.mem_leftover (h : Emitting extensions [] counts order) :
    name ∈ leftover extensions order ↔
      name ∈ knownNames extensions ∧ LeadsToCycle (DependsOn extensions) name := by
  rw [leftover, List.mem_filter, decide_eq_true_eq]
  exact and_congr_right fun hname ↦ h.leadsToCycle hname

theorem Emitting.perm (h : Emitting extensions [] counts order)
    (hdistinct : (extensions.map (·.name)).Nodup) :
    (order ++ sorted (leftover extensions order)).Perm (extensions.map (·.name)) := by
  have horder : order.Nodup := by simpa using h.nodup
  have hknown : knownNames extensions = extensions.map (·.name) := hdistinct.dedup
  apply (List.perm_ext_iff_of_nodup ?_ hdistinct).mpr
  · intro name
    rw [List.mem_append, mem_sorted, leftover, List.mem_filter, decide_eq_true_eq, ← hknown]
    constructor
    · rintro (hname | hname)
      · exact h.known name (by simpa using hname)
      · exact hname.1
    · intro hname
      exact (em (name ∈ order)).imp_right fun hout ↦ ⟨hname, hout⟩
  · rw [List.nodup_append]
    refine ⟨horder, ?_, ?_⟩
    · rw [(sorted_perm _).nodup_iff]
      exact (nodup_knownNames extensions).filter _
    · rintro a ha b hb rfl
      rw [mem_sorted, leftover, List.mem_filter, decide_eq_true_eq] at hb
      exact hb.2 ha

/-- A dependency comes first, unless both names are left over and it has the greater one. -/
theorem Emitting.precedes_iff (h : Emitting extensions [] counts order)
    (hdep : DependsOn extensions e d) :
    (order ++ sorted (leftover extensions order)).idxOf d <
        (order ++ sorted (leftover extensions order)).idxOf e ↔
      (LeadsToCycle (DependsOn extensions) d → d < e) := by
  have hleft := h.leadsToCycle hdep.known
  by_cases hd : d ∈ order
  · have hnot : ¬LeadsToCycle (DependsOn extensions) d := fun hcycle ↦ hleft.mpr hcycle hd
    have hlt := List.idxOf_lt_length_of_mem hd
    refine iff_of_true ?_ fun hcycle ↦ absurd hcycle hnot
    by_cases he : e ∈ order
    · rw [List.idxOf_append_of_mem hd, List.idxOf_append_of_mem he]
      exact h.ordered e d he hdep
    · rw [List.idxOf_append_of_mem hd, List.idxOf_append_of_notMem he]
      omega
  · have hcycle := hleft.mp hd
    have he : e ∉ order := (h.leadsToCycle hdep.installed).mpr (hcycle.head hdep)
    have hmem : ∀ n, n ∈ knownNames extensions → n ∉ order →
        n ∈ sorted (leftover extensions order) := by
      intro n hn hout
      rw [mem_sorted, leftover, List.mem_filter, decide_eq_true_eq]
      exact ⟨hn, hout⟩
    have hascending : (sorted (leftover extensions order)).Pairwise (· < ·) :=
      pairwise_sorted ((nodup_knownNames extensions).filter _)
    rw [List.idxOf_append_of_notMem hd, List.idxOf_append_of_notMem he, Nat.add_lt_add_iff_left,
      idxOf_lt_iff hascending (hmem e hdep.installed he) (hmem d hdep.known hd)]
    exact ⟨fun hlt _ ↦ hlt, fun hlt ↦ hlt hcycle⟩

theorem Emitting.cycles (h : Emitting extensions [] counts order)
    (hdistinct : (extensions.map (·.name)).Nodup) :
    ∃ cycles, (if leftover extensions order = [] then some []
        else findCycles extensions (leftover extensions order)) = some cycles ∧
      (∀ cycle ∈ cycles, ClosedWalk (DependsOn extensions) cycle) ∧
      ∀ name, OnCycle (DependsOn extensions) name →
        ∃ cycle ∈ cycles, ∃ n ∈ cycle, ReflTransGen (DependsOn extensions) n name := by
  have hcyclic : ∀ name, LeadsToCycle (DependsOn extensions) name →
      name ∈ leftover extensions order := by
    intro name hcycle
    obtain ⟨_, hdep, _⟩ := hcycle.exists_step
    exact h.mem_leftover.mpr ⟨hdep.installed, hcycle⟩
  by_cases hempty : leftover extensions order = []
  · refine ⟨[], if_pos hempty, by simp, fun name hname ↦ ?_⟩
    have hmem := hcyclic name hname.leadsToCycle
    rw [hempty] at hmem
    cases hmem
  · have hknown : leftover extensions order ⊆ knownNames extensions :=
      fun _ hname ↦ List.mem_of_mem_filter hname
    have hedge := fun e d ↦ edge_involvedDeps (e := e) (d := d) hdistinct hknown
    obtain ⟨cycles, hrun, hclosed, hacc⟩ :=
      findCycles_spec fun e d hd ↦ ((hedge e d).mp hd).2.1
    refine ⟨cycles, by rw [if_neg hempty, hrun], ?_, ?_⟩
    · intro cycle hcycle
      exact closedWalk_mono (hclosed cycle hcycle) fun e d hstep ↦ ((hedge e d).mp hstep).2.2
    · intro name hname
      have hunmarked : ∀ y, LeadsToCycle (DependsOn extensions) y →
          Acc (fun v u ↦ DependsOn extensions u v ∧ LeadsToCycle (DependsOn extensions) v ∧
            v ∉ {n | ∃ cycle ∈ cycles, n ∈ cycle}) y := by
        intro y hy
        apply Subrelation.accessible _ (hacc y (hcyclic y hy))
        rintro v u ⟨hdep, hv, hout⟩
        exact ⟨(hedge u v).mpr ⟨hcyclic u (hv.head hdep), hcyclic v hv, hdep⟩, hout⟩
      obtain ⟨n, ⟨cycle, hcycle, hn⟩, hreach⟩ := exists_marked_of_acc _ hunmarked hname
      exact ⟨cycle, hcycle, n, hn, hreach⟩

end Answer

theorem circular_mem_issues {Version VersionReq : Type*} {semver : Semver Version VersionReq}
    {cycles : List (List String)} {cycle : List String} :
    .circular cycle ∈ (extensions.flatMap fun ext ↦
        ext.manifest.dependencies.flatMap (checkDependency semver extensions ext)) ++
      cycles.map .circular ↔ cycle ∈ cycles := by
  have hcheck : ∀ ext dep, .circular cycle ∉ checkDependency semver extensions ext dep := by
    intro ext dep
    rw [checkDependency]
    split
    · simp
    · split
      · simp
      · simp
  simp [hcheck]

theorem validateDependencies_spec {Version VersionReq : Type*}
    (semver : Semver Version VersionReq) (hdistinct : (extensions.map (·.name)).Nodup) :
    ∃ order counts result, Emitting extensions [] counts order ∧
      validateDependencies semver extensions = some result ∧
      result.loadOrder = order ++ sorted (leftover extensions order) ∧
      (∀ cycle, .circular cycle ∈ result.issues → ClosedWalk (DependsOn extensions) cycle) ∧
      ∀ name, OnCycle (DependsOn extensions) name →
        ∃ cycle, .circular cycle ∈ result.issues ∧
          ∃ n ∈ cycle, ReflTransGen (DependsOn extensions) n name := by
  obtain ⟨order, counts, hemitted, h⟩ := emittedOrder_spec hdistinct
  obtain ⟨cycles, hcycles, hclosed, hcomplete⟩ := h.cycles hdistinct
  rw [leftover] at hcycles
  have hsort : computeTopologicalOrder extensions =
      some (order ++ sorted (leftover extensions order), cycles) := by
    rw [computeTopologicalOrder, hemitted, Option.bind_some]
    simp only [hcycles, Option.map_some, leftover]
  rw [validateDependencies, hsort, Option.map_some]
  refine ⟨order, counts, _, h, rfl, rfl, fun cycle hcycle ↦ ?_, fun name hname ↦ ?_⟩
  · exact hclosed cycle (circular_mem_issues.mp hcycle)
  · obtain ⟨cycle, hcycle, hreach⟩ := hcomplete name hname
    exact ⟨cycle, circular_mem_issues.mpr hcycle, hreach⟩

/-- The answer is correct exactly when the names of the dependencies at cycles allow it. -/
theorem validatesCorrectly_iff {Version VersionReq : Type*} (semver : Semver Version VersionReq)
    (extensions : List LoadedExtension) (hdistinct : (extensions.map (·.name)).Nodup) :
    ValidatesCorrectly semver extensions ↔ AlphabeticalAtCycles extensions := by
  obtain ⟨order, counts, result, h, hresult, horder, hclosed, hcomplete⟩ :=
    validateDependencies_spec semver hdistinct
  constructor
  · rintro ⟨result', hresult', hcorrect⟩ e d hdep hcycle hcommon
    obtain rfl : result = result' := Option.some.inj (hresult.symm.trans hresult')
    have hlt := hcorrect.precedes e d hdep hcommon
    rw [horder] at hlt
    exact (h.precedes_iff hdep).mp hlt hcycle
  · intro hnames
    refine ⟨result, hresult, ?_, ?_, ?_, hclosed, hcomplete⟩
    · rw [horder]
      exact h.perm hdistinct
    · intro e d hdep hcommon
      rw [horder]
      exact (h.precedes_iff hdep).mpr fun hcycle ↦ hnames e d hdep hcycle hcommon
    · constructor
      · rintro ⟨cycle, hcycle⟩
        obtain ⟨name, -, hname⟩ := (hclosed cycle hcycle).exists_onCycle
        exact ⟨name, hname⟩
      · rintro ⟨name, hname⟩
        obtain ⟨cycle, hcycle, -⟩ := hcomplete name hname
        exact ⟨cycle, hcycle⟩

section Misordered

/-- `a` depends on `b`, which is on a cycle with `c`. -/
def aboveCycle : List LoadedExtension :=
  [⟨⟨"a", "1.0.0", [("b", "1.0.0")], by decide⟩⟩, ⟨⟨"b", "1.0.0", [("c", "1.0.0")], by decide⟩⟩,
    ⟨⟨"c", "1.0.0", [("b", "1.0.0")], by decide⟩⟩]

def exactSemver : Semver String String where
  parseVersion := some
  parseReq := some
  matches_ req version := req = "=" ++ version

theorem loadOrder_aboveCycle :
    (validateDependencies exactSemver aboveCycle).map (·.loadOrder) = some ["a", "b", "c"] := by
  decide

theorem not_commonCycle_aboveCycle : ¬CommonCycle (DependsOn aboveCycle) "a" "b" := by
  have hstays : ∀ e d, DependsOn aboveCycle e d → e ≠ "a" → d ≠ "a" := by
    rintro e d ⟨ext, hext, rfl, hkey, -⟩ _ rfl
    revert ext
    decide
  have hreach : ∀ name, TransGen (DependsOn aboveCycle) "b" name → name ≠ "a" := by
    intro name hname
    induction hname with
    | single hdep => exact hstays _ _ hdep (by decide)
    | tail _ hdep ih => exact hstays _ _ hdep ih
  exact fun hcommon ↦ hreach "a" hcommon.2 rfl

theorem not_validatesCorrectly :
    ¬∀ extensions : List LoadedExtension, (extensions.map (·.name)).Nodup →
      ValidatesCorrectly exactSemver extensions := by
  intro hall
  obtain ⟨result, hresult, hcorrect⟩ := hall aboveCycle (by decide)
  have horder := loadOrder_aboveCycle
  rw [hresult, Option.map_some, Option.some.injEq] at horder
  have hdep : DependsOn aboveCycle "a" "b" :=
    ⟨⟨⟨"a", "1.0.0", [("b", "1.0.0")], by decide⟩⟩, by simp [aboveCycle], rfl, by decide, by decide⟩
  have hlt := hcorrect.precedes "a" "b" hdep not_commonCycle_aboveCycle
  rw [horder] at hlt
  exact absurd hlt (by decide)

theorem validatesCorrectly_aboveCycle :
    (aboveCycle.map (·.name)).Nodup ∧
      (ValidatesCorrectly exactSemver aboveCycle ↔ AlphabeticalAtCycles aboveCycle) :=
  ⟨by decide, validatesCorrectly_iff exactSemver aboveCycle (by decide)⟩

end Misordered

end Zaowutai.Extension
