import Zaowutai.Lib.Run
import Zaowutai.Team.TaskBoard

/-!
# Dependencies of the task board

The two ends of a dependency agree: a task lists another one as its blocker
exactly as long as the other one lists it as blocked and is not completed.  The
calls that keep the two ends in agreement are `Sound`; any other call breaks it.
-/

namespace Zaowutai.Team

open Zaowutai.Lib

inductive TaskCall
  | createTask (taskId subject : String) (description owner : Option String)
      (blockedBy : List String)
  | updateTask (taskId : String) (update : TaskUpdate)

structure TaskHistory where
  rows : TaskRows
  declared : Table String (List String)

namespace TaskHistory

def initial : TaskHistory := ⟨∅, ∅⟩

def declare (h : TaskHistory) (taskId : String) (blockedBy : Option (List String)) :
    Table String (List String) :=
  blockedBy.elim h.declared (h.declared.insert taskId)

def step (h : TaskHistory) : TaskCall → TaskHistory
  | .createTask taskId subject description owner blockedBy =>
      match TaskBoard.createTask h.rows taskId subject description owner blockedBy with
      | (rows, .ok _) => ⟨rows, h.declare taskId (some blockedBy)⟩
      | (rows, .error _) => ⟨rows, h.declared⟩
  | .updateTask taskId update =>
      match TaskBoard.updateTask h.rows taskId update with
      | (rows, .ok _) => ⟨rows, h.declare taskId update.blockedBy⟩
      | (rows, .error _) => ⟨rows, h.declared⟩

end TaskHistory

/-- Task `u` lists `t` in its `blockedBy`. -/
def ListsBlocker (rows : TaskRows) (u t : String) : Prop :=
  ∃ row, rows.lookup u = some row ∧ t ∈ row.blockedBy

/-- Task `t` lists `u` in its `blocks` and is not completed. -/
def HoldsBack (rows : TaskRows) (t u : String) : Prop :=
  ∃ row, rows.lookup t = some row ∧ u ∈ row.blocks ∧ row.status ≠ .completed

structure DependenciesAgree (h : TaskHistory) : Prop where
  twoSided : ∀ u t, ListsBlocker h.rows u t ↔ HoldsBack h.rows t u
  unblocked : ∀ u row deps, h.rows.lookup u = some row → h.declared.lookup u = some deps →
    (∀ t ∈ deps, ∃ dep, h.rows.lookup t = some dep ∧ dep.status = .completed) →
      row.blockedBy = []

def TaskCall.Sound (h : TaskHistory) : TaskCall → Prop
  | createTask taskId _ _ _ blockedBy =>
      h.rows.lookup taskId = none → (∀ dep ∈ blockedBy, (h.rows.lookup dep).isSome) →
        ∀ dep ∈ blockedBy, ∀ row, h.rows.lookup dep = some row → row.status ≠ .completed
  | updateTask taskId update => ∀ row, h.rows.lookup taskId = some row →
      (∀ blockedBy, update.blockedBy = some blockedBy → ∀ t, t ∈ blockedBy ↔ t ∈ row.blockedBy) ∧
      (row.status = .completed → ∀ status, update.status = some status → status ≠ .completed →
        row.blocks = [])

structure BoardInvariant (h : TaskHistory) : Prop where
  dependents : ∀ t row, h.rows.lookup t = some row → ∀ u ∈ row.blocks,
    u ≠ t ∧ (h.rows.lookup u).isSome
  declared : ∀ u row, h.rows.lookup u = some row → ∃ deps, h.declared.lookup u = some deps ∧
    ∀ t ∈ row.blockedBy, t ∈ deps

section Steps

variable {h : TaskHistory}

theorem unblocked_of_twoSided (hinv : BoardInvariant h)
    (htwo : ∀ u t, ListsBlocker h.rows u t ↔ HoldsBack h.rows t u) : DependenciesAgree h where
  twoSided := htwo
  unblocked := by
    intro u row deps hrow hdeps hdone
    refine List.eq_nil_iff_forall_not_mem.mpr fun t ht ↦ ?_
    obtain ⟨dep, hdep, _, hopen⟩ := (htwo u t).mp ⟨row, hrow, ht⟩
    obtain ⟨deps', hdeps', hlisted⟩ := hinv.declared u row hrow
    obtain rfl : deps' = deps := Option.some.inj (hdeps'.symm.trans hdeps)
    obtain ⟨dep', hdep', hcompleted⟩ := hdone t (hlisted t ht)
    obtain rfl : dep = dep' := Option.some.inj (hdep.symm.trans hdep')
    exact hopen hcompleted

variable {rows rows' : TaskRows} {taskId u t : String}

section Created

variable {row : TeamTaskRow}

def Created (rows rows' : TaskRows) (taskId : String) (row : TeamTaskRow) : Prop :=
  ∀ other, rows'.lookup other = if other = taskId then some row else
    (rows.lookup other).map fun r ↦ if other ∈ row.blockedBy then r.addBlocked taskId else r

theorem lists_created (hlookup : Created rows rows' taskId row) :
    ListsBlocker rows' u t ↔ if u = taskId then t ∈ row.blockedBy else ListsBlocker rows u t := by
  unfold ListsBlocker
  rw [hlookup]
  split
  · simp
  · simp only [Option.map_eq_some_iff]
    constructor
    · rintro ⟨_, ⟨r, hr, rfl⟩, ht⟩
      exact ⟨r, hr, by split at ht <;> simpa using ht⟩
    · rintro ⟨r, hr, ht⟩
      exact ⟨_, ⟨r, hr, rfl⟩, by split <;> simpa using ht⟩

theorem holds_created (hlookup : Created rows rows' taskId row) (hblocks : row.blocks = []) :
    HoldsBack rows' t u ↔ t ≠ taskId ∧ ∃ r, rows.lookup t = some r ∧ r.status ≠ .completed ∧
      (u ∈ r.blocks ∨ t ∈ row.blockedBy ∧ u = taskId) := by
  unfold HoldsBack
  rw [hlookup]
  split
  · next heq => simp [heq, hblocks]
  · next hne =>
      simp only [Option.map_eq_some_iff]
      constructor
      · rintro ⟨_, ⟨r, hr, rfl⟩, hu, hopen⟩
        refine ⟨hne, r, hr, ?_, ?_⟩
        · split at hopen <;> simpa using hopen
        · split at hu
          · next hmem => exact (mem_addBlocked.mp hu).imp_right fun heq ↦ ⟨hmem, heq⟩
          · exact Or.inl hu
      · rintro ⟨_, r, hr, hopen, hu⟩
        refine ⟨_, ⟨r, hr, rfl⟩, ?_, by split <;> simpa using hopen⟩
        split
        · exact mem_addBlocked.mpr (hu.imp_right And.right)
        · next hmem => exact hu.resolve_right fun h ↦ hmem h.1

theorem twoSided_created (hinv : BoardInvariant h)
    (htwo : ∀ u t, ListsBlocker h.rows u t ↔ HoldsBack h.rows t u)
    (hnew : h.rows.lookup taskId = none) (hdeps : ∀ dep ∈ row.blockedBy, (h.rows.lookup dep).isSome)
    (hblocks : row.blocks = []) (hlookup : Created h.rows rows' taskId row) :
    (∀ u t, ListsBlocker rows' u t ↔ HoldsBack rows' t u) ↔
      ∀ dep ∈ row.blockedBy, ∀ r, h.rows.lookup dep = some r → r.status ≠ .completed := by
  simp only [lists_created hlookup, holds_created hlookup hblocks]
  have hself : taskId ∉ row.blockedBy := by
    intro hmem
    have hsome := hdeps taskId hmem
    rw [hnew] at hsome
    cases hsome
  have hunlisted : ∀ t r, h.rows.lookup t = some r → taskId ∉ r.blocks := by
    intro t r hr hmem
    have hsome := (hinv.dependents t r hr taskId hmem).2
    rw [hnew] at hsome
    cases hsome
  constructor
  · intro htwo' dep hdep r hr
    have hlists := htwo' taskId dep
    rw [if_pos rfl] at hlists
    obtain ⟨_, r', hr', hopen, _⟩ := hlists.mp hdep
    obtain rfl : r = r' := Option.some.inj (hr.symm.trans hr')
    exact hopen
  · intro hopen u t
    by_cases hu : u = taskId
    · subst hu
      rw [if_pos rfl]
      constructor
      · intro ht
        obtain ⟨r, hr⟩ := Option.isSome_iff_exists.mp (hdeps t ht)
        exact ⟨fun heq ↦ hself (heq ▸ ht), r, hr, hopen t ht r hr, Or.inr ⟨ht, rfl⟩⟩
      · rintro ⟨_, r, hr, _, hmem | ⟨ht, _⟩⟩
        · exact absurd hmem (hunlisted t r hr)
        · exact ht
    · rw [if_neg hu, htwo u t]
      constructor
      · rintro ⟨r, hr, hmem, hopen'⟩
        refine ⟨fun heq ↦ ?_, r, hr, hopen', Or.inl hmem⟩
        rw [heq, hnew] at hr
        cases hr
      · rintro ⟨_, r, hr, hopen', hmem | ⟨_, heq⟩⟩
        · exact ⟨r, hr, hmem, hopen'⟩
        · exact absurd heq hu

end Created

section Updated

variable {row : TeamTaskRow} {update : TaskUpdate}

def Updated (rows rows' : TaskRows) (taskId : String) (row : TeamTaskRow) (update : TaskUpdate) :
    Prop :=
  ∀ other, rows'.lookup other =
    (if other = taskId then some (row.apply update) else rows.lookup other).map fun r ↦
      if update.status = some .completed ∧ other ∈ row.blocks then r.unblock taskId else r

theorem lists_updated (hlookup : Updated rows rows' taskId row update)
    (hself : taskId ∉ row.blocks) : ListsBlocker rows' u t ↔
      if u = taskId then t ∈ update.blockedBy.getD row.blockedBy else
        ListsBlocker rows u t ∧ ¬ (update.status = some .completed ∧ u ∈ row.blocks ∧ t = taskId) := by
  unfold ListsBlocker
  rw [hlookup]
  by_cases hu : u = taskId
  · subst hu
    simp [hself]
  · simp only [if_neg hu, Option.map_eq_some_iff]
    constructor
    · rintro ⟨_, ⟨r, hr, rfl⟩, ht⟩
      split at ht
      · exact ⟨⟨r, hr, (mem_unblock.mp ht).1⟩, fun h ↦ (mem_unblock.mp ht).2 h.2.2⟩
      · next hnot => exact ⟨⟨r, hr, ht⟩, fun h ↦ hnot ⟨h.1, h.2.1⟩⟩
    · rintro ⟨⟨r, hr, ht⟩, hnot⟩
      refine ⟨_, ⟨r, hr, rfl⟩, ?_⟩
      split
      · next hdone => exact mem_unblock.mpr ⟨ht, fun heq ↦ hnot ⟨hdone.1, hdone.2, heq⟩⟩
      · exact ht

theorem holds_updated (hlookup : Updated rows rows' taskId row update) :
    HoldsBack rows' t u ↔ if t = taskId then
      u ∈ row.blocks ∧ update.status.getD row.status ≠ .completed else HoldsBack rows t u := by
  unfold HoldsBack
  rw [hlookup]
  by_cases ht : t = taskId
  · simp only [if_pos ht, Option.map_some, Option.some.injEq, exists_eq_left']
    split <;> rfl
  · simp only [if_neg ht, Option.map_eq_some_iff]
    constructor
    · rintro ⟨_, ⟨r, hr, rfl⟩, hu, hopen⟩
      refine ⟨r, hr, ?_, ?_⟩
      · split at hu <;> exact hu
      · split at hopen <;> exact hopen
    · rintro ⟨r, hr, hu, hopen⟩
      exact ⟨_, ⟨r, hr, rfl⟩, by split <;> exact hu, by split <;> exact hopen⟩

theorem twoSided_updated (hinv : BoardInvariant h)
    (htwo : ∀ u t, ListsBlocker h.rows u t ↔ HoldsBack h.rows t u)
    (hrow : h.rows.lookup taskId = some row) (hlookup : Updated h.rows rows' taskId row update) :
    (∀ u t, ListsBlocker rows' u t ↔ HoldsBack rows' t u) ↔
      (∀ blockedBy, update.blockedBy = some blockedBy → ∀ t, t ∈ blockedBy ↔ t ∈ row.blockedBy) ∧
      (row.status = .completed → ∀ status, update.status = some status → status ≠ .completed →
        row.blocks = []) := by
  have hself : taskId ∉ row.blocks := fun hmem ↦ (hinv.dependents taskId row hrow _ hmem).1 rfl
  have hlists : ∀ t, ListsBlocker h.rows taskId t ↔ t ∈ row.blockedBy := by
    simp [ListsBlocker, hrow]
  have hholds : ∀ u, HoldsBack h.rows taskId u ↔ u ∈ row.blocks ∧ row.status ≠ .completed := by
    simp [HoldsBack, hrow]
  have hblockers : ∀ t, t ∈ row.blockedBy ↔ t ≠ taskId ∧ HoldsBack h.rows t taskId := by
    intro t
    rw [← hlists, htwo]
    refine ⟨fun h ↦ ⟨fun heq ↦ ?_, h⟩, And.right⟩
    subst heq
    exact hself ((hholds t).mp h).1
  simp only [lists_updated hlookup hself, holds_updated hlookup]
  constructor
  · intro htwo'
    refine ⟨fun blockedBy hblockedBy t ↦ ?_, fun hdone status hstatus hopen ↦ ?_⟩
    · have hends := htwo' taskId t
      rw [if_pos rfl, hblockedBy, Option.getD_some] at hends
      rw [hends, hblockers]
      split
      · next heq => simp [heq, hself]
      · next hne => simp [hne]
    · refine List.eq_nil_iff_forall_not_mem.mpr fun u hu ↦ ?_
      have hne := (hinv.dependents taskId row hrow u hu).1
      have hends := htwo' u taskId
      rw [if_neg hne, if_pos rfl, hstatus, Option.getD_some] at hends
      have hheld := (htwo u taskId).mp (hends.mpr ⟨hu, hopen⟩).1
      exact ((hholds u).mp hheld).2 hdone
  · rintro ⟨hsame, hreopen⟩ u t
    by_cases hu : u = taskId
    · subst hu
      rw [if_pos rfl]
      have hmem : t ∈ update.blockedBy.getD row.blockedBy ↔ t ∈ row.blockedBy := by
        cases hblockedBy : update.blockedBy with
        | none => rfl
        | some blockedBy => exact hsame blockedBy hblockedBy t
      rw [hmem, hblockers]
      split
      · next heq => simp [heq, hself]
      · next hne => simp [hne]
    · rw [if_neg hu, htwo u t]
      by_cases ht : t = taskId
      · subst ht
        rw [if_pos rfl, hholds]
        cases hstatus : update.status with
        | none => simp
        | some status =>
            by_cases hdone : status = .completed
            · subst hdone
              simp only [Option.getD_some, ne_eq, not_true_eq_false, and_false, iff_false]
              rintro ⟨⟨hmem, _⟩, hnot⟩
              exact hnot ⟨trivial, hmem, trivial⟩
            · have hopen : ∀ hmem : u ∈ row.blocks, row.status ≠ .completed := by
                intro hmem hcompleted
                rw [hreopen hcompleted status hstatus hdone] at hmem
                cases hmem
              simpa [hdone] using hopen
      · simp [ht]

end Updated

section Runs

theorem boardInvariant_initial : BoardInvariant .initial where
  dependents := by simp [TaskHistory.initial]
  declared := by simp [TaskHistory.initial]

theorem boardInvariant_created (hinv : BoardInvariant h) {row : TeamTaskRow}
    (hblocks : row.blocks = []) (hlookup : Created h.rows rows' taskId row) :
    BoardInvariant ⟨rows', h.declare taskId (some row.blockedBy)⟩ where
  dependents := by
    intro t r hr u hu
    have hfound : ∀ other, other = taskId ∨ (h.rows.lookup other).isSome →
        (rows'.lookup other).isSome := by
      intro other hother
      rw [hlookup]
      split
      · rfl
      · next hne => simpa using hother.resolve_left hne
    rw [hlookup] at hr
    by_cases ht : t = taskId
    · rw [if_pos ht] at hr
      obtain rfl := Option.some.inj hr
      rw [hblocks] at hu
      cases hu
    · rw [if_neg ht, Option.map_eq_some_iff] at hr
      obtain ⟨old, hold, rfl⟩ := hr
      have hmem : u ∈ old.blocks ∨ u = taskId := by
        split at hu
        · exact mem_addBlocked.mp hu
        · exact Or.inl hu
      rcases hmem with hmem | rfl
      · obtain ⟨hne, hsome⟩ := hinv.dependents t old hold u hmem
        exact ⟨hne, hfound u (Or.inr hsome)⟩
      · exact ⟨Ne.symm ht, hfound u (Or.inl rfl)⟩
  declared := by
    intro u r hr
    rw [hlookup] at hr
    by_cases hu : u = taskId
    · rw [if_pos hu] at hr
      obtain rfl := Option.some.inj hr
      exact ⟨row.blockedBy, hu ▸ AList.lookup_insert h.declared, fun _ ht ↦ ht⟩
    · rw [if_neg hu, Option.map_eq_some_iff] at hr
      obtain ⟨old, hold, rfl⟩ := hr
      obtain ⟨deps, hdeps, hlisted⟩ := hinv.declared u old hold
      refine ⟨deps, (AList.lookup_insert_ne hu).trans hdeps, fun t ht ↦ hlisted t ?_⟩
      split at ht <;> simpa using ht

theorem boardInvariant_updated (hinv : BoardInvariant h) {row : TeamTaskRow} {update : TaskUpdate}
    (hrow : h.rows.lookup taskId = some row) (hlookup : Updated h.rows rows' taskId row update) :
    BoardInvariant ⟨rows', h.declare taskId update.blockedBy⟩ where
  dependents := by
    intro t r hr u hu
    have hfound : ∀ other, (h.rows.lookup other).isSome → (rows'.lookup other).isSome := by
      intro other hother
      rw [hlookup, Option.isSome_map]
      split
      · rfl
      · exact hother
    rw [hlookup, Option.map_eq_some_iff] at hr
    obtain ⟨old, hold, rfl⟩ := hr
    have hmem : u ∈ old.blocks := by split at hu <;> exact hu
    have hdependent : u ≠ t ∧ (h.rows.lookup u).isSome := by
      by_cases ht : t = taskId
      · rw [if_pos ht] at hold
        obtain rfl := Option.some.inj hold
        exact hinv.dependents t row (ht ▸ hrow) u hmem
      · rw [if_neg ht] at hold
        exact hinv.dependents t old hold u hmem
    exact ⟨hdependent.1, hfound u hdependent.2⟩
  declared := by
    intro u r hr
    rw [hlookup, Option.map_eq_some_iff] at hr
    obtain ⟨old, hold, rfl⟩ := hr
    have hkept : ∀ deps : List String, (∀ t ∈ old.blockedBy, t ∈ deps) → ∀ t ∈ (if update.status =
        some .completed ∧ u ∈ row.blocks then old.unblock taskId else old).blockedBy, t ∈ deps := by
      intro deps hdeps t ht
      split at ht
      · exact hdeps t (mem_unblock.mp ht).1
      · exact hdeps t ht
    by_cases hu : u = taskId
    · subst hu
      rw [if_pos rfl] at hold
      obtain rfl := Option.some.inj hold
      cases hblockedBy : update.blockedBy with
      | none =>
          obtain ⟨deps, hdeps, hlisted⟩ := hinv.declared u row hrow
          refine ⟨deps, hdeps, hkept deps fun t ht ↦ hlisted t ?_⟩
          simpa [hblockedBy] using ht
      | some blockedBy =>
          refine ⟨blockedBy, AList.lookup_insert h.declared, hkept blockedBy fun t ht ↦ ?_⟩
          simpa [hblockedBy] using ht
    · rw [if_neg hu] at hold
      obtain ⟨deps, hdeps, hlisted⟩ := hinv.declared u old hold
      refine ⟨deps, ?_, hkept deps hlisted⟩
      cases hblockedBy : update.blockedBy with
      | none => exact hdeps
      | some blockedBy => exact (AList.lookup_insert_ne hu).trans hdeps

theorem agree_step (call : TaskCall) (hinv : BoardInvariant h) :
    BoardInvariant (h.step call) ∧
      (DependenciesAgree h → (DependenciesAgree (h.step call) ↔ call.Sound h)) := by
  cases call with
  | createTask taskId subject description owner blockedBy =>
      rcases createTask_cases h.rows taskId subject description owner blockedBy with
        ⟨hrejected, error, heq⟩ | ⟨hnew, hdeps, rows', heq, hlookup⟩
      · have hstep : h.step (.createTask taskId subject description owner blockedBy) = h := by
          simp only [TaskHistory.step, heq]
        rw [hstep]
        exact ⟨hinv, fun hagree ↦ iff_of_true hagree fun hnew hdeps ↦
          absurd ⟨hnew, hdeps⟩ hrejected⟩
      · have hstep : h.step (.createTask taskId subject description owner blockedBy) =
            ⟨rows', h.declare taskId (some blockedBy)⟩ := by
          simp only [TaskHistory.step, heq]
        have hcreated : Created h.rows rows' taskId
            (.new taskId subject description owner blockedBy) := hlookup
        have hinv' : BoardInvariant ⟨rows', h.declare taskId (some blockedBy)⟩ :=
          boardInvariant_created hinv rfl hcreated
        rw [hstep]
        refine ⟨hinv', fun hagree ↦ ?_⟩
        have htwo := twoSided_created hinv hagree.twoSided hnew hdeps rfl hcreated
        exact ⟨fun hagree' _ _ ↦ htwo.mp hagree'.twoSided,
          fun hsound ↦ unblocked_of_twoSided hinv' (htwo.mpr (hsound hnew hdeps))⟩
  | updateTask taskId update =>
      rcases updateTask_cases h.rows taskId update (fun row hrow u hu ↦
        (hinv.dependents taskId row hrow u hu).2) with
        ⟨hnone, heq⟩ | ⟨row, rows', updated, hrow, heq, hlookup⟩
      · have hstep : h.step (.updateTask taskId update) = h := by
          simp only [TaskHistory.step, heq]
        rw [hstep]
        refine ⟨hinv, fun hagree ↦ iff_of_true hagree fun row hrow ↦ ?_⟩
        rw [hnone] at hrow
        cases hrow
      · have hstep : h.step (.updateTask taskId update) =
            ⟨rows', h.declare taskId update.blockedBy⟩ := by
          simp only [TaskHistory.step, heq]
        have hinv' := boardInvariant_updated hinv hrow hlookup
        rw [hstep]
        refine ⟨hinv', fun hagree ↦ ?_⟩
        have htwo := twoSided_updated hinv hagree.twoSided hrow hlookup
        constructor
        · intro hagree' row' hrow'
          obtain rfl : row = row' := Option.some.inj (hrow.symm.trans hrow')
          exact htwo.mp hagree'.twoSided
        · exact fun hsound ↦ unblocked_of_twoSided hinv' (htwo.mpr (hsound row hrow))

theorem dependencies_agree_iff (calls : List TaskCall) :
    Throughout TaskHistory.step DependenciesAgree .initial calls ↔
      Meets TaskHistory.step (fun h call ↦ call.Sound h) .initial calls := by
  have hagree : DependenciesAgree .initial :=
    unblocked_of_twoSided boardInvariant_initial
      (by simp [ListsBlocker, HoldsBack, TaskHistory.initial])
  exact throughout_iff_meets (fun _ call hinv ↦ (agree_step call hinv).1)
    (fun _ call hinv hagree ↦ (agree_step call hinv).2 hagree) boardInvariant_initial hagree

def createdLate : List TaskCall :=
  [.createTask "a" "build" none none [], .updateTask "a" { status := some .completed },
    .createTask "b" "ship" none none ["a"]]

theorem createdLate_stays_blocked :
    ¬ Throughout TaskHistory.step DependenciesAgree .initial createdLate := by
  intro hagree
  have hrow : (run TaskHistory.step .initial createdLate).rows.lookup "b" =
      some (.new "b" "ship" none none ["a"]) := by decide
  obtain ⟨row, hlookup, _, hopen⟩ := (hagree.last.twoSided "b" "a").mp ⟨_, hrow, by decide⟩
  have hdone : (run TaskHistory.step .initial createdLate).rows.lookup "a" =
      some { TeamTaskRow.new "a" "build" none none [] with
        status := .completed, blocks := ["b"] } := by decide
  obtain rfl := Option.some.inj (hlookup.symm.trans hdone)
  exact hopen rfl

end Runs

end Steps

end Zaowutai.Team
