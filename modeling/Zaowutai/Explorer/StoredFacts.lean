import Zaowutai.Explorer.Reconcile
import Zaowutai.Explorer.WatchedNodes

/-!
# Stored facts and read facts

A reconciliation that has nothing to report stores nothing either, although what
it has read may differ from what is stored in an inode, in a symbolic link or in
a time that was not known before.  From then on reads are compared with facts
that are older than the read before.
-/

namespace Zaowutai.Explorer

open Zaowutai.Lib

def Hint.Rereads : Hint → String → Prop
  | .all, _ => True
  | .childNames names, name => name ∈ names ∧ shouldHide name = false

instance Hint.Rereads.decidable : ∀ (hint : Hint) (name : String), Decidable (hint.Rereads name)
  | .all, _ => isTrue trivial
  | .childNames names, name => inferInstanceAs (Decidable (name ∈ names ∧ shouldHide name = false))

def Reported : Option EntryFact → Option EntryFact → Prop
  | none, none => False
  | some of, some nf => nf.kind ≠ of.kind ∨ of.kind = .file ∧ isMtimeChange of nf = true
  | _, _ => True

/-- Either the facts are the same or a difference is reported. -/
def Surfaces (old fresh : Listing) : Prop :=
  (∀ name, fresh.lookup name = old.lookup name) ∨
    ∃ name, Reported (old.lookup name) (fresh.lookup name)

section Diff

variable {old fresh : Listing}

theorem mem_modifiedNames {name : String} :
    name ∈ modifiedNames old fresh ↔
      ∃ of nf, old.lookup name = some of ∧ fresh.lookup name = some nf ∧ nf.kind = of.kind ∧
        of.kind = .file ∧ isMtimeChange of nf = true := by
  simp only [modifiedNames, List.mem_map, List.mem_filter, Prod.exists, exists_and_right,
    exists_eq_right, mem_inOrder]
  refine exists_congr fun of ↦ ?_
  cases fresh.lookup name <;> simp

theorem modified_mem_diff {name : String} (h : name ∈ modifiedNames old fresh) :
    .modified name ∈ diff old fresh :=
  List.mem_append_right _ (List.mem_map_of_mem h)

theorem diff_eq_nil_iff :
    diff old fresh = [] ↔ ∀ name, ¬Reported (old.lookup name) (fresh.lookup name) := by
  constructor
  · intro h name hreported
    have hkinds := congrFun (kinds_eq_of_diff_eq_nil h) name
    unfold kinds at hkinds
    cases hof : old.lookup name with
    | none =>
        cases hnf : fresh.lookup name with
        | none => simp only [hof, hnf, Reported] at hreported
        | some nf => simp [hof, hnf] at hkinds
    | some of =>
        cases hnf : fresh.lookup name with
        | none => simp [hof, hnf] at hkinds
        | some nf =>
            simp only [hof, hnf, Option.map_some, Option.some.injEq] at hkinds
            simp only [hof, hnf, Reported] at hreported
            obtain hkind | hmtime := hreported
            · exact hkind hkinds
            · have hmem := modified_mem_diff (mem_modifiedNames.mpr ⟨of, nf, hof, hnf, hkinds, hmtime⟩)
              rw [h] at hmem
              cases hmem
  · intro h
    have hkinds : kinds fresh = kinds old := by
      funext name
      have hname := h name
      unfold kinds
      cases hof : old.lookup name <;> cases hnf : fresh.lookup name
      · rfl
      · simp [hof, hnf, Reported] at hname
      · simp [hof, hnf, Reported] at hname
      · simp only [hof, hnf, Reported, not_or, not_not] at hname
        simp [hname.1]
    have hold : removedEntries old fresh = [] :=
      List.map_eq_nil_iff.mp (List.eq_nil_iff_forall_not_mem.mpr fun name hmem ↦
        (mem_removedNames.mp hmem).2 (by rw [hkinds]))
    have hnew : addedEntries old fresh = [] :=
      List.map_eq_nil_iff.mp (List.eq_nil_iff_forall_not_mem.mpr fun name hmem ↦
        (mem_addedNames.mp hmem).2 (by rw [hkinds]))
    have hmod : modifiedNames old fresh = [] := by
      refine List.eq_nil_iff_forall_not_mem.mpr fun name hmem ↦ h name ?_
      obtain ⟨of, nf, hof, hnf, -, hmtime⟩ := mem_modifiedNames.mp hmem
      rw [hof, hnf]
      exact Or.inr hmtime
    simp [diff, pairing, hold, hnew, hmod, pairRenames]

theorem inode_of_renamed {source target : String} (h : .renamed source target ∈ diff old fresh) :
    ∃ of nf, old.lookup source = some of ∧ fresh.lookup target = some nf ∧ of.inode ≠ 0 ∧
      nf.inode = of.inode := by
  have hpair : (source, target) ∈ (pairing old fresh).renames := by
    simpa [diff] using h
  obtain ⟨c, hc, hmem⟩ := mem_renames_pairing.mp hpair
  obtain ⟨hsource, htarget⟩ := List.of_mem_zip hmem
  obtain ⟨of, hof, rfl⟩ := mem_ofClass.mp hsource
  obtain ⟨nf, hnf, hclass⟩ := mem_ofClass.mp htarget
  exact ⟨of, nf, (mem_removedEntries.mp hof).1, (mem_addedEntries.mp hnf).1, hc,
    (class_eq_iff.mp hclass).1⟩

end Diff

section Reading

variable {urls : UrlCrate} {answers : FsAnswers} {canonical : String}

/-- Two listings over which the same is read: they agree on the names that are checked, and keep
their base elsewhere. -/
structure ReadAlike (hint : Hint) (m m' fresh fresh' : Listing) : Prop where
  checked : ∀ name, hint.Rereads name → fresh.lookup name = fresh'.lookup name
  kept : ∀ name, ¬hint.Rereads name → fresh.lookup name = m.lookup name
  kept' : ∀ name, ¬hint.Rereads name → fresh'.lookup name = m'.lookup name

theorem ReadAlike.cons {names : List String} {name : String} {m m' n n' fresh fresh' : Listing}
    (h : ReadAlike (.childNames names) n n' fresh fresh')
    (hname : shouldHide name = false → n.lookup name = n'.lookup name)
    (hother : ∀ other, (shouldHide name = false → other ≠ name) → n.lookup other = m.lookup other)
    (hother' : ∀ other, (shouldHide name = false → other ≠ name) →
      n'.lookup other = m'.lookup other) :
    ReadAlike (.childNames (name :: names)) m m' fresh fresh' := by
  have hfree : ∀ other, ¬(Hint.childNames (name :: names)).Rereads other →
      ¬(Hint.childNames names).Rereads other ∧ (shouldHide name = false → other ≠ name) := by
    intro other hnot
    refine ⟨fun hmem ↦ hnot ⟨List.mem_cons_of_mem _ hmem.1, hmem.2⟩, ?_⟩
    rintro hshow rfl
    exact hnot ⟨List.mem_cons_self, hshow⟩
  refine ⟨fun other hmem ↦ ?_, fun other hnot ↦ ?_, fun other hnot ↦ ?_⟩
  · by_cases htail : (Hint.childNames names).Rereads other
    · exact h.checked other htail
    · obtain rfl | htail' := List.mem_cons.mp hmem.1
      · rw [h.kept other htail, h.kept' other htail, hname hmem.2]
      · exact absurd ⟨htail', hmem.2⟩ htail
  · rw [h.kept other (hfree other hnot).1, hother other (hfree other hnot).2]
  · rw [h.kept' other (hfree other hnot).1, hother' other (hfree other hnot).2]

theorem statChildren_alike {names : List String} {calls : ℕ} {m fresh : Listing} (m' : Listing)
    (h : TreeModel.statChildren urls answers canonical calls m names = .ok fresh) :
    ∃ fresh', TreeModel.statChildren urls answers canonical calls m' names = .ok fresh' ∧
      ReadAlike (.childNames names) m m' fresh fresh' := by
  induction names generalizing calls m m' with
  | nil =>
      obtain rfl := Except.ok.inj h
      exact ⟨m', rfl, fun _ hmem ↦ absurd hmem.1 List.not_mem_nil, fun _ _ ↦ rfl, fun _ _ ↦ rfl⟩
  | cons name names ih =>
      unfold TreeModel.statChildren at h ⊢
      cases hhide : shouldHide name with
      | true =>
          simp only [hhide, if_true] at h ⊢
          obtain ⟨fresh', hread, halike⟩ := ih m' h
          exact ⟨fresh', hread, halike.cons (fun hshow ↦ by rw [hhide] at hshow; cases hshow)
            (fun _ _ ↦ rfl) fun _ _ ↦ rfl⟩
      | false =>
          simp only [hhide, Bool.false_eq_true, if_false] at h ⊢
          cases huri : TreeModel.childUri urls canonical name with
          | error e => simp [huri] at h
          | ok uri =>
              cases hstat : answers.stat calls with
              | error e => simp [huri, hstat] at h
              | ok found =>
                  cases found with
                  | some fact =>
                      simp only [huri, hstat] at h ⊢
                      obtain ⟨fresh', hread, halike⟩ := ih (m'.insert name fact) h
                      refine ⟨fresh', hread, halike.cons (fun _ ↦ ?_) (fun other hne ↦ ?_)
                        fun other hne ↦ ?_⟩
                      · rw [AList.lookup_insert, AList.lookup_insert]
                      · exact AList.lookup_insert_ne (hne hhide)
                      · exact AList.lookup_insert_ne (hne hhide)
                  | none =>
                      simp only [huri, hstat] at h ⊢
                      obtain ⟨fresh', hread, halike⟩ := ih (m'.erase name) h
                      refine ⟨fresh', hread, halike.cons (fun _ ↦ ?_) (fun other hne ↦ ?_)
                        fun other hne ↦ ?_⟩
                      · rw [AList.lookup_erase, AList.lookup_erase]
                      · exact AList.lookup_erase_ne (hne hhide)
                      · exact AList.lookup_erase_ne (hne hhide)

theorem freshListing_alike {hint : Hint} {m fresh : Listing} (m' : Listing)
    (h : TreeModel.freshListing urls answers canonical m hint = .ok fresh) :
    ∃ fresh', TreeModel.freshListing urls answers canonical m' hint = .ok fresh' ∧
      ReadAlike hint m m' fresh fresh' := by
  cases hint with
  | all => exact ⟨fresh, h, fun _ _ ↦ rfl, fun _ hnot ↦ absurd trivial hnot,
      fun _ hnot ↦ absurd trivial hnot⟩
  | childNames names => exact statChildren_alike m' h

end Reading

section Runs

structure ApplyCall where
  hint : Hint
  answers : FsAnswers

/-- The tree and, for each name of the directory, the fact that was read last. -/
structure Observed where
  tree : TreeModel
  latest : String → Option EntryFact

variable (urls : UrlCrate) (canonical : String)

def TreeModel.stored (t : TreeModel) (name : String) : Option EntryFact :=
  (t.nodes.lookup canonical).bind (·.entries.lookup name)

namespace Observed

def justRead (call : ApplyCall) : Except FsError Listing :=
  TreeModel.freshListing urls call.answers canonical ∅ call.hint

/-- A call that returns `Ok` has read the names that it checks. -/
def step (o : Observed) (call : ApplyCall) : Observed :=
  let applied := o.tree.apply urls call.answers canonical call.hint
  match applied.2, justRead urls canonical call with
  | .ok _, .ok read =>
      ⟨applied.1, fun name ↦ if call.hint.Rereads name then read.lookup name else o.latest name⟩
  | _, _ => { o with tree := applied.1 }

def mounted (t : TreeModel) (rows : List (String × EntryFact)) : Observed where
  tree := { t with
    nodes := t.nodes.insert canonical ⟨collect rows, ⟨canonical⟩⟩
    runtimes := { t.runtimes with armed := insert canonical t.runtimes.armed } }
  latest := (collect rows).lookup

/-- A call that returns `Ok` detects what it reads. -/
structure Detects (o : Observed) (call : ApplyCall) (delta : Option DeltaBatch) (read : Listing) :
    Prop where
  /-- What is compared with are the latest reads. -/
  base : ∀ name, o.tree.stored canonical name = o.latest name
  stored : ∀ name, call.hint.Rereads name →
    (o.step urls canonical call).tree.stored canonical name = read.lookup name
  modified : ∀ name of nf, call.hint.Rereads name → o.latest name = some of →
    read.lookup name = some nf → of.kind = .file → nf.kind = .file → isMtimeChange of nf = true →
      ∃ batch, delta = some batch ∧ .modified name ∈ batch.changes
  renamed : ∀ batch source target, delta = some batch → .renamed source target ∈ batch.changes →
    ∃ of nf, o.latest source = some of ∧ (o.step urls canonical call).latest target = some nf ∧
      of.inode ≠ 0 ∧ nf.inode = of.inode

/-- What the call reads is stored already, or something of it is reported. -/
def Shows (o : Observed) (call : ApplyCall) : Prop :=
  ∀ node fresh, TreeModel.Reads urls call.answers o.tree canonical call.hint node fresh →
    Surfaces node.entries fresh

def DetectsIfOk (o : Observed) (call : ApplyCall) : Prop :=
  ∀ delta, (o.tree.apply urls call.answers canonical call.hint).2 = .ok delta →
    ∃ read, justRead urls canonical call = .ok read ∧ Detects urls canonical o call delta read

structure UpToDate (o : Observed) : Prop where
  mounted : ∃ node, o.tree.nodes.lookup canonical = some node
  base : ∀ name, o.tree.stored canonical name = o.latest name

variable {urls canonical} {o : Observed} {call : ApplyCall} {node : Node} {fresh read : Listing}

theorem upToDate_mounted (t : TreeModel) (rows : List (String × EntryFact)) :
    UpToDate canonical (mounted canonical t rows) := by
  have hnode : (mounted canonical t rows).tree.nodes.lookup canonical =
      some ⟨collect rows, ⟨canonical⟩⟩ := AList.lookup_insert _
  refine ⟨⟨_, hnode⟩, fun name ↦ ?_⟩
  rw [TreeModel.stored, hnode]
  rfl

theorem stored_eq (h : TreeModel.Reads urls call.answers o.tree canonical call.hint node fresh)
    (name : String) : o.tree.stored canonical name = node.entries.lookup name := by
  rw [TreeModel.stored, h.mounted]
  rfl

theorem tree_step : (o.step urls canonical call).tree =
    (o.tree.apply urls call.answers canonical call.hint).1 := by
  dsimp only [step]
  split <;> rfl

theorem step_of_reads (h : TreeModel.Reads urls call.answers o.tree canonical call.hint node fresh)
    (hread : justRead urls canonical call = .ok read) :
    (∃ delta, (o.tree.apply urls call.answers canonical call.hint).2 = .ok delta ∧
      (delta.elim [] DeltaBatch.changes) = diff node.entries fresh) ∧
    (∀ name, (o.step urls canonical call).tree.stored canonical name =
      if diff node.entries fresh = [] then node.entries.lookup name else fresh.lookup name) ∧
    ∀ name, (o.step urls canonical call).latest name =
      if call.hint.Rereads name then read.lookup name else o.latest name := by
  have happly := TreeModel.apply_of_reads h
  by_cases hdiff : diff node.entries fresh = []
  · rw [if_pos hdiff] at happly
    simp only [step, happly, hread]
    exact ⟨⟨none, rfl, hdiff.symm⟩, fun name ↦ (stored_eq h name).trans (if_pos hdiff).symm,
      fun _ ↦ trivial⟩
  · rw [if_neg hdiff] at happly
    simp only [step, happly, hread]
    refine ⟨⟨_, rfl, rfl⟩, fun name ↦ ?_, fun _ ↦ trivial⟩
    rw [if_neg hdiff, TreeModel.stored, Table.lookup_modify, if_pos rfl, h.mounted]
    rfl

theorem step_of_not_reads (h : UpToDate canonical o)
    (hnot : ∀ node fresh,
      ¬TreeModel.Reads urls call.answers o.tree canonical call.hint node fresh) :
    (∃ e, (o.tree.apply urls call.answers canonical call.hint).2 = .error e) ∧
      o.step urls canonical call = o := by
  obtain ⟨node, hnode⟩ := h.mounted
  obtain ⟨hnone, -⟩ | ⟨-, e, happly⟩ := TreeModel.apply_of_not_reads hnot
  · rw [hnode] at hnone
    cases hnone
  · refine ⟨⟨e, by rw [happly]⟩, ?_⟩
    simp only [step, happly]

theorem justRead_of_reads
    (h : TreeModel.Reads urls call.answers o.tree canonical call.hint node fresh) :
    ∃ read, justRead urls canonical call = .ok read ∧
      (∀ name, call.hint.Rereads name → fresh.lookup name = read.lookup name) ∧
      ∀ name, ¬call.hint.Rereads name → fresh.lookup name = node.entries.lookup name := by
  obtain ⟨read, hread, halike⟩ := freshListing_alike ∅ h.fresh
  exact ⟨read, hread, halike.checked, halike.kept⟩

theorem detectsIfOk_iff (h : UpToDate canonical o) (call : ApplyCall) :
    DetectsIfOk urls canonical o call ↔ Shows urls canonical o call := by
  by_cases hreads : ∃ node fresh,
      TreeModel.Reads urls call.answers o.tree canonical call.hint node fresh
  · obtain ⟨node, fresh, hreads⟩ := hreads
    obtain ⟨read, hread, hchecked, hkept⟩ := justRead_of_reads hreads
    obtain ⟨⟨delta, hdelta, hchanges⟩, hstored, hlatest⟩ := step_of_reads hreads hread
    constructor
    · intro hdetects node' fresh' hreads'
      obtain ⟨rfl, rfl⟩ := hreads.unique hreads'
      by_cases hdiff : diff node'.entries fresh' = []
      · obtain ⟨read', hread', hall⟩ := hdetects delta hdelta
        obtain rfl := Except.ok.inj (hread.symm.trans hread')
        refine Or.inl fun name ↦ ?_
        by_cases hname : call.hint.Rereads name
        · have hsame := hall.stored name hname
          rw [hstored, if_pos hdiff] at hsame
          rw [hchecked name hname, hsame]
        · exact hkept name hname
      · rw [diff_eq_nil_iff, not_forall] at hdiff
        obtain ⟨name, hreported⟩ := hdiff
        exact Or.inr ⟨name, not_not.mp hreported⟩
    · intro hshows delta' hdelta'
      obtain rfl := Except.ok.inj (hdelta.symm.trans hdelta')
      refine ⟨read, hread, h.base, fun name hname ↦ ?_, ?_, ?_⟩
      · rw [hstored]
        split
        · next hdiff =>
            obtain hsame | ⟨other, hreported⟩ := hshows node fresh hreads
            · rw [← hsame, hchecked name hname]
            · exact absurd hreported (diff_eq_nil_iff.mp hdiff other)
        · exact hchecked name hname
      · intro name of nf hname hof hnf hkind hkind' hmtime
        have hold : node.entries.lookup name = some of := by
          rw [← stored_eq hreads, h.base, hof]
        have hnew : fresh.lookup name = some nf := (hchecked name hname).trans hnf
        have hmem := modified_mem_diff (mem_modifiedNames.mpr
          ⟨of, nf, hold, hnew, hkind'.trans hkind.symm, hkind, hmtime⟩)
        rw [← hchanges] at hmem
        cases delta with
        | none => cases hmem
        | some batch => exact ⟨batch, rfl, hmem⟩
      · rintro batch source target rfl hmem
        rw [Option.elim_some] at hchanges
        rw [hchanges] at hmem
        obtain ⟨of, nf, hof, hnf, hinode⟩ := inode_of_renamed hmem
        refine ⟨of, nf, ?_, ?_, hinode⟩
        · rw [← h.base, stored_eq hreads, hof]
        · rw [hlatest]
          split
          · next hname => rw [← hchecked target hname, hnf]
          · next hname => rw [← h.base, stored_eq hreads, ← hkept target hname, hnf]
  · have hnot := fun node fresh h ↦ hreads ⟨node, fresh, h⟩
    obtain ⟨⟨e, herror⟩, -⟩ := step_of_not_reads h hnot
    refine iff_of_true (fun delta hdelta ↦ ?_) fun node fresh h ↦ absurd h (hnot node fresh)
    rw [herror] at hdelta
    cases hdelta

theorem upToDate_step (h : UpToDate canonical o) (hshows : Shows urls canonical o call) :
    UpToDate canonical (o.step urls canonical call) := by
  by_cases hreads : ∃ node fresh,
      TreeModel.Reads urls call.answers o.tree canonical call.hint node fresh
  · obtain ⟨node, fresh, hreads⟩ := hreads
    obtain ⟨read, hread, hchecked, hkept⟩ := justRead_of_reads hreads
    obtain ⟨⟨delta, hdelta, -⟩, hstored, hlatest⟩ := step_of_reads hreads hread
    obtain ⟨read', hread', hdetects⟩ := (detectsIfOk_iff h call).mpr hshows delta hdelta
    obtain rfl := Except.ok.inj (hread.symm.trans hread')
    constructor
    · have hsome : ((o.tree.apply urls call.answers canonical call.hint).1.nodes.lookup
          canonical).isSome = (o.tree.nodes.lookup canonical).isSome :=
        TreeModel.isSome_apply call.answers canonical call.hint canonical
      rw [← tree_step, hreads.mounted] at hsome
      exact Option.isSome_iff_exists.mp hsome
    · intro name
      rw [hlatest]
      split
      · next hname => exact hdetects.stored name hname
      · next hname =>
          rw [← h.base, stored_eq hreads, hstored, hkept name hname, ite_self]
  · obtain ⟨-, hsame⟩ := step_of_not_reads h fun node fresh h ↦ hreads ⟨node, fresh, h⟩
    rw [hsame]
    exact h

/-- Along every run, the calls detect what they read exactly as long as they show it. -/
theorem detects_iff_shows (urls : UrlCrate) (canonical : String) (t : TreeModel)
    (rows : List (String × EntryFact)) (calls : List ApplyCall) :
    Meets (step urls canonical) (DetectsIfOk urls canonical) (mounted canonical t rows) calls ↔
      Meets (step urls canonical) (Shows urls canonical) (mounted canonical t rows) calls :=
  meets_iff_meets (fun _ _ h hshows ↦ upToDate_step h hshows)
    (fun _ call h ↦ detectsIfOk_iff h call) (upToDate_mounted t rows)

section Unknown

-- the time of a file that is not known at first

def fileFact (mtimeMs : Option ℤ) : EntryFact := ⟨.file, 1, none, mtimeMs⟩

def rescan (mtimeMs : ℤ) : ApplyCall where
  hint := .all
  answers := ⟨.ok (), .ok [("a.txt", fileFact (some mtimeMs))], fun _ ↦ .ok none⟩

/-- Of two reads with different times the later one reports nothing, since the earlier one was not
stored. -/
theorem later_write_missed :
    let o := (mounted "dir" (.new ["file"]) [("a.txt", fileFact none)]).step Shard.plainUrls "dir"
      (rescan 5)
    o.latest "a.txt" = some (fileFact (some 5)) ∧
      o.tree.stored "dir" "a.txt" = some (fileFact none) ∧
      (o.step Shard.plainUrls "dir" (rescan 6)).latest "a.txt" = some (fileFact (some 6)) ∧
      (o.tree.apply Shard.plainUrls (rescan 6).answers "dir" (rescan 6).hint).2 = .ok none := by
  exact ⟨rfl, rfl, rfl, rfl⟩

end Unknown

end Observed

end Runs

end Zaowutai.Explorer
