import Zaowutai.Auth.Singleflight

/-!
# What the callers of a burst share

A cell that has no outcome yet is the one in the map, so that calls with one
token meet in it.  A cell with an outcome is in the map only until the caller
that ran the execution removes it, and a caller that takes it there in between
may begin after the execution is over.
-/

namespace Zaowutai.Auth

open Zaowutai.Lib

namespace RefreshState

def Backs (s : RefreshState) (n : ℕ) (token : String) : RefreshPhase → Prop
  | .created => True
  | .holding id => ∃ state, s.cells.lookup id = some ⟨token, state⟩
  | .waiting id => ∃ state, s.cells.lookup id = some ⟨token, state⟩
  | .executing id => s.cells.lookup id = some ⟨token, .running n⟩
  | .received id done => s.cells.lookup id = some ⟨token, .full done⟩ ∧ done.token = token
  | .returned done => done.token = token
  | .dropped => True

structure Coherent (s : RefreshState) : Prop where
  fresh : ∀ id cell, s.cells.lookup id = some cell → id < s.nextCell
  stored : ∀ token id, s.inflight.lookup token = some id →
    ∃ state, s.cells.lookup id = some ⟨token, state⟩
  unfinished : ∀ id cell, s.cells.lookup id = some cell → (∀ done, cell.state ≠ .full done) →
    s.inflight.lookup cell.token = some id
  finished : ∀ token id done, s.inflight.lookup token = some id →
    s.cells.lookup id = some ⟨token, .full done⟩ →
      ∃ call, s.calls.lookup done.executor = some call ∧ call.token = token ∧
        call.phase = .received id done
  owned : ∀ id token done, s.cells.lookup id = some ⟨token, .full done⟩ → done.token = token
  backed : ∀ n call, s.calls.lookup n = some call → s.Backs n call.token call.phase

variable {s t : RefreshState} {n id : ℕ} {call : RefreshCall} {phase : RefreshPhase}
  {state : CellState}

theorem coherent_new : new.Coherent := by
  refine ⟨?_, ?_, ?_, ?_, ?_, ?_⟩
  · intro id cell h
    cases h
  · intro token id h
    cases h
  · intro id cell h
    cases h
  · intro token id done h
    cases h
  · intro id token done h
    cases h
  · intro n call h
    cases h

theorem lookup_setPhase (m : ℕ) :
    (s.setPhase n call phase).calls.lookup m =
      if m = n then some { call with phase := phase } else s.calls.lookup m :=
  Table.lookup_insert_eq _

theorem lookup_setCell (other : ℕ) :
    (s.setCell id state).cells.lookup other =
      if other = id then (s.cells.lookup other).map fun cell ↦ { cell with state := state }
      else s.cells.lookup other :=
  Table.lookup_modify _

theorem Backs.mono {token : String} (h : s.Backs n token phase)
    (hkept : ∀ id cell, s.cells.lookup id = some cell → t.cells.lookup id = some cell) :
    t.Backs n token phase := by
  cases phase with
  | created => trivial
  | holding id =>
      obtain ⟨state, hstate⟩ := h
      exact ⟨state, hkept id _ hstate⟩
  | waiting id =>
      obtain ⟨state, hstate⟩ := h
      exact ⟨state, hkept id _ hstate⟩
  | executing id => exact hkept id _ h
  | received id done => exact ⟨hkept id _ h.1, h.2⟩
  | returned done => exact h
  | dropped => trivial

theorem Backs.setCell {m : ℕ} {token other : String} {before : CellState}
    (h : s.Backs m token phase) (hne : m ≠ n) (hlookup : s.cells.lookup id = some ⟨other, before⟩)
    (hbefore : before = .empty ∨ before = .running n) :
    (s.setCell id state).Backs m token phase := by
  have hkept : ∀ cell kept, s.cells.lookup cell = some ⟨token, kept⟩ →
      ∃ state', (s.setCell id state).cells.lookup cell = some ⟨token, state'⟩ := by
    intro cell kept hcell
    rw [lookup_setCell]
    split
    · exact ⟨state, by rw [hcell]; rfl⟩
    · exact ⟨kept, hcell⟩
  have hfixed : ∀ cell kept, s.cells.lookup cell = some ⟨token, kept⟩ → kept ≠ .empty →
      kept ≠ .running n → (s.setCell id state).cells.lookup cell = some ⟨token, kept⟩ := by
    intro cell kept hcell hempty hrunning
    rw [lookup_setCell, if_neg, hcell]
    rintro rfl
    cases hlookup.symm.trans hcell
    rcases hbefore with rfl | rfl
    · exact hempty rfl
    · exact hrunning rfl
  cases phase with
  | created => trivial
  | holding cell =>
      obtain ⟨kept, hcell⟩ := h
      exact hkept cell kept hcell
  | waiting cell =>
      obtain ⟨kept, hcell⟩ := h
      exact hkept cell kept hcell
  | executing cell =>
      refine hfixed cell _ h CellState.noConfusion fun hrunning ↦ ?_
      cases hrunning
      exact hne rfl
  | received cell done =>
      exact ⟨hfixed cell _ h.1 CellState.noConfusion CellState.noConfusion, h.2⟩
  | returned done => exact h
  | dropped => trivial

theorem Coherent.setPhase (h : s.Coherent) (hcall : s.calls.lookup n = some call)
    (hphase : ∀ id done, call.phase ≠ .received id done)
    (hnext : s.Backs n call.token phase) : (s.setPhase n call phase).Coherent := by
  refine ⟨h.fresh, h.stored, h.unfinished, ?_, h.owned, ?_⟩
  · intro token id done hstored hfull
    obtain ⟨executor, hexecutor, htoken, hreceived⟩ := h.finished token id done hstored hfull
    refine ⟨executor, ?_, htoken, hreceived⟩
    rw [lookup_setPhase, if_neg, hexecutor]
    intro hself
    rw [hself, hcall] at hexecutor
    cases hexecutor
    exact hphase id done hreceived
  · intro m other hother
    rw [lookup_setPhase] at hother
    split at hother
    · next hself =>
        cases hother
        rw [hself]
        exact hnext
    · exact h.backed m other hother

theorem Coherent.setCell (h : s.Coherent) (hcall : s.calls.lookup n = some call)
    (hcell : ∃ before, s.cells.lookup id = some ⟨call.token, before⟩ ∧
      (before = .empty ∨ before = .running n))
    (hphase : ∀ id done, call.phase ≠ .received id done)
    (hfull : ∀ done, state = .full done → done.executor = n ∧ phase = .received id done)
    (hnext : (s.setCell id state).Backs n call.token phase) :
    ((s.setCell id state).setPhase n call phase).Coherent := by
  obtain ⟨before, hlookup, hbefore⟩ := hcell
  have hopen : ∀ done, before ≠ .full done := by
    rintro done rfl
    rcases hbefore with hbefore | hbefore
    · cases hbefore
    · cases hbefore
  have hafter : ∀ other cell, (s.setCell id state).cells.lookup other = some cell →
      ∃ old, s.cells.lookup other = some old ∧ cell.token = old.token ∧
        (other = id ∧ cell.state = state ∨ other ≠ id ∧ cell = old) := by
    intro other cell hother
    rw [lookup_setCell] at hother
    split at hother
    · next hself =>
        obtain ⟨old, hold, rfl⟩ := Option.map_eq_some_iff.mp hother
        exact ⟨old, hold, rfl, .inl ⟨hself, rfl⟩⟩
    · next hne => exact ⟨cell, hother, rfl, .inr ⟨hne, rfl⟩⟩
  refine ⟨?_, ?_, ?_, ?_, ?_, ?_⟩
  · intro other cell hother
    obtain ⟨old, hold, -, -⟩ := hafter other cell hother
    exact h.fresh other old hold
  · intro token other hstored
    obtain ⟨old, hold⟩ := h.stored token other hstored
    change ∃ state', (s.setCell id state).cells.lookup other = some ⟨token, state'⟩
    rw [lookup_setCell]
    split
    · exact ⟨state, by rw [hold]; rfl⟩
    · exact ⟨old, hold⟩
  · intro other cell hother hunfinished
    obtain ⟨old, hold, htoken, hcases⟩ := hafter other cell hother
    rw [htoken]
    rcases hcases with ⟨rfl, -⟩ | ⟨-, rfl⟩
    · refine h.unfinished other old hold fun done hdone ↦ ?_
      cases hold.symm.trans hlookup
      exact hopen done hdone
    · exact h.unfinished other cell hold hunfinished
  · intro token other done hstored hdone
    obtain ⟨old, hold, htoken, hcases⟩ := hafter other _ hdone
    rcases hcases with ⟨rfl, hstate⟩ | ⟨-, rfl⟩
    · obtain ⟨hexecutor, hreceived⟩ := hfull done hstate.symm
      refine ⟨{ call with phase := phase }, ?_, ?_, hreceived⟩
      · rw [hexecutor, lookup_setPhase, if_pos rfl]
      · cases hold.symm.trans hlookup
        exact htoken.symm
    · obtain ⟨executor, hexecutor, htoken, hreceived⟩ := h.finished token other done hstored hold
      refine ⟨executor, ?_, htoken, hreceived⟩
      rw [lookup_setPhase, if_neg]
      · exact hexecutor
      · intro hself
        rw [hself, hcall] at hexecutor
        cases hexecutor
        exact hphase other done hreceived
  · intro other token done hdone
    obtain ⟨old, hold, htoken, hcases⟩ := hafter other _ hdone
    rcases hcases with ⟨rfl, hstate⟩ | ⟨-, rfl⟩
    · cases hold.symm.trans hlookup
      obtain ⟨-, rfl⟩ := hfull done hstate.symm
      exact hnext.2.trans htoken.symm
    · exact h.owned other token done hold
  · intro m other hother
    rw [lookup_setPhase] at hother
    split at hother
    · next hself =>
        cases hother
        rw [hself]
        exact hnext
    · next hne =>
        exact (h.backed m other hother).setCell hne hlookup hbefore

theorem Coherent.take (h : s.Coherent) (hcall : s.calls.lookup n = some call)
    (hphase : call.phase = .created) : (s.take n call).Coherent := by
  have hnot : ∀ id done, call.phase ≠ .received id done := by
    intro id done hreceived
    cases hphase.symm.trans hreceived
  rw [RefreshState.take]
  cases hstored : s.inflight.lookup call.token with
  | some id => exact h.setPhase hcall hnot (h.stored call.token id hstored)
  | none =>
      have hnew : s.cells.lookup s.nextCell = none := by
        rw [Option.eq_none_iff_forall_ne_some]
        intro cell hcell
        exact absurd (h.fresh s.nextCell cell hcell) (Nat.lt_irrefl _)
      have hcells : ∀ id, (s.install call.token).cells.lookup id =
          if id = s.nextCell then some ⟨call.token, .empty⟩ else s.cells.lookup id :=
        fun id ↦ Table.lookup_insert_eq _
      have hinflight : ∀ token, (s.install call.token).inflight.lookup token =
          if token = call.token then some s.nextCell else s.inflight.lookup token :=
        fun token ↦ Table.lookup_insert_eq _
      have hkept : ∀ id cell, s.cells.lookup id = some cell →
          (s.install call.token).cells.lookup id = some cell := by
        intro id cell hcell
        rw [hcells, if_neg, hcell]
        rintro rfl
        cases hnew.symm.trans hcell
      refine Coherent.setPhase ⟨?_, ?_, ?_, ?_, ?_, ?_⟩ hcall hnot ?_
      · intro id cell hcell
        rw [hcells] at hcell
        change id < s.nextCell + 1
        split at hcell
        · omega
        · have hlt := h.fresh id cell hcell
          omega
      · intro token id hid
        rw [hinflight] at hid
        split at hid
        · next htoken =>
            cases hid
            rw [hcells, if_pos rfl, htoken]
            exact ⟨.empty, rfl⟩
        · obtain ⟨state, hstate⟩ := h.stored token id hid
          exact ⟨state, hkept id _ hstate⟩
      · intro id cell hcell hunfinished
        rw [hcells] at hcell
        rw [hinflight]
        split at hcell
        · next hself =>
            cases hcell
            rw [if_pos rfl, hself]
        · have hbefore := h.unfinished id cell hcell hunfinished
          rw [if_neg, hbefore]
          intro htoken
          rw [htoken, hstored] at hbefore
          cases hbefore
      · intro token id done hid hdone
        rw [hinflight] at hid
        split at hid
        · cases hid
          rw [hcells, if_pos rfl] at hdone
          cases hdone
        · obtain ⟨state, hstate⟩ := h.stored token id hid
          cases (hkept id _ hstate).symm.trans hdone
          exact h.finished token id done hid hstate
      · intro id token done hdone
        rw [hcells] at hdone
        split at hdone
        · cases hdone
        · exact h.owned id token done hdone
      · intro m other hother
        exact (h.backed m other hother).mono hkept
      · exact ⟨.empty, (hcells s.nextCell).trans (if_pos rfl)⟩

theorem Coherent.removeIf {done : Execution} (h : s.Coherent)
    (hcall : s.calls.lookup n = some call) (hphase : call.phase = .received id done) :
    (s.removeIf n call id done).Coherent := by
  obtain ⟨hfull, htoken⟩ : s.Backs n call.token (.received id done) := hphase ▸ h.backed n call hcall
  have hinflight : ∀ token other, (s.removeIf n call id done).inflight.lookup token = some other ↔
      s.inflight.lookup token = some other ∧ ¬(token = call.token ∧ other = id) := by
    intro token other
    simp only [RefreshState.removeIf]
    split
    · next hsame =>
        change AList.lookup token (s.inflight.erase call.token) = some other ↔ _
        rw [Table.lookup_erase_eq]
        split
        · next hself =>
            rw [hself, hsame]
            simpa using Eq.symm
        · next hne => simp [hne]
    · next hother =>
        refine ⟨fun hstored ↦ ⟨hstored, ?_⟩, And.left⟩
        rintro ⟨rfl, rfl⟩
        exact hother hstored
  have hcells : (s.removeIf n call id done).cells = s.cells := by
    simp only [RefreshState.removeIf]
    split
    · rfl
    · rfl
  have hnext : (s.removeIf n call id done).nextCell = s.nextCell := by
    simp only [RefreshState.removeIf]
    split
    · rfl
    · rfl
  have hcalls : ∀ m, (s.removeIf n call id done).calls.lookup m =
      if m = n then some { call with phase := .returned done } else s.calls.lookup m := by
    intro m
    simp only [RefreshState.removeIf]
    split
    · exact lookup_setPhase m
    · exact lookup_setPhase m
  refine ⟨?_, ?_, ?_, ?_, ?_, ?_⟩
  · rw [hcells, hnext]
    exact h.fresh
  · intro token other hstored
    rw [hcells]
    exact h.stored token other ((hinflight token other).mp hstored).1
  · intro other cell hcell hunfinished
    rw [hcells] at hcell
    refine (hinflight _ _).mpr ⟨h.unfinished other cell hcell hunfinished, ?_⟩
    rintro ⟨-, rfl⟩
    cases hfull.symm.trans hcell
    exact hunfinished done rfl
  · intro token other done' hstored hdone
    rw [hcells] at hdone
    obtain ⟨hbefore, hnot⟩ := (hinflight token other).mp hstored
    obtain ⟨executor, hexecutor, hsame, hreceived⟩ := h.finished token other done' hbefore hdone
    refine ⟨executor, ?_, hsame, hreceived⟩
    rw [hcalls, if_neg, hexecutor]
    intro hself
    rw [hself, hcall] at hexecutor
    cases hexecutor
    cases hphase.symm.trans hreceived
    exact hnot ⟨hsame.symm, rfl⟩
  · rw [hcells]
    exact h.owned
  · intro m other hother
    rw [hcalls] at hother
    split at hother
    · cases hother
      exact htoken
    · refine (h.backed m other hother).mono fun cell stored hcell ↦ ?_
      rw [hcells]
      exact hcell

theorem Coherent.getOrInit (h : s.Coherent) (hcall : s.calls.lookup n = some call)
    (hphase : call.phase = .holding id ∨ call.phase = .waiting id) :
    (s.getOrInit n call id).Coherent := by
  have hnot : ∀ id done, call.phase ≠ .received id done := by
    intro id done hreceived
    rcases hphase with hphase | hphase
    · cases hphase.symm.trans hreceived
    · cases hphase.symm.trans hreceived
  have hbacked := h.backed n call hcall
  obtain ⟨state, hlookup⟩ : ∃ state, s.cells.lookup id = some ⟨call.token, state⟩ := by
    rcases hphase with hphase | hphase
    · rw [hphase] at hbacked
      exact hbacked
    · rw [hphase] at hbacked
      exact hbacked
  rw [RefreshState.getOrInit, hlookup]
  cases state with
  | empty =>
      refine h.setCell hcall ⟨.empty, hlookup, .inl rfl⟩ hnot (fun done hdone ↦ (by cases hdone)) ?_
      change (s.setCell id (.running n)).cells.lookup id = _
      rw [lookup_setCell, if_pos rfl, hlookup]
      rfl
  | running m => exact h.setPhase hcall hnot ⟨_, hlookup⟩
  | full done =>
      exact h.setPhase hcall hnot ⟨hlookup, h.owned id call.token done hlookup⟩

theorem Coherent.complete (h : s.Coherent) (hcall : s.calls.lookup n = some call)
    (hphase : call.phase = .executing id) (outcome : RefreshOutcome) :
    (s.complete n call id outcome).Coherent := by
  have hlookup : s.Backs n call.token (.executing id) := hphase ▸ h.backed n call hcall
  refine h.setCell hcall ⟨_, hlookup, .inr rfl⟩ ?_ (fun done hdone ↦ ?_) ⟨?_, rfl⟩
  · intro cell done hreceived
    cases hphase.symm.trans hreceived
  · cases hdone
    exact ⟨rfl, rfl⟩
  · rw [lookup_setCell, if_pos rfl, hlookup]
    rfl

theorem Coherent.drop (h : s.Coherent) (hcall : s.calls.lookup n = some call) :
    (s.drop n call).Coherent := by
  rw [RefreshState.drop]
  split
  · next hphase =>
      refine h.setPhase hcall (fun id done hreceived ↦ ?_) trivial
      cases hphase.symm.trans hreceived
  · next hphase =>
      refine h.setPhase hcall (fun id done hreceived ↦ ?_) trivial
      cases hphase.symm.trans hreceived
  · next id hphase =>
      have hlookup : s.Backs n call.token (.executing id) := hphase ▸ h.backed n call hcall
      refine h.setCell hcall ⟨_, hlookup, .inr rfl⟩ (fun cell done hreceived ↦ ?_)
        (fun done hdone ↦ (by cases hdone)) trivial
      cases hphase.symm.trans hreceived
  · exact h

theorem Coherent.begin (h : s.Coherent) (token : String) : (s.begin n token).Coherent := by
  rw [RefreshState.begin]
  split
  · exact h
  · next hnone =>
      have hnone : s.calls.lookup n = none := by simpa using hnone
      refine ⟨h.fresh, h.stored, h.unfinished, ?_, h.owned, ?_⟩
      · intro other id done hstored hdone
        obtain ⟨executor, hexecutor, hsame, hreceived⟩ := h.finished other id done hstored hdone
        refine ⟨executor, (Table.lookup_insert_eq _).trans ?_, hsame, hreceived⟩
        rw [if_neg, hexecutor]
        intro hself
        rw [hself, hnone] at hexecutor
        cases hexecutor
      · intro m other hother
        rw [Table.lookup_insert_eq] at hother
        split at hother
        · cases hother
          trivial
        · exact h.backed m other hother

theorem Coherent.act (h : s.Coherent) (hcall : s.calls.lookup n = some call)
    (action : RefreshAction) : (s.act n call action).Coherent := by
  unfold RefreshState.act
  split
  · next hphase => exact h.take hcall hphase
  · next id hphase => exact h.getOrInit hcall (.inl hphase)
  · next id hphase => exact h.getOrInit hcall (.inr hphase)
  · next outcome id hphase => exact h.complete hcall hphase outcome
  · next id done hphase => exact h.removeIf hcall hphase
  · exact h.drop hcall
  · exact h

theorem Coherent.step (h : s.Coherent) (a : RefreshStep) : (s.step a).Coherent := by
  have hperform : (s.perform a).Coherent := by
    cases a with
    | begin n token => exact h.begin token
    | act n action =>
        rw [perform]
        cases hcall : s.calls.lookup n with
        | none => exact h
        | some call => exact h.act hcall action
  exact ⟨hperform.fresh, hperform.stored, hperform.unfinished, hperform.finished, hperform.owned,
    hperform.backed⟩

theorem Coherent.coalesced (h : s.Coherent) : s.Coalesced := by
  refine ⟨?_, ?_, ?_⟩
  · intro n m first second id id' hn hm htoken hfirst hsecond
    have hone : s.Backs n first.token (.executing id) := hfirst ▸ h.backed n first hn
    have htwo : s.Backs m second.token (.executing id') := hsecond ▸ h.backed m second hm
    -- both cells are the one that the map holds for the token
    have hleft := h.unfinished id _ hone fun done ↦ CellState.noConfusion
    have hright := h.unfinished id' _ htwo fun done ↦ CellState.noConfusion
    have hsame : id = id' := Option.some.inj (hleft.symm.trans (htoken ▸ hright))
    rw [hsame] at hone
    exact CellState.running.inj (RefreshCell.mk.inj (Option.some.inj (hone.symm.trans htwo))).2
  · intro n call done hcall hhas
    rcases hhas with hreturned | ⟨id, hreceived⟩
    · have hbacked : s.Backs n call.token (.returned done) := hreturned ▸ h.backed n call hcall
      exact hbacked
    · have hbacked : s.Backs n call.token (.received id done) := hreceived ▸ h.backed n call hcall
      exact hbacked.2
  · intro token hended id hstored cell done hcell hfull
    obtain ⟨state, hstate⟩ := h.stored token id hstored
    cases hcell.symm.trans hstate
    obtain rfl : state = .full done := hfull
    obtain ⟨call, hcall, htoken, hreceived⟩ := h.finished token id done hstored hcell
    rcases hended _ call hcall htoken with hdropped | ⟨_, hreturned⟩
    · cases hreceived.symm.trans hdropped
    · cases hreceived.symm.trans hreturned

def Stakes (s : RefreshState) : RefreshPhase → Execution → Prop
  | .holding id, done => ∃ cell, s.cells.lookup id = some cell ∧ cell.state = .full done
  | .waiting id, done => ∃ cell, s.cells.lookup id = some cell ∧ cell.state = .full done
  | .received _ own, done => own = done
  | .returned own, done => own = done
  | _, _ => False

def Punctual (s : RefreshState) : Prop :=
  ∀ n call, s.calls.lookup n = some call →
    call.beganAt ≤ s.now ∧ ∀ done, s.Stakes call.phase done → call.beganAt ≤ done.completedAt

theorem punctual_new : new.Punctual := by
  intro n call h
  cases h

theorem Punctual.fresh (h : s.Punctual) : s.Fresh := by
  intro n call done hcall hhas
  refine (h n call hcall).2 done ?_
  rcases hhas with hreturned | ⟨id, hreceived⟩
  · rw [hreturned]
    rfl
  · rw [hreceived]
    rfl

theorem Punctual.of_stakes (h : s.Punctual) (hnow : t.now = s.now) (hcalls : t.calls = s.calls)
    (hstakes : ∀ phase done, t.Stakes phase done → s.Stakes phase done ∨ s.now ≤ done.completedAt) :
    t.Punctual := by
  intro n call hcall
  rw [hcalls] at hcall
  obtain ⟨hbegan, hearlier⟩ := h n call hcall
  refine ⟨hnow.symm ▸ hbegan, fun done hdone ↦ ?_⟩
  rcases hstakes call.phase done hdone with hbefore | hlater
  · exact hearlier done hbefore
  · omega

theorem Punctual.setPhase (h : s.Punctual) (hcall : s.calls.lookup n = some call)
    (hnext : ∀ done, s.Stakes phase done → call.beganAt ≤ done.completedAt) :
    (s.setPhase n call phase).Punctual := by
  intro m other hother
  rw [lookup_setPhase] at hother
  split at hother
  · cases hother
    exact ⟨(h n call hcall).1, hnext⟩
  · exact h m other hother

theorem Punctual.setCell (h : s.Punctual)
    (hfull : ∀ done, state = .full done → s.now ≤ done.completedAt) :
    (s.setCell id state).Punctual := by
  have hfound : ∀ other done,
      (∃ cell, (s.setCell id state).cells.lookup other = some cell ∧ cell.state = .full done) →
      (∃ cell, s.cells.lookup other = some cell ∧ cell.state = .full done) ∨
        s.now ≤ done.completedAt := by
    rintro other done ⟨cell, hcell, hdone⟩
    rw [lookup_setCell] at hcell
    split at hcell
    · obtain ⟨old, -, rfl⟩ := Option.map_eq_some_iff.mp hcell
      exact .inr (hfull done hdone)
    · exact .inl ⟨cell, hcell, hdone⟩
  refine h.of_stakes rfl rfl fun phase done hdone ↦ ?_
  cases phase with
  | created => exact .inl hdone
  | holding other => exact hfound other done hdone
  | waiting other => exact hfound other done hdone
  | executing other => exact .inl hdone
  | received other own => exact .inl hdone
  | returned own => exact .inl hdone
  | dropped => exact .inl hdone

theorem Punctual.install (h : s.Punctual) (token : String) : (s.install token).Punctual := by
  have hfound : ∀ other done,
      (∃ cell, (s.install token).cells.lookup other = some cell ∧ cell.state = .full done) →
      ∃ cell, s.cells.lookup other = some cell ∧ cell.state = .full done := by
    rintro other done ⟨cell, hcell, hdone⟩
    rw [RefreshState.install, Table.lookup_insert_eq] at hcell
    split at hcell
    · cases hcell
      cases hdone
    · exact ⟨cell, hcell, hdone⟩
  refine h.of_stakes rfl rfl fun phase done hdone ↦ .inl ?_
  cases phase with
  | created => exact hdone
  | holding other => exact hfound other done hdone
  | waiting other => exact hfound other done hdone
  | executing other => exact hdone
  | received other own => exact hdone
  | returned own => exact hdone
  | dropped => exact hdone

theorem Punctual.getOrInit (h : s.Punctual) (hcall : s.calls.lookup n = some call)
    (hphase : call.phase = .holding id ∨ call.phase = .waiting id) :
    (s.getOrInit n call id).Punctual := by
  have hearlier : ∀ done,
      (∃ cell, s.cells.lookup id = some cell ∧ cell.state = .full done) →
        call.beganAt ≤ done.completedAt := by
    intro done hdone
    refine (h n call hcall).2 done ?_
    rcases hphase with hphase | hphase
    · rw [hphase]
      exact hdone
    · rw [hphase]
      exact hdone
  rw [RefreshState.getOrInit]
  split
  · next done hfull =>
      refine h.setPhase hcall fun own hown ↦ ?_
      obtain ⟨cell, hcell, hstate⟩ := Option.map_eq_some_iff.mp hfull
      exact hearlier own ⟨cell, hcell, hown ▸ hstate⟩
  · exact (h.setCell fun done hdone ↦ (by cases hdone)).setPhase hcall fun own hown ↦ hown.elim
  · exact h.setPhase hcall hearlier
  · exact h

theorem Punctual.drop (h : s.Punctual) (hcall : s.calls.lookup n = some call) :
    (s.drop n call).Punctual := by
  rw [RefreshState.drop]
  split
  · exact h.setPhase hcall fun own hown ↦ hown.elim
  · exact h.setPhase hcall fun own hown ↦ hown.elim
  · exact (h.setCell fun done hdone ↦ (by cases hdone)).setPhase hcall fun own hown ↦ hown.elim
  · exact h

theorem Punctual.take (h : s.Punctual) (hcall : s.calls.lookup n = some call)
    (hphase : call.phase = .created) (hjoins : s.Joins (.act n .take)) :
    (s.take n call).Punctual := by
  rw [RefreshState.take]
  split
  · next id hstored =>
      refine h.setPhase hcall fun done hdone ↦ ?_
      obtain ⟨cell, hcell, hfull⟩ := hdone
      exact hjoins call id cell done hcall hphase hstored hcell hfull
  · refine (h.install call.token).setPhase hcall fun done hdone ↦ ?_
    obtain ⟨cell, hcell, hfull⟩ := hdone
    rw [RefreshState.install, Table.lookup_insert_eq, if_pos rfl] at hcell
    cases hcell
    cases hfull

theorem Punctual.removeIf {done : Execution} (h : s.Punctual)
    (hcall : s.calls.lookup n = some call) (hphase : call.phase = .received id done) :
    (s.removeIf n call id done).Punctual := by
  have hown : ∀ own, done = own → call.beganAt ≤ own.completedAt := by
    rintro own rfl
    refine (h n call hcall).2 done ?_
    rw [hphase]
    rfl
  simp only [RefreshState.removeIf]
  split
  · exact Punctual.setPhase (h.of_stakes rfl rfl fun phase own hstakes ↦ .inl hstakes) hcall hown
  · exact h.setPhase hcall hown

theorem Punctual.act (h : s.Punctual) (hcall : s.calls.lookup n = some call)
    (action : RefreshAction) (hjoins : s.Joins (.act n action)) :
    (s.act n call action).Punctual := by
  unfold RefreshState.act
  split
  · next hphase => exact h.take hcall hphase hjoins
  · next id hphase => exact h.getOrInit hcall (.inl hphase)
  · next id hphase => exact h.getOrInit hcall (.inr hphase)
  · next outcome id hphase =>
      refine (h.setCell fun done hdone ↦ ?_).setPhase hcall fun own hown ↦ ?_
      · cases hdone
        exact Nat.le_refl _
      · obtain rfl : _ = own := hown
        exact (h n call hcall).1
  · next id done hphase => exact h.removeIf hcall hphase
  · exact h.drop hcall
  · exact h

theorem now_act (action : RefreshAction) : (s.act n call action).now = s.now := by
  have hget : ∀ id, (s.getOrInit n call id).now = s.now := by
    intro id
    rw [RefreshState.getOrInit]
    split
    · rfl
    · rfl
    · rfl
    · rfl
  unfold RefreshState.act
  split
  · rw [RefreshState.take]
    split
    · rfl
    · rfl
  · exact hget _
  · exact hget _
  · rfl
  · simp only [RefreshState.removeIf]
    split
    · rfl
    · rfl
  · rw [RefreshState.drop]
    split
    · rfl
    · rfl
    · rfl
    · rfl
  · rfl

theorem Punctual.begin (h : s.Punctual) (token : String) : (s.begin n token).Punctual := by
  rw [RefreshState.begin]
  split
  · exact h
  · intro m other hother
    rw [Table.lookup_insert_eq] at hother
    split at hother
    · cases hother
      exact ⟨Nat.le_refl _, fun done hdone ↦ hdone.elim⟩
    · exact h m other hother

theorem now_begin (token : String) : (s.begin n token).now = s.now := by
  rw [RefreshState.begin]
  split
  · rfl
  · rfl

theorem Punctual.step (h : s.Punctual) (a : RefreshStep) (hjoins : s.Joins a) :
    (s.step a).Punctual := by
  have hperform : (s.perform a).Punctual ∧ (s.perform a).now = s.now := by
    cases a with
    | begin n token => exact ⟨h.begin token, now_begin token⟩
    | act n action =>
        rw [perform]
        cases hcall : s.calls.lookup n with
        | none => exact ⟨h, rfl⟩
        | some call => exact ⟨h.act hcall action hjoins, now_act action⟩
  obtain ⟨hpunctual, hnow⟩ := hperform
  intro n call hcall
  obtain ⟨hbegan, hearlier⟩ := hpunctual n call hcall
  rw [hnow] at hbegan
  exact ⟨Nat.le_succ_of_le hbegan, hearlier⟩

theorem receives_of_full {cell : RefreshCell} {done : Execution}
    (hcall : s.calls.lookup n = some call) (hphase : call.phase = .holding id)
    (hcell : s.cells.lookup id = some cell) (hfull : cell.state = .full done) :
    (s.step (.act n .getOrInit)).calls.lookup n =
      some { call with phase := .received id done } := by
  have hact : s.act n call .getOrInit = s.setPhase n call (.received id done) := by
    simp only [act, hphase, getOrInit, hcell, Option.map_some, hfull]
  simp only [step, perform, hcall, Option.elim_some, hact]
  exact (lookup_setPhase n).trans (if_pos rfl)

theorem not_fresh_of_not_joins (h : ¬s.Joins (.act n .take)) :
    ¬((s.step (.act n .take)).step (.act n .getOrInit)).Fresh := by
  intro hfresh
  refine h fun call id cell done hcall hphase hstored hcell hfull ↦ ?_
  have htake : s.step (.act n .take) =
      { s.setPhase n call (.holding id) with now := s.now + 1 } := by
    simp only [step, perform, hcall, Option.elim_some, act, hphase, take, hstored]
  rw [htake] at hfresh
  have hreceived := receives_of_full (s := { s.setPhase n call (.holding id) with now := s.now + 1 })
    ((lookup_setPhase n).trans (if_pos rfl)) rfl hcell hfull
  have hlate := hfresh n _ done hreceived (.inr ⟨id, rfl⟩)
  exact hlate

end RefreshState

/-- A call that begins when the first is over, before that has removed the cell. -/
def lateRefresh : List RefreshStep :=
  [.begin 0 "t", .act 0 .take, .act 0 .getOrInit,
    .act 0 (.complete (.error (.internal "token signing failed"))), .begin 1 "t", .act 1 .take,
    .act 1 .getOrInit]

end Zaowutai.Auth
