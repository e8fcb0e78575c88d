import Mathlib.Data.List.Infix

/-!
# Runs of a labelled system

A system is a step function from a state and a label to the next state.  A run
is a list of labels.  `Throughout` speaks about every state a run passes
through and `Meets` about every label in the state where it is performed, so
that an invariant is proved from one step and then carried along any run.
-/

namespace Zaowutai.Lib

variable {σ ι : Type*}

/-- The state reached from `s` by performing the labels in order. -/
def run (step : σ → ι → σ) (s : σ) (as : List ι) : σ := as.foldl step s

/-- The predicate holds in every state the run passes through. -/
def Throughout (step : σ → ι → σ) (P : σ → Prop) : σ → List ι → Prop
  | s, [] => P s
  | s, a :: as => P s ∧ Throughout step P (step s a) as

/-- Every label of the run satisfies the guard in the state where it is performed. -/
def Meets (step : σ → ι → σ) (guard : σ → ι → Prop) : σ → List ι → Prop
  | _, [] => True
  | s, a :: as => guard s a ∧ Meets step guard (step s a) as

instance Meets.decidable (step : σ → ι → σ) (guard : σ → ι → Prop)
    [∀ s a, Decidable (guard s a)] : ∀ s as, Decidable (Meets step guard s as)
  | _, [] => isTrue trivial
  | s, a :: as =>
      have := Meets.decidable step guard (step s a) as
      inferInstanceAs (Decidable (guard s a ∧ Meets step guard (step s a) as))

section Basic

variable {step : σ → ι → σ} {P Q : σ → Prop} {guard : σ → ι → Prop} {s : σ}

@[simp] theorem run_nil : run step s [] = s := rfl

@[simp] theorem run_cons (a : ι) (as : List ι) :
    run step s (a :: as) = run step (step s a) as := rfl

@[simp] theorem run_append (as bs : List ι) :
    run step s (as ++ bs) = run step (run step s as) bs :=
  List.foldl_append

theorem Throughout.head {as : List ι} (h : Throughout step P s as) : P s := by
  cases as with
  | nil => exact h
  | cons a as => exact h.1

theorem Throughout.last {as : List ι} (h : Throughout step P s as) : P (run step s as) := by
  induction as generalizing s with
  | nil => exact h
  | cons a as ih => exact ih h.2

theorem throughout_append {as bs : List ι} :
    Throughout step P s (as ++ bs) ↔
      Throughout step P s as ∧ Throughout step P (run step s as) bs := by
  induction as generalizing s with
  | nil => exact ⟨fun h ↦ ⟨h.head, h⟩, fun h ↦ h.2⟩
  | cons a as ih => simp only [List.cons_append, Throughout, run_cons, ih, and_assoc]

theorem meets_append {as bs : List ι} :
    Meets step guard s (as ++ bs) ↔
      Meets step guard s as ∧ Meets step guard (run step s as) bs := by
  induction as generalizing s with
  | nil => simp [Meets]
  | cons a as ih => simp only [List.cons_append, Meets, run_cons, ih, and_assoc]

theorem meets_and {guard' : σ → ι → Prop} {as : List ι} :
    Meets step (fun s a ↦ guard s a ∧ guard' s a) s as ↔
      Meets step guard s as ∧ Meets step guard' s as := by
  induction as generalizing s with
  | nil => simp [Meets]
  | cons a as ih => simp only [Meets, ih, and_assoc, and_left_comm]

theorem meets_of_forall {law : ι → Prop} {as : List ι} (h : ∀ a ∈ as, law a) :
    Meets step (fun _ a ↦ law a) s as := by
  induction as generalizing s with
  | nil => trivial
  | cons a as ih => exact ⟨h a List.mem_cons_self, ih fun b hb ↦ h b (List.mem_cons_of_mem a hb)⟩

theorem throughout_iff_prefixes {as : List ι} :
    Throughout step P s as ↔ ∀ pre, pre <+: as → P (run step s pre) := by
  constructor
  · rintro h pre ⟨post, rfl⟩
    exact (throughout_append.mp h).1.last
  · intro h
    induction as generalizing s with
    | nil => exact h [] List.nil_prefix
    | cons a as ih =>
        refine ⟨h [] List.nil_prefix, ih fun pre hpre ↦ ?_⟩
        exact h (a :: pre) (List.cons_prefix_cons.mpr ⟨rfl, hpre⟩)

theorem throughout_and_meets {law : σ → ι → Prop} {as : List ι} :
    Throughout step P s as ∧ Meets step law s as ↔
      P s ∧ Meets step (fun s a ↦ P (step s a) ∧ law s a) s as := by
  induction as generalizing s with
  | nil => simp [Throughout, Meets]
  | cons a as ih =>
      constructor
      · rintro ⟨⟨hs, hP⟩, hlaw, hrest⟩
        obtain ⟨hnext, htail⟩ := ih.mp ⟨hP, hrest⟩
        exact ⟨hs, ⟨hnext, hlaw⟩, htail⟩
      · rintro ⟨hs, ⟨hnext, hlaw⟩, htail⟩
        obtain ⟨hP, hrest⟩ := ih.mpr ⟨hnext, htail⟩
        exact ⟨⟨hs, hP⟩, hlaw, hrest⟩

end Basic

section Invariant

variable {step : σ → ι → σ} {P Q : σ → Prop} {guard : σ → ι → Prop} {s : σ}

theorem throughout_of_meets (hstep : ∀ s a, P s → guard s a → P (step s a)) (h0 : P s)
    {as : List ι} (h : Meets step guard s as) : Throughout step P s as := by
  induction as generalizing s with
  | nil => exact h0
  | cons a as ih => exact ⟨h0, ih (hstep s a h0 h.1) h.2⟩

theorem run_of_meets (hstep : ∀ s a, P s → guard s a → P (step s a)) (h0 : P s)
    {as : List ι} (h : Meets step guard s as) : P (run step s as) :=
  (throughout_of_meets hstep h0 h).last

theorem run_invariant (hstep : ∀ s a, P s → P (step s a)) (h0 : P s) (as : List ι) :
    P (run step s as) := by
  induction as generalizing s with
  | nil => exact h0
  | cons a as ih => exact ih (hstep s a h0)

theorem Meets.mono {guard' : σ → ι → Prop} (himp : ∀ s a, guard s a → guard' s a)
    {as : List ι} (h : Meets step guard s as) : Meets step guard' s as := by
  induction as generalizing s with
  | nil => trivial
  | cons a as ih => exact ⟨himp s a h.1, ih h.2⟩

theorem Throughout.mono (himp : ∀ s, P s → Q s) {as : List ι} (h : Throughout step P s as) :
    Throughout step Q s as := by
  induction as generalizing s with
  | nil => exact himp s h
  | cons a as ih => exact ⟨himp s h.1, ih h.2⟩

theorem meets_of_throughout (hinv : ∀ s a, Q s → Q (step s a))
    (hstep : ∀ s a, Q s → P s → P (step s a) → guard s a) (hQ : Q s)
    {as : List ι} (h : Throughout step P s as) : Meets step guard s as := by
  induction as generalizing s with
  | nil => trivial
  | cons a as ih => exact ⟨hstep s a hQ h.1 h.2.head, ih (hinv s a hQ) h.2⟩

theorem throughout_iff_meets_of_invariant {premise : σ → ι → Prop} (hsound : ∀ s, Q s → P s)
    (hkeep : ∀ s a, Q s → premise s a → guard s a → Q (step s a))
    (hneeds : ∀ s a, Q s → premise s a → P (step s a) → guard s a) (hQ : Q s) {as : List ι}
    (h : Meets step premise s as) : Throughout step P s as ↔ Meets step guard s as := by
  induction as generalizing s with
  | nil => exact iff_of_true (hsound s hQ) trivial
  | cons a as ih =>
      obtain ⟨ha, has⟩ := h
      constructor
      · rintro ⟨_, hrest⟩
        have hg := hneeds s a hQ ha hrest.head
        exact ⟨hg, (ih (hkeep s a hQ ha hg) has).mp hrest⟩
      · rintro ⟨hg, hrest⟩
        exact ⟨hsound s hQ, (ih (hkeep s a hQ ha hg) has).mpr hrest⟩

theorem throughout_iff_meets_of_meets {premise : σ → ι → Prop} (hinv : ∀ s a, Q s → Q (step s a))
    (hstep : ∀ s a, Q s → P s → premise s a → (P (step s a) ↔ guard s a)) (hQ : Q s) (hP : P s)
    {as : List ι} (h : Meets step premise s as) :
    Throughout step P s as ↔ Meets step guard s as := by
  refine throughout_iff_meets_of_invariant (Q := fun s ↦ Q s ∧ P s) (fun s hs ↦ hs.2) ?_ ?_
    ⟨hQ, hP⟩ h
  · exact fun s a hs ha hg ↦ ⟨hinv s a hs.1, (hstep s a hs.1 hs.2 ha).mpr hg⟩
  · exact fun s a hs ha hnext ↦ (hstep s a hs.1 hs.2 ha).mp hnext

/-- Where a guard is exactly what one step needs, it is exactly what a run needs.  The
auxiliary invariant `Q` may be used to read the guard off a step. -/
theorem throughout_iff_meets (hinv : ∀ s a, Q s → Q (step s a))
    (hstep : ∀ s a, Q s → P s → (P (step s a) ↔ guard s a)) (hQ : Q s) (hP : P s)
    {as : List ι} : Throughout step P s as ↔ Meets step guard s as :=
  throughout_iff_meets_of_meets hinv (fun s a hs h _ ↦ hstep s a hs h) hQ hP
    (meets_of_forall fun _ _ ↦ trivial)

theorem meets_of_meets {law : σ → ι → Prop} (hinv : ∀ s a, Q s → guard s a → Q (step s a))
    (hlaw : ∀ s a, Q s → guard s a → law s a) (hQ : Q s) {as : List ι}
    (h : Meets step guard s as) : Meets step law s as := by
  induction as generalizing s with
  | nil => trivial
  | cons a as ih => exact ⟨hlaw s a hQ h.1, ih (hinv s a hQ h.1) h.2⟩

theorem meets_iff_meets {law : σ → ι → Prop} (hinv : ∀ s a, Q s → guard s a → Q (step s a))
    (hstep : ∀ s a, Q s → (law s a ↔ guard s a)) (hQ : Q s) {as : List ι} :
    Meets step law s as ↔ Meets step guard s as := by
  induction as generalizing s with
  | nil => exact Iff.rfl
  | cons a as ih =>
      constructor
      · rintro ⟨hl, h⟩
        have hg := (hstep s a hQ).mp hl
        exact ⟨hg, (ih (hinv s a hQ hg)).mp h⟩
      · rintro ⟨hg, h⟩
        exact ⟨(hstep s a hQ).mpr hg, (ih (hinv s a hQ hg)).mpr h⟩

theorem meets_iff_meets_of_meets {law premise : σ → ι → Prop}
    (hinv : ∀ s a, Q s → premise s a → guard s a → Q (step s a))
    (hstep : ∀ s a, Q s → premise s a → (law s a ↔ guard s a)) (hQ : Q s) {as : List ι}
    (h : Meets step premise s as) : Meets step law s as ↔ Meets step guard s as := by
  have hboth : Meets step (fun s a ↦ law s a ∧ premise s a) s as ↔
      Meets step (fun s a ↦ guard s a ∧ premise s a) s as :=
    meets_iff_meets (fun s a hs ha ↦ hinv s a hs ha.2 ha.1)
      (fun s a hs ↦ and_congr_left (hstep s a hs)) hQ
  rw [meets_and, meets_and] at hboth
  exact ⟨fun hlaw ↦ (hboth.mp ⟨hlaw, h⟩).1, fun hguard ↦ (hboth.mpr ⟨hguard, h⟩).1⟩

end Invariant

end Zaowutai.Lib

/-!
## Laws of a history

The events of a system are kept in the order in which they happen.  A law says
of an event what has to have happened before it.
-/

namespace Zaowutai.Lib

variable {ε : Type*} {law : List ε → ε → Prop} {trace events : List ε} {e : ε}

/-- Every event obeys the law in view of the events before it. -/
def Lawful (law : List ε → ε → Prop) (trace : List ε) : Prop :=
  Meets (fun before e ↦ before ++ [e]) law [] trace

theorem run_snoc (before events : List ε) :
    run (fun before e ↦ before ++ [e]) before events = before ++ events := by
  induction events generalizing before with
  | nil => exact (List.append_nil before).symm
  | cons e events ih => rw [run_cons, ih, List.append_assoc, List.singleton_append]

theorem lawful_append :
    Lawful law (trace ++ events) ↔
      Lawful law trace ∧ Meets (fun before e ↦ before ++ [e]) law trace events := by
  rw [Lawful, meets_append, run_snoc, List.nil_append]
  exact Iff.rfl

theorem lawful_nil : Lawful law [] := trivial

theorem lawful_snoc : Lawful law (trace ++ [e]) ↔ Lawful law trace ∧ law trace e := by
  rw [lawful_append]
  exact and_congr_right fun _ ↦ and_iff_left trivial

theorem Lawful.append (h : Lawful law trace) (hfree : ∀ e ∈ events, ∀ before, law before e) :
    Lawful law (trace ++ events) := by
  induction events generalizing trace with
  | nil => rwa [List.append_nil]
  | cons e events ih =>
      rw [List.append_cons]
      have hhead := lawful_snoc.mpr ⟨h, hfree e List.mem_cons_self trace⟩
      exact ih hhead fun e he ↦ hfree e (List.mem_cons_of_mem _ he)

theorem lawful_iff :
    Lawful law trace ↔ ∀ before e after, trace = before ++ e :: after → law before e := by
  constructor
  · rintro h before e after rfl
    rw [List.append_cons, lawful_append] at h
    exact (lawful_snoc.mp h.1).2
  · intro h
    induction trace using List.reverseRecOn with
    | nil => trivial
    | append_singleton trace e ih =>
        refine lawful_snoc.mpr ⟨ih ?_, h trace e [] rfl⟩
        rintro before e' after rfl
        exact h before e' (after ++ [e]) (by simp)

end Zaowutai.Lib
