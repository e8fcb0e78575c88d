import Mathlib.Data.List.Basic

/-!
# Framing of a chunked stream

A stream arrives in chunks and is worked through line by line.  What follows the
last separator waits in a buffer for the next chunk.  However the stream is cut,
the lines that have been worked through and the rest that waits are those of the
stream received so far.
-/

namespace Zaowutai.Lib

section Thread

variable {σ α ω : Type*} (f : σ → α → σ × List ω)

/-- Works through a list with a state that is handed on, and collects what each element yields. -/
def thread : σ → List α → σ × List ω
  | s, [] => (s, [])
  | s, a :: as => ((thread (f s a).1 as).1, (f s a).2 ++ (thread (f s a).1 as).2)

variable {f} {s : σ}

@[simp] theorem thread_nil : thread f s [] = (s, []) := rfl

@[simp] theorem thread_cons (a : α) (as : List α) :
    thread f s (a :: as) =
      ((thread f (f s a).1 as).1, (f s a).2 ++ (thread f (f s a).1 as).2) := rfl

theorem thread_append (as bs : List α) :
    thread f s (as ++ bs) =
      ((thread f (thread f s as).1 bs).1, (thread f s as).2 ++ (thread f (thread f s as).1 bs).2) := by
  induction as generalizing s with
  | nil => rfl
  | cons a as ih =>
      rw [List.cons_append, thread_cons, ih, thread_cons]
      simp only [List.append_assoc]

/-- Elements that yield nothing and keep the state may be left out. -/
theorem thread_filter {p : α → Bool} (hskip : ∀ s a, p a = false → f s a = (s, [])) (as : List α) :
    thread f s (as.filter p) = thread f s as := by
  induction as generalizing s with
  | nil => rfl
  | cons a as ih =>
      by_cases ha : p a = true
      · rw [List.filter_cons_of_pos ha, thread_cons, thread_cons, ih]
      · have hsame := hskip s a (Bool.not_eq_true _ ▸ ha)
        rw [List.filter_cons_of_neg ha, thread_cons, hsame, ih]
        rfl

theorem thread_map {γ : Type*} (g : γ → α) (cs : List γ) :
    thread f s (cs.map g) = thread (fun s c ↦ f s (g c)) s cs := by
  induction cs generalizing s with
  | nil => rfl
  | cons c cs ih => rw [List.map_cons, thread_cons, thread_cons, ih]

/-- One side sees its own elements only: they decide what they yield to it, and those of the other
side change nothing that it sees. -/
structure Separates {V : Type*} (f : σ → α → σ × List ω) (view : σ → V) (mine : α → Bool)
    (shown : ω → Bool) : Prop where
  yields : ∀ s a, ∀ o ∈ (f s a).2, shown o = mine a
  other : ∀ s a, mine a = false → view (f s a).1 = view s
  own : ∀ s s' a, mine a = true → view s = view s' →
    view (f s a).1 = view (f s' a).1 ∧ (f s a).2 = (f s' a).2

theorem Separates.thread {V : Type*} {view : σ → V} {mine : α → Bool} {shown : ω → Bool} {s' : σ}
    (h : Separates f view mine shown) (hview : view s = view s') (as : List α) :
    view (thread f s as).1 = view (thread f s' (as.filter mine)).1 ∧
      (Lib.thread f s as).2.filter shown = (Lib.thread f s' (as.filter mine)).2 := by
  induction as generalizing s s' with
  | nil => exact ⟨hview, rfl⟩
  | cons a as ih =>
      rw [thread_cons, List.filter_append]
      cases ha : mine a with
      | true =>
          obtain ⟨hnext, hyields⟩ := h.own s s' a ha hview
          obtain ⟨hlast, hrest⟩ := ih hnext
          have hall : (f s a).2.filter shown = (f s a).2 :=
            List.filter_eq_self.mpr fun o ho ↦ (h.yields s a o ho).trans ha
          rw [List.filter_cons_of_pos ha, thread_cons, hall, hrest, hyields]
          exact ⟨hlast, rfl⟩
      | false =>
          obtain ⟨hlast, hrest⟩ := ih ((h.other s a ha).trans hview)
          have hnone : (f s a).2.filter shown = [] :=
            List.filter_eq_nil_iff.mpr fun o ho ↦ by simp [h.yields s a o ho, ha]
          rw [List.filter_cons_of_neg (by simp [ha]), hnone, hrest]
          exact ⟨hlast, rfl⟩

end Thread

section Lines

variable {β : Type*} [BEq β] [LawfulBEq β] {sep : β}

def completeLines (sep : β) (bytes : List β) : List (List β) := (bytes.splitOn sep).dropLast

def lastLine (sep : β) (bytes : List β) : List β :=
  (bytes.splitOn sep).getLast (List.splitOn_ne_nil sep bytes)

omit [LawfulBEq β] in
theorem completeLines_append_lastLine (sep : β) (bytes : List β) :
    completeLines sep bytes ++ [lastLine sep bytes] = bytes.splitOn sep :=
  List.dropLast_append_getLast (List.splitOn_ne_nil sep bytes)

theorem completeLines_of_notMem {bytes : List β} (h : sep ∉ bytes) :
    completeLines sep bytes = [] := by
  rw [completeLines, List.splitOn_eq_singleton h]
  rfl

theorem lastLine_of_notMem {bytes : List β} (h : sep ∉ bytes) : lastLine sep bytes = bytes := by
  have hlast := completeLines_append_lastLine sep bytes
  rw [completeLines_of_notMem h, List.splitOn_eq_singleton h] at hlast
  exact List.singleton_injective hlast

theorem splitOn_line {line : List β} (h : sep ∉ line) (rest : List β) :
    (line ++ sep :: rest).splitOn sep = line :: rest.splitOn sep :=
  List.splitOn_append_cons_self_of_not_mem h rest

theorem completeLines_line {line : List β} (h : sep ∉ line) (rest : List β) :
    completeLines sep (line ++ sep :: rest) = line :: completeLines sep rest := by
  rw [completeLines, splitOn_line h, List.dropLast_cons_of_ne_nil (List.splitOn_ne_nil sep rest)]
  rfl

theorem lastLine_line {line : List β} (h : sep ∉ line) (rest : List β) :
    lastLine sep (line ++ sep :: rest) = lastLine sep rest := by
  have hlast := completeLines_append_lastLine sep (line ++ sep :: rest)
  rw [completeLines_line h, splitOn_line h, ← completeLines_append_lastLine sep rest,
    List.cons_append, List.cons_inj_right, List.append_cancel_left_eq] at hlast
  exact List.singleton_injective hlast

@[elab_as_elim]
theorem lines_induction {motive : List β → Prop} (rest : ∀ bytes, sep ∉ bytes → motive bytes)
    (line : ∀ line bytes, sep ∉ line → motive bytes → motive (line ++ sep :: bytes))
    (bytes : List β) : motive bytes := by
  induction hlength : bytes.length using Nat.strongRecOn generalizing bytes with
  | ind n ih =>
      by_cases hmem : sep ∈ bytes
      · obtain ⟨first, others, rfl, hfirst⟩ := List.eq_append_cons_of_mem hmem
        have hshorter : others.length < n := by
          rw [← hlength, List.length_append, List.length_cons]
          omega
        exact line first others hfirst (ih _ hshorter others rfl)
      · exact rest bytes hmem

theorem line_of_idxOf? {bytes : List β} {i : Nat} (h : bytes.idxOf? sep = some i) :
    i < bytes.length ∧ sep ∉ bytes.take i ∧ bytes.take (i + 1) = bytes.take i ++ [sep] ∧
      bytes = bytes.take i ++ sep :: bytes.drop (i + 1) := by
  obtain ⟨hlt, hget, hbefore⟩ := List.idxOf?_eq_some_iff.mp h
  refine ⟨hlt, ?_, ?_, ?_⟩
  · intro hmem
    obtain ⟨j, hj, hsep⟩ := List.mem_take_iff_getElem.mp hmem
    exact hbefore j (by omega) hsep
  · rw [List.take_succ_eq_append_getElem hlt, hget]
  · rw [← hget, ← List.drop_eq_getElem_cons hlt, List.take_append_drop]

theorem lines_of_idxOf? {bytes : List β} {i : Nat} (h : bytes.idxOf? sep = some i) :
    completeLines sep bytes = bytes.take i :: completeLines sep (bytes.drop (i + 1)) ∧
      lastLine sep bytes = lastLine sep (bytes.drop (i + 1)) := by
  obtain ⟨-, hline, -, hbytes⟩ := line_of_idxOf? h
  constructor
  · conv_lhs => rw [hbytes]
    exact completeLines_line hline _
  · conv_lhs => rw [hbytes]
    exact lastLine_line hline _

theorem lines_append (sep : β) (xs ys : List β) :
    completeLines sep (xs ++ ys) =
        completeLines sep xs ++ completeLines sep (lastLine sep xs ++ ys) ∧
      lastLine sep (xs ++ ys) = lastLine sep (lastLine sep xs ++ ys) := by
  induction xs using @lines_induction β _ _ sep with
  | rest xs hfree =>
      rw [completeLines_of_notMem hfree, lastLine_of_notMem hfree]
      exact ⟨rfl, rfl⟩
  | line line xs hline ih =>
      obtain ⟨hcomplete, hlast⟩ := ih
      rw [List.append_assoc, List.cons_append, completeLines_line hline, completeLines_line hline,
        lastLine_line hline, lastLine_line hline, hcomplete]
      exact ⟨rfl, hlast⟩

theorem sep_notMem_lastLine (sep : β) (bytes : List β) : sep ∉ lastLine sep bytes := by
  induction bytes using @lines_induction β _ _ sep with
  | rest bytes hfree => rwa [lastLine_of_notMem hfree]
  | line line bytes hline ih => rwa [lastLine_line hline]

end Lines

section Framer

variable {β σ ω : Type*} [BEq β] [LawfulBEq β] {sep : β} {handle : σ → List β → σ × List ω}

/-- The rest that waits for its separator, and the state in which the next line is handled. -/
structure Framer (β σ : Type*) where
  buffer : List β
  state : σ

def Framer.push (sep : β) (handle : σ → List β → σ × List ω) (m : Framer β σ) (chunk : List β) :
    Framer β σ × List ω :=
  let handled := thread handle m.state (completeLines sep (m.buffer ++ chunk))
  (⟨lastLine sep (m.buffer ++ chunk), handled.1⟩, handled.2)

theorem Framer.push_append (m : Framer β σ) (xs ys : List β) :
    m.push sep handle (xs ++ ys) =
      (((m.push sep handle xs).1.push sep handle ys).1,
        (m.push sep handle xs).2 ++ ((m.push sep handle xs).1.push sep handle ys).2) := by
  obtain ⟨hcomplete, hlast⟩ := lines_append sep (m.buffer ++ xs) ys
  rw [List.append_assoc] at hcomplete hlast
  simp only [Framer.push, hcomplete, hlast, thread_append]

theorem Framer.push_nil {m : Framer β σ} (h : sep ∉ m.buffer) :
    m.push sep handle [] = (m, []) := by
  simp only [Framer.push, List.append_nil, completeLines_of_notMem h, lastLine_of_notMem h,
    thread_nil]

theorem Framer.thread_push {m : Framer β σ} (h : sep ∉ m.buffer) (chunks : List (List β)) :
    thread (Framer.push sep handle) m chunks = m.push sep handle chunks.flatten := by
  induction chunks generalizing m with
  | nil => exact (Framer.push_nil h).symm
  | cons chunk chunks ih =>
      have hfree : sep ∉ (m.push sep handle chunk).1.buffer := sep_notMem_lastLine sep _
      rw [thread_cons, ih hfree, List.flatten_cons, Framer.push_append]

end Framer

end Zaowutai.Lib

/-!
## Texts with separators

A text is cut at a separator once, a given number of times, or everywhere.
Pairs that are written with one separator between the halves and another
between the pairs are read back when no half has the wrong separator in it.
-/

namespace Zaowutai.Lib

variable {α : Type*}

theorem not_separator_of_mem_splitOnP {p : α → Bool} {xs piece : List α}
    (h : piece ∈ xs.splitOnP p) : ∀ x ∈ piece, p x = false := by
  induction xs generalizing piece with
  | nil =>
      rw [List.splitOnP_nil, List.mem_singleton] at h
      rw [h]
      exact fun x hx ↦ absurd hx List.not_mem_nil
  | cons first xs ih =>
      rw [List.splitOnP_cons_eq_if_modifyHead] at h
      split at h
      · obtain rfl | hmem := List.mem_cons.mp h
        · exact fun x hx ↦ absurd hx List.not_mem_nil
        · exact ih hmem
      · next hfirst =>
          cases hsplit : xs.splitOnP p with
          | nil => exact absurd hsplit (List.splitOnP_ne_nil p xs)
          | cons head tail =>
              rw [hsplit, List.modifyHead_cons] at h
              obtain rfl | hmem := List.mem_cons.mp h
              · intro x hx
                obtain rfl | hx := List.mem_cons.mp hx
                · exact Bool.not_eq_true _ ▸ hfirst
                · exact ih (hsplit ▸ List.mem_cons_self) x hx
              · exact ih (hsplit ▸ List.mem_cons_of_mem head hmem)

variable [DecidableEq α] {sep inner outer : α} {xs before after piece : List α}

theorem not_mem_of_mem_splitOn (h : piece ∈ xs.splitOn sep) : sep ∉ piece := by
  intro hmem
  rw [List.splitOn_eq_splitOnP] at h
  simpa using not_separator_of_mem_splitOnP h sep hmem

def splitOnce (sep : α) : List α → Option (List α × List α)
  | [] => none
  | x :: xs =>
      if x = sep then some ([], xs)
      else (splitOnce sep xs).map fun halves ↦ (x :: halves.1, halves.2)

/-- At most the given number of pieces; the last one may have separators. -/
def splitn (sep : α) : ℕ → List α → List (List α)
  | 0, _ => []
  | 1, xs => [xs]
  | n + 2, xs =>
      (splitOnce sep xs).elim [xs] fun halves ↦ halves.1 :: splitn sep (n + 1) halves.2

theorem splitOnce_append (h : sep ∉ before) :
    splitOnce sep (before ++ sep :: after) = some (before, after) := by
  induction before with
  | nil => exact if_pos rfl
  | cons x before ih =>
      obtain ⟨hne, hbefore⟩ := not_or.mp (fun hmem ↦ h (List.mem_cons.mpr hmem))
      rw [List.cons_append, splitOnce, if_neg (Ne.symm hne), ih hbefore]
      rfl

theorem splitOnce_of_not_mem (h : sep ∉ xs) : splitOnce sep xs = none := by
  induction xs with
  | nil => rfl
  | cons x xs ih =>
      obtain ⟨hne, hxs⟩ := not_or.mp (fun hmem ↦ h (List.mem_cons.mpr hmem))
      rw [splitOnce, if_neg (Ne.symm hne), ih hxs]
      rfl

theorem eq_append_of_splitOnce (h : splitOnce sep xs = some (before, after)) :
    xs = before ++ sep :: after ∧ sep ∉ before := by
  induction xs generalizing before with
  | nil => cases h
  | cons x xs ih =>
      rw [splitOnce] at h
      split at h
      · next heq =>
          cases h
          exact ⟨by rw [heq, List.nil_append], List.not_mem_nil⟩
      · next hne =>
          obtain ⟨halves, hhalves, hpair⟩ := Option.map_eq_some_iff.mp h
          cases hpair
          obtain ⟨hxs, hbefore⟩ := ih hhalves
          refine ⟨by rw [List.cons_append, ← hxs], fun hmem ↦ ?_⟩
          rcases List.mem_cons.mp hmem with rfl | hmem
          · exact hne rfl
          · exact hbefore hmem

theorem splitn_append (n : ℕ) (h : sep ∉ before) :
    splitn sep (n + 2) (before ++ sep :: after) = before :: splitn sep (n + 1) after := by
  rw [splitn, splitOnce_append h, Option.elim_some]

theorem splitn_of_not_mem (n : ℕ) (h : sep ∉ xs) : splitn sep (n + 1) xs = [xs] := by
  cases n with
  | zero => rfl
  | succ n => rw [splitn, splitOnce_of_not_mem h, Option.elim_none]

def encodePairs (outer inner : α) (pairs : List (List α × List α)) : List α :=
  [outer].intercalate (pairs.map fun pair ↦ pair.1 ++ inner :: pair.2)

def decodePairs (outer inner : α) (xs : List α) : List (List α × List α) :=
  (xs.splitOn outer).filterMap (splitOnce inner)

structure CleanPair (outer inner : α) (pair : List α × List α) : Prop where
  left : outer ∉ pair.1
  inner : inner ∉ pair.1
  right : outer ∉ pair.2

theorem decodePairs_encodePairs {pairs : List (List α × List α)} (hne : pairs ≠ [])
    (hdiff : outer ≠ inner) (h : ∀ pair ∈ pairs, CleanPair outer inner pair) :
    decodePairs outer inner (encodePairs outer inner pairs) = pairs := by
  have hpieces : ∀ piece ∈ pairs.map (fun pair ↦ pair.1 ++ inner :: pair.2), outer ∉ piece := by
    intro piece hpiece hmem
    obtain ⟨pair, hpair, rfl⟩ := List.mem_map.mp hpiece
    rcases List.mem_append.mp hmem with hleft | hright
    · exact (h pair hpair).left hleft
    · rcases List.mem_cons.mp hright with hinner | hright
      · exact hdiff hinner
      · exact (h pair hpair).right hright
  have hread : pairs.filterMap (splitOnce inner ∘ fun pair ↦ pair.1 ++ inner :: pair.2) =
      pairs.filterMap some :=
    List.filterMap_congr fun pair hpair ↦ splitOnce_append (h pair hpair).inner
  rw [decodePairs, encodePairs, List.splitOn_intercalate outer hpieces (by simpa using hne),
    List.filterMap_map, hread, List.filterMap_some]

theorem cleanPair_of_mem_decodePairs {pair : List α × List α}
    (h : pair ∈ decodePairs outer inner xs) : CleanPair outer inner pair := by
  obtain ⟨piece, hpiece, hsplit⟩ := List.mem_filterMap.mp h
  have houter := not_mem_of_mem_splitOn hpiece
  obtain ⟨rfl, hinner⟩ := eq_append_of_splitOnce hsplit
  refine ⟨fun hmem ↦ houter (List.mem_append_left _ hmem), hinner, fun hmem ↦ houter ?_⟩
  exact List.mem_append_right _ (List.mem_cons_of_mem inner hmem)

end Zaowutai.Lib
