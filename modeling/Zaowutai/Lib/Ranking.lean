import Mathlib.Data.List.Sort

/-!
# Lists ranked by a key

A list is ranked by a key when the keys strictly ascend along it.  A ranked list
is determined by its elements, so whatever sorts the same elements by the key
returns it.  An element takes a new place in a ranked list by taking a key
between those of its neighbours.  The second half is the arrangement itself, on
lists without keys: an element placed first, or directly after another.
-/

namespace Zaowutai.Lib

section Ranked

variable {α κ : Type*} [LinearOrder κ] {key : α → κ} {l l' pre post : List α} {a b : α}

def Ranked (key : α → κ) (l : List α) : Prop := l.Pairwise fun a b ↦ key a < key b

theorem ranked_append :
    Ranked key (pre ++ post) ↔
      Ranked key pre ∧ Ranked key post ∧ ∀ a ∈ pre, ∀ b ∈ post, key a < key b :=
  List.pairwise_append

theorem ranked_cons : Ranked key (a :: l) ↔ (∀ b ∈ l, key a < key b) ∧ Ranked key l :=
  List.pairwise_cons

theorem Ranked.filter (h : Ranked key l) (p : α → Bool) : Ranked key (l.filter p) :=
  h.sublist List.filter_sublist

theorem Ranked.nodup_keys (h : Ranked key l) : (l.map key).Nodup :=
  List.pairwise_map.mpr (h.imp fun hlt ↦ hlt.ne)

theorem Ranked.eq_of_key_eq (h : Ranked key l) (ha : a ∈ l) (hb : b ∈ l) (hab : key a = key b) :
    a = b :=
  List.inj_on_of_nodup_map h.nodup_keys ha hb hab

theorem Ranked.insertionSort_eq {r : α → α → Prop} [DecidableRel r] [Std.Total r] [IsTrans α r]
    (h : Ranked key l) (hkey : ∀ a b, key a < key b → ¬r b a) (hperm : l'.Perm l) :
    l'.insertionSort r = l := by
  have hsorted : l.Pairwise r := h.imp fun {a b} hlt ↦ (total_of r a b).resolve_right (hkey a b hlt)
  refine ((List.perm_insertionSort r l').trans hperm).eq_of_pairwise ?_
    (List.pairwise_insertionSort r l') hsorted
  intro a b ha hb hab hba
  have ha : a ∈ l := hperm.subset ((List.mem_insertionSort r).mp ha)
  refine h.eq_of_key_eq ha hb (le_antisymm ?_ ?_)
  · exact not_lt.mp fun hlt ↦ hkey b a hlt hab
  · exact not_lt.mp fun hlt ↦ hkey a b hlt hba

theorem ranked_insertionSort (h : (l.map key).Nodup) :
    Ranked key (l.insertionSort fun a b ↦ key a ≤ key b) := by
  have htotal : Std.Total fun a b : α ↦ key a ≤ key b := ⟨fun a b ↦ le_total (key a) (key b)⟩
  have htrans : IsTrans α fun a b ↦ key a ≤ key b := ⟨fun a b c hab hbc ↦ le_trans hab hbc⟩
  have hsorted := List.pairwise_insertionSort (fun a b : α ↦ key a ≤ key b) l
  have hdistinct : ((l.insertionSort fun a b ↦ key a ≤ key b).map key).Nodup :=
    ((List.perm_insertionSort _ l).map key).nodup_iff.mpr h
  exact (hsorted.and (List.pairwise_map.mp hdistinct)).imp fun h ↦ lt_of_le_of_ne h.1 h.2

theorem Ranked.insert_between (h : Ranked key (pre ++ post)) (hpre : ∀ b ∈ pre, key b < key a)
    (hpost : ∀ b ∈ post.head?, key a < key b) : Ranked key (pre ++ a :: post) := by
  rw [ranked_append] at h
  obtain ⟨hl, hr, hlr⟩ := h
  have habove : ∀ b ∈ post, key a < key b := by
    cases post with
    | nil => exact List.forall_mem_nil _
    | cons b post =>
        have hab : key a < key b := hpost b rfl
        exact List.forall_mem_cons.mpr ⟨hab, fun c hc ↦ hab.trans ((ranked_cons.mp hr).1 c hc)⟩
  refine ranked_append.mpr ⟨hl, ranked_cons.mpr ⟨habove, hr⟩, fun b hb c hc ↦ ?_⟩
  rcases List.mem_cons.mp hc with rfl | hc
  · exact hpre b hb
  · exact hlr b hb c hc

end Ranked

section Pages

variable {α κ : Type*} [LinearOrder κ] {key : α → κ} {l : List α} {a last : α}

def upTo (key : α → κ) (c : κ) (l : List α) : List α := l.filter (key · ≤ c)

def behind (key : α → κ) (c : κ) (l : List α) : List α := l.filter (c < key ·)

@[simp] theorem mem_upTo {c : κ} : a ∈ upTo key c l ↔ a ∈ l ∧ key a ≤ c := by
  simp [upTo]

@[simp] theorem mem_behind {c : κ} : a ∈ behind key c l ↔ a ∈ l ∧ c < key a := by
  simp [behind]

theorem Ranked.upTo_append_behind (h : Ranked key l) (c : κ) :
    upTo key c l ++ behind key c l = l := by
  induction l with
  | nil => rfl
  | cons a l ih =>
      obtain ⟨habove, htail⟩ := ranked_cons.mp h
      by_cases hc : key a ≤ c
      · have hupTo : upTo key c (a :: l) = a :: upTo key c l := by simp [upTo, hc]
        have hbehind : behind key c (a :: l) = behind key c l := by simp [behind, hc]
        rw [hupTo, hbehind, List.cons_append, ih htail]
      · have hlt : ∀ b ∈ a :: l, c < key b := by
          intro b hb
          rcases List.mem_cons.mp hb with rfl | hb
          · exact not_le.mp hc
          · exact (not_le.mp hc).trans (habove b hb)
        have hupTo : upTo key c (a :: l) = [] :=
          List.filter_eq_nil_iff.mpr fun b hb ↦ by simpa using hlt b hb
        have hbehind : behind key c (a :: l) = a :: l :=
          List.filter_eq_self.mpr fun b hb ↦ decide_eq_true (hlt b hb)
        rw [hupTo, hbehind, List.nil_append]

theorem Ranked.take_eq_upTo (h : Ranked key l) {n : ℕ} (hlast : last ∈ (l.take n).getLast?) :
    l.take n = upTo key (key last) l := by
  obtain ⟨init, hinit⟩ := List.getLast?_eq_some_iff.mp hlast
  have hsplit : l = (init ++ [last]) ++ l.drop n := by rw [← hinit, List.take_append_drop]
  rw [hinit]
  rw [hsplit] at h
  obtain ⟨hfront, -, hrest⟩ := ranked_append.mp h
  have hbelow : upTo key (key last) (init ++ [last]) = init ++ [last] := by
    refine List.filter_eq_self.mpr fun a ha ↦ decide_eq_true ?_
    rcases List.mem_append.mp ha with ha | ha
    · exact ((ranked_append.mp hfront).2.2 a ha last (List.mem_singleton_self last)).le
    · exact le_of_eq (congrArg key (List.mem_singleton.mp ha))
  have habove : upTo key (key last) (l.drop n) = [] := by
    refine List.filter_eq_nil_iff.mpr fun a ha ↦ ?_
    have hlt : key last < key a := hrest last (by simp) a ha
    simpa using hlt
  calc init ++ [last] = upTo key (key last) (init ++ [last]) ++ upTo key (key last) (l.drop n) := by
        rw [hbelow, habove, List.append_nil]
    _ = upTo key (key last) ((init ++ [last]) ++ l.drop n) := (List.filter_append ..).symm
    _ = upTo key (key last) l := by rw [← hsplit]

end Pages

section Arrangement

variable {α : Type*} [DecidableEq α] {l pre post : List α} {a b : α}

/-- The list with `a` before its first element, unless it is there already. -/
def pushFront (a : α) (l : List α) : List α := if a ∈ l then l else a :: l

def without (a : α) (l : List α) : List α := l.filter (· ≠ a)

def insertAfter (a b : α) : List α → List α
  | [] => []
  | c :: l => if c = b then c :: a :: l else c :: insertAfter a b l

def moveFront (a : α) (l : List α) : List α := if a ∈ l then a :: without a l else l

def moveAfter (a b : α) (l : List α) : List α :=
  if a ∈ l ∧ b ∈ l ∧ a ≠ b then insertAfter a b (without a l) else l

theorem without_eq_self (h : a ∉ l) : without a l = l :=
  List.filter_eq_self.mpr fun _ hc ↦ decide_eq_true fun heq ↦ h (heq ▸ hc)

@[simp] theorem without_append : without a (pre ++ post) = without a pre ++ without a post :=
  List.filter_append ..

theorem foldl_without (as : List α) :
    as.foldl (fun l a ↦ without a l) l = l.filter (· ∉ as) := by
  induction as generalizing l with
  | nil => simp
  | cons a as ih =>
      rw [List.foldl_cons, ih, without, List.filter_filter]
      exact List.filter_congr fun c _ ↦ by simp [not_or, Bool.and_comm]

theorem without_cons_ne (h : b ≠ a) : without a (b :: l) = b :: without a l :=
  List.filter_cons_of_pos (decide_eq_true h)

@[simp] theorem without_cons_self : without a (a :: l) = without a l :=
  List.filter_cons_of_neg (by simp)

theorem insertAfter_append (h : b ∉ pre) :
    insertAfter a b (pre ++ b :: post) = pre ++ b :: a :: post := by
  induction pre with
  | nil => simp [insertAfter]
  | cons c pre ih =>
      have hc : c ≠ b := fun heq ↦ h (heq ▸ List.mem_cons_self)
      simp only [List.cons_append, insertAfter, if_neg hc]
      rw [ih fun hmem ↦ h (List.mem_cons_of_mem c hmem)]

theorem moveAfter_append (hnodup : (pre ++ b :: post).Nodup) (ha : a ∈ pre ++ b :: post) :
    moveAfter a b (pre ++ b :: post) =
      without a (pre ++ [b]) ++ a :: without a post := by
  obtain ⟨-, hpost, hdisj⟩ := List.nodup_append'.mp hnodup
  have hb : b ∉ pre := fun hmem ↦ hdisj hmem List.mem_cons_self
  by_cases hab : a = b
  · subst hab
    rw [moveAfter, if_neg fun h ↦ h.2.2 rfl, without_append, without_eq_self hb, without_cons_self,
      without_eq_self (List.nodup_cons.mp hpost).1]
    simp [without]
  · have hne : b ≠ a := fun h ↦ hab h.symm
    have hwithout : b ∉ without a pre := fun hmem ↦ hb (List.mem_of_mem_filter hmem)
    rw [moveAfter, if_pos ⟨ha, by simp, hab⟩, without_append, without_cons_ne hne,
      insertAfter_append hwithout, without_append, without_cons_ne hne]
    simp [without]

theorem moveAfter_eq_append (hnodup : l.Nodup) (ha : a ∈ l) (hb : b ∈ l) (hne : a ≠ b) :
    ∃ pre post, moveAfter a b l = pre ++ b :: a :: post := by
  obtain ⟨pre, post, rfl⟩ := List.append_of_mem hb
  refine ⟨without a pre, without a post, ?_⟩
  rw [moveAfter_append hnodup ha, without_append, without_cons_ne hne.symm]
  simp [without]

@[simp] theorem without_without : without a (without a l) = without a l := by
  simp [without]

@[simp] theorem without_pushFront : without a (pushFront a l) = without a l := by
  rw [pushFront]
  split
  · rfl
  · exact without_cons_self

@[simp] theorem without_moveFront : without a (moveFront a l) = without a l := by
  rw [moveFront]
  split
  · rw [without_cons_self, without_without]
  · rfl

theorem without_insertAfter (hne : a ≠ b) : without a (insertAfter a b l) = without a l := by
  induction l with
  | nil => rfl
  | cons c l ih =>
      rw [insertAfter]
      split
      · next hc => rw [hc, without_cons_ne hne.symm, without_cons_self, without_cons_ne hne.symm]
      · by_cases hca : c = a
        · rw [hca, without_cons_self, without_cons_self, ih]
        · rw [without_cons_ne hca, without_cons_ne hca, ih]

@[simp] theorem without_moveAfter : without a (moveAfter a b l) = without a l := by
  rw [moveAfter]
  split
  · next h => rw [without_insertAfter h.2.2, without_without]
  · rfl

theorem perm_of_filter_ne {β : Type*} {name : β → α} {l pre post : List β} {b : β}
    (hnodup : (l.map name).Nodup) (hb : b ∈ l)
    (hothers : l.filter (name · ≠ name b) = pre ++ post) : l.Perm (pre ++ b :: post) := by
  obtain ⟨front, back, rfl⟩ := List.append_of_mem hb
  have hne : ∀ c ∈ front ++ back, name c ≠ name b := by
    rw [List.map_append, List.map_cons, List.nodup_middle, List.nodup_cons] at hnodup
    intro c hc heq
    exact hnodup.1 (by rw [← heq, ← List.map_append]; exact List.mem_map_of_mem hc)
  have hfront : (front ++ b :: back).filter (name · ≠ name b) = front ++ back := by
    rw [List.filter_append, List.filter_cons_of_neg (by simp), ← List.filter_append]
    exact List.filter_eq_self.mpr fun c hc ↦ decide_eq_true (hne c hc)
  calc (front ++ b :: back).Perm (b :: (front ++ back)) := List.perm_middle
    _ = b :: (pre ++ post) := by rw [← hfront, hothers]
    _ |>.Perm (pre ++ b :: post) := List.perm_middle.symm

end Arrangement

end Zaowutai.Lib
