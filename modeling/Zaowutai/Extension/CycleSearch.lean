import Zaowutai.Extension.Emission

/-!
# The search for cycles

The path of the search follows the edges, and a step back into it is reported as
a closed walk.  A node that has been left is accessible along the edges to nodes
that no reported cycle holds, so every cycle is led to by a reported one.
-/

namespace Zaowutai.Extension

namespace CycleSearch

open Zaowutai.Lib

variable {adj : String → List String} {involved : List String} {s s' : CycleSearch}
  {node next : String}

def Edge (adj : String → List String) (node next : String) : Prop := next ∈ adj node

def Marked (s : CycleSearch) (node : String) : Prop := ∃ cycle ∈ s.cycles, node ∈ cycle

structure Sound (adj : String → List String) (involved : List String) (s : CycleSearch) : Prop where
  stack : ∀ node, node ∈ s.onStack ↔ node ∈ s.path
  visited : ∀ node ∈ s.path, node ∈ s.visited
  nodup : s.path.Nodup
  involved : ∀ node ∈ s.path, node ∈ involved
  chain : s.path.IsChain (Edge adj)
  cycles : ∀ cycle ∈ s.cycles, ClosedWalk (Edge adj) cycle
  left : ∀ node ∈ s.visited, node ∉ s.path →
    Acc (fun v u ↦ Edge adj u v ∧ ¬s.Marked v) node

structure Extends (s s' : CycleSearch) : Prop where
  path : s'.path = s.path
  onStack : s'.onStack = s.onStack
  visited : s.visited ⊆ s'.visited
  cycles : s.cycles ⊆ s'.cycles

theorem Extends.refl (s : CycleSearch) : s.Extends s :=
  ⟨rfl, rfl, Finset.Subset.refl _, List.Subset.refl _⟩

theorem Extends.trans {s'' : CycleSearch} (h : s.Extends s') (h' : s'.Extends s'') :
    s.Extends s'' :=
  ⟨h'.path.trans h.path, h'.onStack.trans h.onStack, h.visited.trans h'.visited,
    List.Subset.trans h.cycles h'.cycles⟩

theorem Extends.marked (h : s.Extends s') (hmarked : s.Marked node) : s'.Marked node := by
  obtain ⟨cycle, hcycle, hnode⟩ := hmarked
  exact ⟨cycle, h.cycles hcycle, hnode⟩

theorem acc_of_marked_mono (hsub : ∀ v, s.Marked v → s'.Marked v)
    (h : Acc (fun v u ↦ Edge adj u v ∧ ¬s.Marked v) node) :
    Acc (fun v u ↦ Edge adj u v ∧ ¬s'.Marked v) node :=
  Subrelation.accessible (fun hedge ↦ ⟨hedge.1, fun hmarked ↦ hedge.2 (hsub _ hmarked)⟩) h

theorem sound_empty : Sound adj involved .empty where
  stack := by simp [CycleSearch.empty]
  visited := by simp [CycleSearch.empty]
  nodup := List.nodup_nil
  involved := by simp [CycleSearch.empty]
  chain := List.isChain_nil
  cycles := by simp [CycleSearch.empty]
  left := by simp [CycleSearch.empty]

theorem Sound.enter (h : Sound adj involved s) (hnew : node ∉ s.visited) (hnode : node ∈ involved)
    (htop : ∀ top ∈ s.path.getLast?, Edge adj top node) : Sound adj involved (s.enter node) where
  stack n := by
    simp only [CycleSearch.enter, Finset.mem_insert, List.mem_append, List.mem_singleton, h.stack n]
    exact or_comm
  visited n hn := by
    simp only [CycleSearch.enter, List.mem_append, List.mem_singleton, Finset.mem_insert] at hn ⊢
    exact hn.elim (fun hn ↦ .inr (h.visited n hn)) .inl
  nodup := by
    have hpath : node ∉ s.path := fun hmem ↦ hnew (h.visited node hmem)
    simp only [CycleSearch.enter, List.nodup_append, List.nodup_singleton, List.mem_singleton]
    refine ⟨h.nodup, trivial, ?_⟩
    rintro a ha b rfl rfl
    exact hpath ha
  involved n hn := by
    simp only [CycleSearch.enter, List.mem_append, List.mem_singleton] at hn
    rcases hn with hn | rfl
    · exact h.involved n hn
    · exact hnode
  chain := by
    simp only [CycleSearch.enter, List.isChain_append]
    refine ⟨h.chain, List.isChain_singleton node, ?_⟩
    intro top htop' n hn
    rw [List.head?_cons, Option.mem_some_iff] at hn
    exact hn ▸ htop top htop'
  cycles := h.cycles
  left n hn hpath := by
    simp only [CycleSearch.enter, Finset.mem_insert, List.mem_append, List.mem_singleton,
      not_or] at hn hpath
    exact h.left n (hn.resolve_left hpath.2) hpath.1

theorem Sound.leave {path : List String} (h : Sound adj involved s)
    (hpath : s.path = path ++ [node])
    (hedges : ∀ v ∈ adj node, v ∈ s.visited ∧ (v ∉ s.path ∨ s.Marked v)) :
    Sound adj involved (s.leave node) := by
  have hpath' : (s.leave node).path = path := by
    rw [CycleSearch.leave, hpath, List.dropLast_concat]
  have hnode : node ∉ path := by
    have hnodup := hpath ▸ h.nodup
    intro hmem
    exact (List.nodup_append.mp hnodup).2.2 node hmem node (List.mem_singleton_self node) rfl
  have hin : ∀ n ∈ path, n ∈ s.path := by
    intro n hn
    rw [hpath]
    exact List.mem_append_left _ hn
  have hleft : ∀ n ∈ s.visited, n ∉ s.path → Acc (fun v u ↦ Edge adj u v ∧ ¬s.Marked v) n := h.left
  refine ⟨fun n ↦ ?_, fun n hn ↦ ?_, ?_, fun n hn ↦ ?_, ?_, h.cycles, fun n hn hout ↦ ?_⟩
  · rw [hpath']
    simp only [CycleSearch.leave, Finset.mem_erase, h.stack n, hpath, List.mem_append,
      List.mem_singleton]
    constructor
    · rintro ⟨hne, hn | hn⟩
      · exact hn
      · exact absurd hn hne
    · intro hn
      exact ⟨fun he ↦ hnode (he ▸ hn), .inl hn⟩
  · exact h.visited n (hin n (hpath' ▸ hn))
  · rw [hpath']
    exact (List.nodup_append.mp (hpath ▸ h.nodup)).1
  · exact h.involved n (hin n (hpath' ▸ hn))
  · rw [hpath']
    exact (List.isChain_append.mp (hpath ▸ h.chain)).1
  · rw [hpath'] at hout
    by_cases hne : n = node
    · subst hne
      refine ⟨n, fun v hv ↦ ?_⟩
      obtain ⟨hvisited, hedge⟩ := hedges v hv.1
      exact hleft v hvisited (hedge.resolve_right hv.2)
    · apply hleft n hn
      rw [hpath, List.mem_append, List.mem_singleton]
      exact fun h ↦ h.elim hout hne

theorem Sound.closeCycle {path : List String} (h : Sound adj involved s)
    (hpath : s.path = path ++ [node]) (hedge : next ∈ adj node) (hnext : next ∈ s.path) :
    Sound adj involved (s.closeCycle next) ∧ s.Extends (s.closeCycle next) ∧
      (s.closeCycle next).Marked next := by
  have hclose : s.closeCycle next =
      { s with cycles := s.cycles ++ [s.path.drop (s.path.idxOf next) ++ [next]] } :=
    if_pos hnext
  have hlt := List.idxOf_lt_length_of_mem hnext
  have hdrop : s.path.drop (s.path.idxOf next) =
      next :: s.path.drop (s.path.idxOf next + 1) := by
    rw [List.drop_eq_getElem_cons hlt, List.getElem_idxOf hlt]
  have hwalk : ClosedWalk (Edge adj) (s.path.drop (s.path.idxOf next) ++ [next]) := by
    rw [hdrop]
    apply closedWalk_of_back (s.path.take (s.path.idxOf next))
    · rw [← hdrop, List.take_append_drop]
      exact h.chain
    · have hlast : (next :: s.path.drop (s.path.idxOf next + 1)).getLast
          (List.cons_ne_nil _ _) = node := by
        simp only [← hdrop]
        rw [List.getLast_drop]
        simp [hpath]
      rw [hlast]
      exact hedge
  have hextends : s.Extends (s.closeCycle next) := by
    rw [hclose]
    exact ⟨rfl, rfl, Finset.Subset.refl _, List.subset_append_left _ _⟩
  have hmarked : (s.closeCycle next).Marked next := by
    rw [hclose]
    exact ⟨_, List.mem_append_right _ (List.mem_singleton_self _), by simp⟩
  refine ⟨?_, hextends, hmarked⟩
  have hleft : ∀ n ∈ s.visited, n ∉ s.path →
      Acc (fun v u ↦ Edge adj u v ∧ ¬(s.closeCycle next).Marked v) n :=
    fun n hn hout ↦ acc_of_marked_mono (fun _ ↦ hextends.marked) (h.left n hn hout)
  rw [hclose] at hleft ⊢
  refine ⟨h.stack, h.visited, h.nodup, h.involved, h.chain, ?_, hleft⟩
  intro cycle hcycle
  rcases List.mem_append.mp hcycle with hcycle | hcycle
  · exact h.cycles cycle hcycle
  · rw [List.mem_singleton.mp hcycle]
    exact hwalk

/-- Deep enough, the search from a node leaves it and comes back to the path it started from. -/
def Searches (adj : String → List String) (involved : List String) (depth : ℕ) : Prop :=
  ∀ s node, Sound adj involved s → node ∉ s.visited → node ∈ involved →
    (∀ top ∈ s.path.getLast?, Edge adj top node) → involved.length ≤ s.path.length + depth →
    ∃ s', dfsFindCycles adj depth node s = some s' ∧ Sound adj involved s' ∧ s.Extends s' ∧
      node ∈ s'.visited

def follow (adj : String → List String) (depth : ℕ) (s : CycleSearch) (next : String) :
    Option CycleSearch :=
  if next ∉ s.visited then dfsFindCycles adj depth next s
  else if next ∈ s.onStack then some (s.closeCycle next)
  else some s

theorem dfsFindCycles_succ (depth : ℕ) :
    dfsFindCycles adj (depth + 1) node s =
      ((adj node).foldlM (follow adj depth) (s.enter node)).map fun s ↦ s.leave node := rfl

variable {path : List String} {depth : ℕ}

theorem Searches.follow (hsearch : Searches adj involved depth)
    (hclosed : ∀ node, ∀ next ∈ adj node, next ∈ involved) (h : Sound adj involved s)
    (hpath : s.path = path ++ [node]) (hdepth : involved.length ≤ s.path.length + depth)
    (hnext : next ∈ adj node) :
    ∃ s', follow adj depth s next = some s' ∧ Sound adj involved s' ∧ s.Extends s' ∧
      next ∈ s'.visited ∧ (next ∉ s'.path ∨ s'.Marked next) := by
  rw [CycleSearch.follow]
  by_cases hvisited : next ∈ s.visited
  · rw [if_neg (not_not.mpr hvisited)]
    by_cases hstack : next ∈ s.onStack
    · rw [if_pos hstack]
      obtain ⟨hsound, hext, hmarked⟩ := h.closeCycle hpath hnext ((h.stack next).mp hstack)
      exact ⟨_, rfl, hsound, hext, hext.visited hvisited, .inr hmarked⟩
    · rw [if_neg hstack]
      exact ⟨s, rfl, h, .refl s, hvisited, .inl fun hmem ↦ hstack ((h.stack next).mpr hmem)⟩
  · rw [if_pos hvisited]
    have htop : ∀ top ∈ s.path.getLast?, Edge adj top next := by
      intro top htop
      rw [hpath, List.getLast?_concat, Option.mem_some_iff] at htop
      exact htop ▸ hnext
    obtain ⟨s', hrun, hsound, hext, hmem⟩ :=
      hsearch s next h hvisited (hclosed node next hnext) htop hdepth
    refine ⟨s', hrun, hsound, hext, hmem, .inl ?_⟩
    rw [hext.path]
    exact fun hmem ↦ hvisited (h.visited next hmem)

theorem Searches.foldlM_follow (hsearch : Searches adj involved depth)
    (hclosed : ∀ node, ∀ next ∈ adj node, next ∈ involved) {nexts : List String}
    (hnexts : nexts ⊆ adj node) (h : Sound adj involved s) (hpath : s.path = path ++ [node])
    (hdepth : involved.length ≤ s.path.length + depth) :
    ∃ s', nexts.foldlM (CycleSearch.follow adj depth) s = some s' ∧ Sound adj involved s' ∧
      s.Extends s' ∧ ∀ v ∈ nexts, v ∈ s'.visited ∧ (v ∉ s'.path ∨ s'.Marked v) := by
  induction nexts generalizing s with
  | nil => exact ⟨s, rfl, h, .refl s, by simp⟩
  | cons next nexts ih =>
      obtain ⟨hnext, hnexts⟩ := List.cons_subset.mp hnexts
      obtain ⟨s₁, hrun₁, h₁, hext₁, hvisited, hdone⟩ :=
        hsearch.follow hclosed h hpath hdepth hnext
      obtain ⟨s₂, hrun₂, h₂, hext₂, hrest⟩ :=
        ih hnexts h₁ (hext₁.path.trans hpath) (hext₁.path ▸ hdepth)
      refine ⟨s₂, ?_, h₂, hext₁.trans hext₂, ?_⟩
      · rw [List.foldlM_cons, hrun₁]
        exact hrun₂
      · intro v hv
        rcases List.mem_cons.mp hv with rfl | hv
        · refine ⟨hext₂.visited hvisited, ?_⟩
          rw [hext₂.path]
          exact hdone.imp_right hext₂.marked
        · exact hrest v hv

theorem searches (hclosed : ∀ node, ∀ next ∈ adj node, next ∈ involved) (depth : ℕ) :
    Searches adj involved depth := by
  induction depth with
  | zero =>
      intro s node h hnew hnode htop hdepth
      have henter := h.enter hnew hnode htop
      have hle := (List.subperm_of_subset henter.nodup henter.involved).length_le
      simp only [CycleSearch.enter, List.length_append, List.length_singleton] at hle
      omega
  | succ depth ih =>
      intro s node h hnew hnode htop hdepth
      have hlength : involved.length ≤ (s.enter node).path.length + depth := by
        simp only [CycleSearch.enter, List.length_append, List.length_singleton]
        omega
      obtain ⟨s₁, hrun, h₁, hext, hedges⟩ :=
        ih.foldlM_follow hclosed (List.Subset.refl _) (h.enter hnew hnode htop) rfl hlength
      have hpath : s₁.path = s.path ++ [node] := hext.path
      have hstack : node ∉ s.onStack := fun hmem ↦ hnew (h.visited node ((h.stack node).mp hmem))
      refine ⟨s₁.leave node, ?_, h₁.leave hpath hedges, ⟨?_, ?_, ?_, hext.cycles⟩, ?_⟩
      · rw [dfsFindCycles_succ, hrun, Option.map_some]
      · rw [CycleSearch.leave, hpath, List.dropLast_concat]
      · rw [CycleSearch.leave, hext.onStack]
        exact Finset.erase_insert hstack
      · exact (Finset.subset_insert _ _).trans hext.visited
      · exact hext.visited (Finset.mem_insert_self _ _)

theorem foldlM_searches (hclosed : ∀ node, ∀ next ∈ adj node, next ∈ involved)
    {nodes : List String} (hnodes : nodes ⊆ involved) (h : Sound adj involved s)
    (hpath : s.path = []) :
    ∃ s', nodes.foldlM (fun s node ↦
        if node ∉ s.visited then s.dfsFindCycles adj involved.length node else some s) s =
          some s' ∧ Sound adj involved s' ∧ s.Extends s' ∧ ∀ node ∈ nodes, node ∈ s'.visited := by
  induction nodes generalizing s with
  | nil => exact ⟨s, rfl, h, .refl s, by simp⟩
  | cons node nodes ih =>
      obtain ⟨hnode, hnodes⟩ := List.cons_subset.mp hnodes
      have hone : ∃ s', (if node ∉ s.visited then s.dfsFindCycles adj involved.length node
          else some s) = some s' ∧ Sound adj involved s' ∧ s.Extends s' ∧ node ∈ s'.visited := by
        by_cases hvisited : node ∈ s.visited
        · exact ⟨s, if_neg (not_not.mpr hvisited), h, .refl s, hvisited⟩
        · rw [if_pos hvisited]
          apply searches hclosed _ s node h hvisited hnode
          · simp [hpath]
          · omega
      obtain ⟨s₁, hrun₁, h₁, hext₁, hvisited⟩ := hone
      obtain ⟨s₂, hrun₂, h₂, hext₂, hrest⟩ := ih hnodes h₁ (hext₁.path.trans hpath)
      refine ⟨s₂, ?_, h₂, hext₁.trans hext₂, ?_⟩
      · rw [List.foldlM_cons, hrun₁]
        exact hrun₂
      · intro n hn
        rcases List.mem_cons.mp hn with rfl | hn
        · exact hext₂.visited hvisited
        · exact hrest n hn

end CycleSearch

open Zaowutai.Lib

theorem findCycles_spec {extensions : List LoadedExtension} {involved : List String}
    (hclosed : ∀ node, ∀ next ∈ involvedDeps extensions involved node, next ∈ involved) :
    ∃ cycles, findCycles extensions involved = some cycles ∧
      (∀ cycle ∈ cycles,
        ClosedWalk (CycleSearch.Edge (involvedDeps extensions involved)) cycle) ∧
      ∀ node ∈ involved, Acc (fun v u ↦
        CycleSearch.Edge (involvedDeps extensions involved) u v ∧
          v ∉ {n | ∃ cycle ∈ cycles, n ∈ cycle}) node := by
  have hnodes : sorted involved ⊆ involved := fun _ ↦ mem_sorted.mp
  obtain ⟨s, hrun, hsound, hext, hvisited⟩ :=
    CycleSearch.foldlM_searches hclosed hnodes CycleSearch.sound_empty rfl
  refine ⟨s.cycles, ?_, hsound.cycles, ?_⟩
  · rw [findCycles, hrun, Option.map_some]
  · intro node hnode
    apply hsound.left node (hvisited node (mem_sorted.mpr hnode))
    rw [hext.path]
    exact List.not_mem_nil

end Zaowutai.Extension
