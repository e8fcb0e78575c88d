import Zaowutai.MessageList.IndexUpdates

/-!
# Batches of live messages

A flush composes a batch of messages with one index that it updates itself.  The
list does not depend on the batches as long as no message asks for a stale key,
and a flush may run twice as long as no message finds a card whose key is given
to another card later on.
-/

namespace Zaowutai.MessageList

open Zaowutai.Lib

variable {index rerun : MessageIndex} {list : List TMessage} {item : PendingItem}
  {items pending rest : List PendingItem} {key : Slot × String} {stale : List (Slot × String)}
  {effect : Effect} {p : ℕ} {find find' : Slot × String → Option (ℕ × TMessage)}

def PendingItem.asks (item : PendingItem) : Option (Slot × String) :=
  if item.add then none else MessageList.asks item.message

def PendingItem.effectAlone (item : PendingItem) (list : List TMessage) : Effect :=
  item.effect list (known list)

def mergeAlone (list : List TMessage) (item : PendingItem) : List TMessage :=
  (mergeItem (list, buildMessageIndex list) item).1

instance lawfulKey : LawfulBEq (Slot × String) := inferInstance

def Effect.appends (list : List TMessage) (key : Slot × String) : Effect → Bool
  | append _ recorded => key ∈ recorded
  | regroup result => (result.drop list.length).any fun message ↦ key ∈ indexKeys message
  | _ => false

def Effect.refreshes (stale : List (Slot × String)) (key : Slot × String) : Effect → Bool
  | regroup _ => key ∈ stale && key.1 ≠ .terminalId
  | _ => false

def laterPlaces (key : Slot × String) : List TMessage → List PendingItem → List ℕ
  | _, [] => []
  | list, item :: rest =>
      (if (item.effectAlone list).appends list key then [list.length] else []) ++
        laterPlaces key (mergeAlone list item) rest

def refreshedLater (key : Slot × String) :
    List (Slot × String) → List TMessage → List PendingItem → Bool
  | _, _, [] => false
  | stale, list, item :: rest =>
      (item.effectAlone list).refreshes stale key ||
        refreshedLater key (staleAfter stale list (item.effectAlone list)) (mergeAlone list item) rest

def Settled (stale stale' : List (Slot × String)) (list list' : List TMessage)
    (item : PendingItem) (rest : List PendingItem) : Prop :=
  ∀ key ∈ item.asks, key ∉ stale ∧ refreshedLater key stale' list' rest = false ∧
    ((known list key).isSome → laterPlaces key list' rest = [])

instance (stale stale' : List (Slot × String)) (list list' : List TMessage) (item : PendingItem)
    (rest : List PendingItem) : Decidable (Settled stale stale' list list' item rest) :=
  inferInstanceAs (Decidable (∀ key ∈ item.asks, key ∉ stale ∧
    refreshedLater key stale' list' rest = false ∧
      ((known list key).isSome → laterPlaces key list' rest = [])))

def Undisturbed : List (Slot × String) → List TMessage → List PendingItem → Prop
  | _, _, [] => True
  | stale, list, item :: rest =>
      Settled stale (staleAfter stale list (item.effectAlone list)) list (mergeAlone list item) item
          rest ∧
        Undisturbed (staleAfter stale list (item.effectAlone list)) (mergeAlone list item) rest

instance Undisturbed.decidable : ∀ stale list items, Decidable (Undisturbed stale list items)
  | _, _, [] => isTrue trivial
  | stale, list, item :: rest =>
      have := Undisturbed.decidable (staleAfter stale list (item.effectAlone list))
        (mergeAlone list item) rest
      inferInstanceAs (Decidable (Settled stale (staleAfter stale list (item.effectAlone list)) list
          (mergeAlone list item) item rest ∧
        Undisturbed (staleAfter stale list (item.effectAlone list)) (mergeAlone list item) rest))

section Steps

theorem Effect.apply_fst : (effect.apply list index).1 = (effect.apply list rerun).1 := by
  cases effect <;> rfl

theorem mergeAlone_eq : mergeAlone list item = ((item.effectAlone list).apply list index).1 :=
  Effect.apply_fst

theorem PendingItem.effect_congr (h : ∀ key, item.asks = some key → find key = find' key) :
    item.effect list find = item.effect list find' := by
  rw [PendingItem.effect, PendingItem.effect]
  rw [PendingItem.asks] at h
  split
  · rfl
  · next hadd =>
      rw [if_neg hadd] at h
      exact composeEffect_congr h

theorem PendingItem.effect_eq_append {m : TMessage} {recorded : List (Slot × String)}
    (h : item.effect list find = .append m recorded) :
    item.effect list (fun _ ↦ none) = .append m recorded := by
  rw [PendingItem.effect] at h ⊢
  split at h
  · next hadd =>
      rw [if_pos hadd]
      exact h
  · next hadd =>
      rw [if_neg hadd]
      exact composeEffect_eq_append h

theorem PendingItem.effectAlone_sound (item : PendingItem) (list : List TMessage) :
    (item.effectAlone list).Sound list :=
  PendingItem.effect_sound

theorem PendingItem.effectAlone_isRegroup (h : item.asks = some key) (list : List TMessage) :
    (item.effectAlone list).isRegroup = false := by
  rw [PendingItem.effectAlone, PendingItem.effect]
  rw [PendingItem.asks] at h
  split
  · next hadd =>
      rw [if_pos hadd] at h
      cases h
  · next hadd =>
      rw [if_neg hadd] at h
      exact composeEffect_isRegroup h

theorem length_le_mergeAlone : list.length ≤ (mergeAlone list item).length := by
  have hsound := PendingItem.effectAlone_sound item list
  rw [mergeAlone, mergeItem]
  change list.length ≤ ((item.effectAlone list).apply list _).1.length
  cases heffect : item.effectAlone list with
  | keep => exact le_rfl
  | append message recorded => simp [Effect.apply]
  | replace i message => simp [Effect.apply]
  | regroup result =>
      rw [heffect] at hsound
      obtain ⟨base, added, rfl, hbase, -⟩ := hsound
      have hlength : base.length = list.length := by
        simpa using congrArg List.length hbase
      simp only [Effect.apply, List.length_append]
      omega

theorem Agree.effect_eq (h : Agree stale index list) (hasks : ∀ key ∈ item.asks, key ∉ stale) :
    item.effect list (index.find list) = item.effectAlone list := by
  apply PendingItem.effect_congr
  intro key hkey
  apply find_congr
  rw [h key (hasks key hkey), lookup_buildMessageIndex]

theorem Agree.mergeItem (h : Agree stale index list) (hasks : ∀ key ∈ item.asks, key ∉ stale) :
    mergeItem (list, index) item = (mergeAlone list item,
      ((item.effectAlone list).apply list index).2) := by
  rw [MessageList.mergeItem, h.effect_eq hasks, mergeAlone_eq]

theorem Agree.next (h : Agree stale index list) :
    Agree (staleAfter stale list (item.effectAlone list))
      ((item.effectAlone list).apply list index).2 (mergeAlone list item) := by
  rw [mergeAlone_eq]
  exact h.apply PendingItem.effect_sound

end Steps

section Flush

theorem flush_cons : flush list index (item :: rest) =
    flush (mergeItem (list, index) item).1 (mergeItem (list, index) item).2 rest := rfl

theorem flush_eq (h : Agree stale index list) (hpending : Undisturbed stale list pending) :
    (flush list index pending).1 = pending.foldl mergeAlone list := by
  induction pending generalizing stale list index with
  | nil => rfl
  | cons item rest ih =>
      obtain ⟨hitem, hrest⟩ := hpending
      rw [flush_cons, h.mergeItem fun key hkey ↦ (hitem key hkey).1, List.foldl_cons]
      exact ih h.next hrest

theorem lookup_flush {done left : List PendingItem} (h : Agree stale index list)
    (hpending : Undisturbed stale list (done ++ item :: left)) (hkey : key ∈ item.asks) :
    (flush list index done).2.lookup key =
      (buildMessageIndex (flush list index done).1).lookup key := by
  induction done generalizing stale list index with
  | nil =>
      rw [lookup_buildMessageIndex]
      exact h key (hpending.1 key hkey).1
  | cons first done ih =>
      obtain ⟨hfirst, hrest⟩ := hpending
      rw [flush_cons, h.mergeItem fun key hkey ↦ (hfirst key hkey).1]
      exact ih h.next hrest

end Flush

section Rerun

/-- The index that a run of the items has left, against the one with which it began. -/
def Behind (stale : List (Slot × String)) (list : List TMessage) (items : List PendingItem)
    (index rerun : MessageIndex) : Prop :=
  ∀ key, rerun.lookup key = index.lookup key ∨
    (∃ p ∈ laterPlaces key list items, rerun.lookup key = some p) ∨
    refreshedLater key stale list items = true

theorem length_le_of_laterPlaces (h : p ∈ laterPlaces key list items) : list.length ≤ p := by
  induction items generalizing list with
  | nil => cases h
  | cons item rest ih =>
      rw [laterPlaces, List.mem_append] at h
      obtain h | h := h
      · split at h
        · exact (List.mem_singleton.mp h).ge
        · cases h
      · exact length_le_mergeAlone.trans (ih h)

theorem lookup_apply_regroup {result : List TMessage} :
    ((Effect.regroup result).apply list index).2.lookup key =
      if key.1 = .terminalId then index.lookup key else lastIndex indexKeys result key := by
  rw [← lookup_buildMessageIndex]
  obtain ⟨slot, k⟩ := key
  cases slot <;> rfl

theorem Agree.lookup_apply (h : Agree stale index list) (key : Slot × String)
    (hsound : effect.Sound list) :
    (effect.apply list index).2.lookup key = index.lookup key ∨
      effect.appends list key = true ∧ (effect.apply list index).2.lookup key = some list.length ∨
      effect.refreshes stale key = true := by
  cases effect with
  | keep => exact Or.inl rfl
  | replace i message => exact Or.inl rfl
  | append message recorded =>
      simp only [Effect.apply, Effect.appends, MessageIndex.lookup_setAll]
      by_cases hkey : key ∈ recorded
      · exact Or.inr (Or.inl ⟨decide_eq_true hkey, if_pos hkey⟩)
      · exact Or.inl (if_neg hkey)
  | regroup result =>
      rw [lookup_apply_regroup]
      by_cases hslot : key.1 = .terminalId
      · exact Or.inl (if_pos hslot)
      · by_cases hstale : key ∈ stale
        · refine Or.inr (Or.inr ?_)
          simp [Effect.refreshes, hstale, hslot]
        · obtain ⟨base, added, rfl, hbase, hadded⟩ := hsound
          have hlength : base.length = list.length := by simpa using congrArg List.length hbase
          rw [if_neg hslot, h key hstale, ← lastIndex_of_map_eq hbase]
          obtain rfl | ⟨m, rfl, -⟩ := hadded
          · rw [List.append_nil]
            exact Or.inl rfl
          · by_cases hkey : key ∈ indexKeys m
            · refine Or.inr (Or.inl ⟨?_, ?_⟩)
              · rw [Effect.appends, ← hlength, List.drop_left]
                simpa using hkey
              · rw [lastIndex_append, if_pos hkey, hlength]
            · rw [lastIndex_append, if_neg hkey]
              exact Or.inl rfl

theorem behind_flush (h : Agree stale index list) (hpending : Undisturbed stale list pending) :
    Behind stale list pending index (flush list index pending).2 := by
  induction pending generalizing stale list index with
  | nil => exact fun key ↦ Or.inl rfl
  | cons item rest ih =>
      obtain ⟨hitem, hrest⟩ := hpending
      intro key
      rw [flush_cons, h.mergeItem fun key hkey ↦ (hitem key hkey).1]
      rw [laterPlaces, refreshedLater]
      obtain hsame | ⟨p, hp, hlookup⟩ | hfresh := ih h.next hrest key
      · rw [hsame]
        obtain hkept | ⟨happends, hplace⟩ | hrefreshes := h.lookup_apply key
          (PendingItem.effectAlone_sound item list)
        · exact Or.inl hkept
        · refine Or.inr (Or.inl ⟨list.length, ?_, hplace⟩)
          rw [if_pos happends]
          exact List.mem_append_left _ (List.mem_singleton_self _)
        · exact Or.inr (Or.inr (by rw [hrefreshes, Bool.true_or]))
      · exact Or.inr (Or.inl ⟨p, List.mem_append_right _ hp, hlookup⟩)
      · exact Or.inr (Or.inr (by rw [hfresh, Bool.or_true]))

theorem Behind.effect_eq (h : Behind stale list (item :: rest) index rerun)
    (hagree : Agree stale index list) (hpending : Undisturbed stale list (item :: rest)) :
    item.effect list (rerun.find list) = item.effectAlone list := by
  cases hasks : item.asks with
  | none =>
      apply PendingItem.effect_congr
      intro key hkey
      rw [hasks] at hkey
      cases hkey
  | some key =>
      have hcongr : ∀ find, rerun.find list key = find key →
          item.effect list (rerun.find list) = item.effect list find := by
        intro find hfind
        apply PendingItem.effect_congr
        intro key' hkey'
        obtain rfl := Option.some.inj (hasks.symm.trans hkey')
        exact hfind
      obtain ⟨hstale, hfresh, hplaces⟩ := hpending.1 key hasks
      obtain hsame | ⟨p, hp, hlookup⟩ | hrefresh := h key
      · exact hcongr _ (find_congr (hsame.trans ((hagree key hstale).trans
          lookup_buildMessageIndex.symm)))
      · have hle := length_le_of_laterPlaces hp
        have hnone : rerun.find list key = none := by
          rw [MessageIndex.find, hlookup, Option.bind_some, List.getElem?_eq_none hle]
          rfl
        cases hknown : known list key with
        | none => exact hcongr _ (hnone.trans hknown.symm)
        | some entry =>
            -- The card that takes the key is the one that the item itself appends.
            rw [laterPlaces, hplaces (by rw [hknown]; rfl), List.append_nil] at hp
            split at hp
            · next happends =>
                rw [hcongr (fun _ ↦ none) hnone]
                cases heffect : item.effectAlone list with
                | append m recorded => exact PendingItem.effect_eq_append heffect
                | regroup result =>
                    have hregroup := PendingItem.effectAlone_isRegroup hasks list
                    rw [heffect] at hregroup
                    cases hregroup
                | keep =>
                    rw [heffect] at happends
                    cases happends
                | replace i m =>
                    rw [heffect] at happends
                    cases happends
            · cases hp
      · rw [refreshedLater, hfresh, Bool.or_false] at hrefresh
        have hregroup := PendingItem.effectAlone_isRegroup hasks list
        cases heffect : item.effectAlone list with
        | regroup result =>
            rw [heffect] at hregroup
            cases hregroup
        | _ =>
            rw [heffect] at hrefresh
            cases hrefresh

theorem Behind.next (h : Behind stale list (item :: rest) index rerun) :
    Behind (staleAfter stale list (item.effectAlone list)) (mergeAlone list item) rest
      ((item.effectAlone list).apply list index).2
      ((item.effectAlone list).apply list rerun).2 := by
  intro key
  have hsound := PendingItem.effectAlone_sound item list
  have hkey := h key
  rw [laterPlaces, refreshedLater] at hkey
  cases heffect : item.effectAlone list with
  | keep =>
      simp only [Effect.apply]
      simpa [heffect, Effect.appends, Effect.refreshes] using hkey
  | replace i message =>
      simp only [Effect.apply]
      simpa [heffect, Effect.appends, Effect.refreshes] using hkey
  | append message recorded =>
      simp only [Effect.apply, MessageIndex.lookup_setAll]
      by_cases hrecorded : key ∈ recorded
      · exact Or.inl (by rw [if_pos hrecorded, if_pos hrecorded])
      · rw [if_neg hrecorded, if_neg hrecorded]
        simpa [heffect, Effect.appends, Effect.refreshes, hrecorded] using hkey
  | regroup result =>
      rw [lookup_apply_regroup, lookup_apply_regroup]
      by_cases hslot : key.1 = .terminalId
      · rw [if_pos hslot, if_pos hslot]
        have happends : (Effect.regroup result).appends list key = false := by
          rw [heffect] at hsound
          obtain ⟨base, added, rfl, hbase, hadded⟩ := hsound
          have hlength : base.length = list.length := by simpa using congrArg List.length hbase
          rw [Effect.appends, ← hlength, List.drop_left]
          obtain rfl | ⟨m, rfl, hm⟩ := hadded
          · rfl
          · simpa using fun hmem ↦ hm key hmem hslot
        simpa [heffect, happends, Effect.refreshes, hslot] using hkey
      · exact Or.inl (by rw [if_neg hslot, if_neg hslot])

theorem rerun_eq (h : Behind stale list pending index rerun) (hagree : Agree stale index list)
    (hpending : Undisturbed stale list pending) :
    (flush list rerun pending).1 = pending.foldl mergeAlone list := by
  induction pending generalizing stale list index rerun with
  | nil => rfl
  | cons item rest ih =>
      have hstep : mergeItem (list, rerun) item =
          (mergeAlone list item, ((item.effectAlone list).apply list rerun).2) := by
        rw [mergeItem, h.effect_eq hagree hpending, mergeAlone_eq]
      rw [flush_cons, hstep, List.foldl_cons]
      exact ih h.next hagree.next hpending.2

end Rerun

section Cuts

theorem mem_staleAfter {stale' : List (Slot × String)} (h : ∀ key ∈ stale, key ∈ stale') :
    ∀ key ∈ staleAfter stale list effect, key ∈ staleAfter stale' list effect := by
  intro key hkey
  rw [staleAfter, List.mem_append, List.mem_filter] at hkey ⊢
  exact hkey.imp_left (And.imp_left (h key))

theorem refreshedLater_mono {stale' : List (Slot × String)} (h : ∀ key ∈ stale, key ∈ stale')
    (hfresh : refreshedLater key stale' list items = false) :
    refreshedLater key stale list items = false := by
  induction items generalizing stale stale' list with
  | nil => rfl
  | cons item rest ih =>
      rw [refreshedLater, Bool.or_eq_false_iff] at hfresh ⊢
      refine ⟨?_, ih (mem_staleAfter h) hfresh.2⟩
      have hfirst := hfresh.1
      cases heffect : item.effectAlone list with
      | regroup result =>
          rw [heffect, Effect.refreshes, Bool.and_eq_false_iff] at hfirst
          rw [Effect.refreshes, Bool.and_eq_false_iff]
          exact hfirst.imp_left fun hmem ↦ decide_eq_false fun hkey ↦
            of_decide_eq_false hmem (h key hkey)
      | _ => rfl

theorem Undisturbed.mono {stale' : List (Slot × String)} (h : ∀ key ∈ stale, key ∈ stale')
    (hitems : Undisturbed stale' list items) : Undisturbed stale list items := by
  induction items generalizing stale stale' list with
  | nil => trivial
  | cons item rest ih =>
      refine ⟨fun key hkey ↦ ?_, ih (mem_staleAfter h) hitems.2⟩
      obtain ⟨hstale, hfresh, hplaces⟩ := hitems.1 key hkey
      exact ⟨fun hmem ↦ hstale (h key hmem), refreshedLater_mono (mem_staleAfter h) hfresh, hplaces⟩

theorem refreshedLater_append_left (h : refreshedLater key stale list (pending ++ rest) = false) :
    refreshedLater key stale list pending = false := by
  induction pending generalizing stale list with
  | nil => rfl
  | cons item pending ih =>
      rw [List.cons_append, refreshedLater, Bool.or_eq_false_iff] at h
      rw [refreshedLater, Bool.or_eq_false_iff]
      exact ⟨h.1, ih h.2⟩

theorem laterPlaces_append_left (h : laterPlaces key list (pending ++ rest) = []) :
    laterPlaces key list pending = [] := by
  induction pending generalizing list with
  | nil => rfl
  | cons item pending ih =>
      rw [List.cons_append, laterPlaces, List.append_eq_nil_iff] at h
      rw [laterPlaces, List.append_eq_nil_iff]
      exact ⟨h.1, ih h.2⟩

theorem Undisturbed.append (h : Undisturbed stale list (pending ++ rest)) :
    Undisturbed stale list pending ∧ Undisturbed [] (pending.foldl mergeAlone list) rest := by
  induction pending generalizing stale list with
  | nil => exact ⟨trivial, h.mono fun _ hkey ↦ absurd hkey List.not_mem_nil⟩
  | cons item pending ih =>
      obtain ⟨hitem, hrest⟩ := h
      obtain ⟨hpending, hleft⟩ := ih hrest
      refine ⟨⟨fun key hkey ↦ ?_, hpending⟩, hleft⟩
      obtain ⟨hstale, hfresh, hplaces⟩ := hitem key hkey
      exact ⟨hstale, refreshedLater_append_left hfresh,
        fun hknown ↦ laterPlaces_append_left (hplaces hknown)⟩

structure BatchesIrrelevant (list : List TMessage) (flushes : List (List PendingItem)) : Prop where
  list_eq : flushAll list flushes = flushes.flatten.foldl mergeAlone list
  index_eq : ∀ pre post done item left key,
    flushes = pre ++ (done ++ item :: left) :: post → key ∈ PendingItem.asks item →
      let start := flushAll list pre
      let state := flush start (buildMessageIndex start) done
      state.2.lookup key = (buildMessageIndex state.1).lookup key
  rerun_eq : ∀ pre pending post, flushes = pre ++ pending :: post →
    let start := flushAll list pre
    let state := flush start (buildMessageIndex start) pending
    (flush start state.2 pending).1 = state.1

theorem flushAll_eq {flushes : List (List PendingItem)}
    (h : Undisturbed stale list flushes.flatten) :
    flushAll list flushes = flushes.flatten.foldl mergeAlone list := by
  induction flushes generalizing stale list with
  | nil => rfl
  | cons pending flushes ih =>
      rw [List.flatten_cons] at h ⊢
      obtain ⟨hpending, hrest⟩ := h.append
      rw [List.foldl_append, ← ih hrest, ← flush_eq (agree_build stale list) hpending]
      rfl

/-- The live list does not depend on the batches as long as the messages are undisturbed. -/
theorem batchesIrrelevant_of_undisturbed (list : List TMessage)
    (flushes : List (List PendingItem)) (h : Undisturbed [] list flushes.flatten) :
    BatchesIrrelevant list flushes := by
  have hflush : ∀ pre pending post, flushes = pre ++ pending :: post →
      Undisturbed [] (flushAll list pre) pending := by
    rintro pre pending post rfl
    rw [List.flatten_append, List.flatten_cons] at h
    obtain ⟨hpre, hrest⟩ := h.append
    rw [flushAll_eq hpre]
    exact hrest.append.1
  refine ⟨flushAll_eq h, ?_, ?_⟩
  · intro pre post done item left key hflushes hkey
    exact lookup_flush (agree_build [] _) (hflush _ _ _ hflushes) hkey
  · intro pre pending post hflushes
    have hpending := hflush _ _ _ hflushes
    have hagree := agree_build [] (flushAll list pre)
    simp only
    rw [rerun_eq (behind_flush hagree hpending) hagree hpending, flush_eq hagree hpending]

def frame (content : Content) : PendingItem :=
  ⟨⟨"id", some "turn", "conversation", some .left, content, ∅⟩, false⟩

/-- A tool runs and ends after a text. -/
theorem toolRun_irrelevant :
    BatchesIrrelevant [(frame (.text ⟨"hello", none, none, ∅⟩)).message]
      [[frame (.toolCall ⟨some "call", ∅⟩)],
        [frame (.toolCall ⟨some "call", ∅⟩), frame (.text ⟨"done", none, none, ∅⟩)]] :=
  batchesIrrelevant_of_undisturbed _ _ (by decide)

/-- In one flush the end of the first tool of a conversation does not find its card. -/
theorem firstTool_duplicated :
    ¬ ∀ (list : List TMessage) (flushes : List (List PendingItem)),
      BatchesIrrelevant list flushes := by
  intro h
  have hlist := (h [] [[frame (.toolCall ⟨some "call", ∅⟩),
    frame (.toolCall ⟨some "call", ∅⟩)]]).list_eq
  exact absurd (congrArg List.length hlist) (by decide)

end Cuts

end Zaowutai.MessageList
