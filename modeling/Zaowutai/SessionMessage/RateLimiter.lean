import Zaowutai.Lib.Framing
import Zaowutai.Lib.Table
import Zaowutai.Lib.TimeWindows

/-!
# Limits on the messages between sessions

Two counters, one for a sender and one for a pair, hold the times of the
messages that were let through.  A counter is pruned when it is looked at, and
a message that is refused is not counted.
-/

namespace Zaowutai.SessionMessage

open Zaowutai.Lib

def windowMs : ℤ := 10 * 60 * 1000

def outboundLimit : ℕ := 20

def pairLimit : ℕ := 10

inductive SessionRateGate
  | outbound
  | pair
  deriving DecidableEq, Repr

inductive RateVerdict
  | allowed
  | tripped (gate : SessionRateGate) (windowCount : ℕ)
  deriving DecidableEq, Repr

namespace RateVerdict

def isAllowed : RateVerdict → Bool
  | .allowed => true
  | .tripped _ _ => false

end RateVerdict

/-- The conversion `as u32`. -/
def asU32 (n : ℕ) : ℕ := n % 4294967296

structure Windows where
  outbound : Table String (List ℤ)
  pair : Table (String × String) (List ℤ)

structure RateCall where
  now : ℤ
  fromId : String
  toId : String
  deriving DecidableEq, Repr

namespace Windows

variable (w : Windows)

def outboundOf (fromId : String) : List ℤ := (w.outbound.lookup fromId).getD []

def pairOf (fromId toId : String) : List ℤ := (w.pair.lookup (fromId, toId)).getD []

/-- Both counters are pruned; the message is counted only if both have room.  The pair comes
first. -/
def checkAndRecord (call : RateCall) : Windows × RateVerdict :=
  let outbound := recent windowMs call.now (w.outboundOf call.fromId)
  let outboundCount := asU32 outbound.length
  let pair := recent windowMs call.now (w.pairOf call.fromId call.toId)
  let pairCount := asU32 pair.length
  let pruned : Windows :=
    ⟨w.outbound.insert call.fromId outbound, w.pair.insert (call.fromId, call.toId) pair⟩
  if pairLimit ≤ pairCount then (pruned, .tripped .pair pairCount)
  else if outboundLimit ≤ outboundCount then (pruned, .tripped .outbound outboundCount)
  else
    (⟨pruned.outbound.insert call.fromId (outbound ++ [call.now]),
      pruned.pair.insert (call.fromId, call.toId) (pair ++ [call.now])⟩, .allowed)

def verdicts : Windows → List RateCall → List RateVerdict
  | _, [] => []
  | w, call :: calls =>
      (w.checkAndRecord call).2 :: (w.checkAndRecord call).1.verdicts calls

def new : Windows := ⟨∅, ∅⟩

end Windows

/-!
## The limits hold in every window

The counters agree, as far as any later call can tell, with the list of all
messages that were let through.  The answers are therefore those of a limiter
that forgets nothing, which does not change when it refuses a message.
-/

section Times

variable {κ : Type*} [DecidableEq κ] (key : RateCall → κ)

def timesOf (history : List RateCall) (k : κ) : List ℤ :=
  (history.filter fun call ↦ key call = k).map (·.now)

variable {key} {history : List RateCall} {k : κ}

theorem le_of_mem_timesOf {last moment : ℤ} (h : ∀ call ∈ history, call.now ≤ last)
    (hmem : moment ∈ timesOf key history k) : moment ≤ last := by
  obtain ⟨call, hcall, rfl⟩ := List.mem_map.mp hmem
  exact h call (List.mem_filter.mp hcall).1

theorem timesOf_concat (call : RateCall) :
    timesOf key (history ++ [call]) k =
      timesOf key history k ++ if k = key call then [call.now] else [] := by
  rw [timesOf, List.filter_append, List.map_append, ← timesOf]
  by_cases hkey : k = key call
  · simp [hkey]
  · simp [hkey, Ne.symm hkey]

end Times

abbrev sentBy (history : List RateCall) (fromId : String) : List ℤ :=
  timesOf RateCall.fromId history fromId

abbrev sentBetween (history : List RateCall) (fromId toId : String) : List ℤ :=
  timesOf (fun call ↦ (call.fromId, call.toId)) history (fromId, toId)

namespace SessionRateGate

def limit : SessionRateGate → ℕ
  | .outbound => outboundLimit
  | .pair => pairLimit

def counted (history : List RateCall) (call : RateCall) : SessionRateGate → List ℤ
  | .outbound => sentBy history call.fromId
  | .pair => sentBetween history call.fromId call.toId

end SessionRateGate

/-- The answer of a limiter that has kept everything it let through. -/
def judge (history : List RateCall) (call : RateCall) : RateVerdict :=
  let pairCount := (recent windowMs call.now (sentBetween history call.fromId call.toId)).length
  let outboundCount := (recent windowMs call.now (sentBy history call.fromId)).length
  if pairLimit ≤ pairCount then .tripped .pair pairCount
  else if outboundLimit ≤ outboundCount then .tripped .outbound outboundCount
  else .allowed

def judged (history : List RateCall) (call : RateCall) : List RateCall :=
  if (judge history call).isAllowed then history ++ [call] else history

def judgements : List RateCall → List RateCall → List RateVerdict
  | _, [] => []
  | history, call :: calls => judge history call :: judgements (judged history call) calls

def allowedCalls (w : Windows) (calls : List RateCall) : List RateCall :=
  ((calls.zip (w.verdicts calls)).filter fun answered ↦ answered.2.isAllowed).map Prod.fst

structure HoldsLimits (calls : List RateCall) : Prop where
  pairs : ∀ fromId toId,
    Limited windowMs pairLimit (sentBetween (allowedCalls .new calls) fromId toId)
  senders : ∀ fromId, Limited windowMs outboundLimit (sentBy (allowedCalls .new calls) fromId)
  tripped : ∀ before call after gate count, calls = before ++ call :: after →
    (Windows.new.verdicts calls)[before.length]? = some (.tripped gate count) →
      (inWindow windowMs call.now (gate.counted (allowedCalls .new before) call)).length = count ∧
        gate.limit ≤ count
  removable : ∀ before call after gate count, calls = before ++ call :: after →
    (Windows.new.verdicts calls)[before.length]? = some (.tripped gate count) →
      Windows.new.verdicts (before ++ after) =
        (Windows.new.verdicts calls).eraseIdx before.length

/-- The counters hold, as far as the window reaches back, what was let through. -/
structure Windows.Reflects (w : Windows) (last : ℤ) (history : List RateCall) : Prop where
  past : ∀ call ∈ history, call.now ≤ last
  outbound : ∀ fromId now, last ≤ now →
    recent windowMs now (w.outboundOf fromId) = recent windowMs now (sentBy history fromId)
  pair : ∀ fromId toId now, last ≤ now →
    recent windowMs now (w.pairOf fromId toId) = recent windowMs now (sentBetween history fromId toId)
  senders : ∀ fromId, Limited windowMs outboundLimit (sentBy history fromId)
  pairs : ∀ fromId toId, Limited windowMs pairLimit (sentBetween history fromId toId)

theorem Windows.reflects_new (last : ℤ) : Windows.new.Reflects last [] :=
  ⟨fun _ h ↦ (by cases h), fun _ _ _ ↦ rfl, fun _ _ _ _ ↦ rfl, fun _ ↦ limited_nil,
    fun _ _ ↦ limited_nil⟩

theorem asU32_of_le {n limit : ℕ} (h : n ≤ limit) (hlimit : limit < 4294967296) : asU32 n = n :=
  Nat.mod_eq_of_lt (h.trans_lt hlimit)

theorem judge_isAllowed_iff {history : List RateCall} {call : RateCall} :
    (judge history call).isAllowed = true ↔
      (recent windowMs call.now (sentBetween history call.fromId call.toId)).length < pairLimit ∧
        (recent windowMs call.now (sentBy history call.fromId)).length < outboundLimit := by
  rw [judge]
  split
  · next hpair => exact ⟨fun h ↦ (by cases h), fun h ↦ absurd hpair h.1.not_ge⟩
  · next hpair =>
      split
      · next houtbound => exact ⟨fun h ↦ (by cases h), fun h ↦ absurd houtbound h.2.not_ge⟩
      · next houtbound => exact ⟨fun _ ↦ ⟨not_le.mp hpair, not_le.mp houtbound⟩, fun _ ↦ rfl⟩

theorem limited_judged_times {κ : Type*} [DecidableEq κ] {key : RateCall → κ}
    {history : List RateCall} {call : RateCall} {limit : ℕ}
    (hlimited : ∀ k, Limited windowMs limit (timesOf key history k))
    (hroom : (judge history call).isAllowed = true →
      (recent windowMs call.now (timesOf key history (key call))).length < limit) (k : κ) :
    Limited windowMs limit (timesOf key (judged history call) k) := by
  rw [judged]
  split
  · next hallowed =>
      rw [timesOf_concat]
      split
      · next hkey =>
          rw [hkey]
          exact (hlimited (key call)).concat (hroom hallowed)
      · rw [List.append_nil]
        exact hlimited k
  · exact hlimited k

theorem recent_judged {κ : Type*} [DecidableEq κ] {key : RateCall → κ} {history : List RateCall}
    {call : RateCall} {k : κ} {now : ℤ} {counter own : List ℤ} (hnow : call.now ≤ now)
    (hown : k = key call → own = counter)
    (hbefore : recent windowMs now counter = recent windowMs now (timesOf key history k)) :
    recent windowMs now
        (if k = key call then
          recent windowMs call.now own ++ if (judge history call).isAllowed then [call.now] else []
        else counter) =
      recent windowMs now (timesOf key (judged history call) k) := by
  rw [judged]
  split
  · next hkey =>
      rw [hown hkey, recent_append, recent_recent hnow, hbefore]
      split
      · rw [timesOf_concat, if_pos hkey, recent_append]
      · exact List.append_nil _
  · next hkey =>
      rw [hbefore]
      split
      · rw [timesOf_concat, if_neg hkey, List.append_nil]
      · rfl

namespace Windows

variable {w : Windows} {last : ℤ} {history calls : List RateCall} {call : RateCall}

theorem Reflects.verdict (h : w.Reflects last history) (hcall : last ≤ call.now) :
    (w.checkAndRecord call).2 = judge history call := by
  have houtbound := h.outbound call.fromId call.now hcall
  have hpair := h.pair call.fromId call.toId call.now hcall
  have hpast : ∀ other ∈ history, other.now ≤ call.now := fun other hmem ↦
    (h.past other hmem).trans hcall
  have hpairLength := (h.pairs call.fromId call.toId).length_recent_le fun moment hmem ↦
    le_of_mem_timesOf hpast hmem
  have houtboundLength := (h.senders call.fromId).length_recent_le fun moment hmem ↦
    le_of_mem_timesOf hpast hmem
  simp only [checkAndRecord, houtbound, hpair]
  rw [asU32_of_le hpairLength (by decide), asU32_of_le houtboundLength (by decide)]
  simp only [judge]
  split
  · rfl
  · split
    · rfl
    · rfl

theorem checkAndRecord_fst : (w.checkAndRecord call).1 =
    ⟨w.outbound.insert call.fromId (recent windowMs call.now (w.outboundOf call.fromId) ++
        if (w.checkAndRecord call).2.isAllowed then [call.now] else []),
      w.pair.insert (call.fromId, call.toId)
        (recent windowMs call.now (w.pairOf call.fromId call.toId) ++
          if (w.checkAndRecord call).2.isAllowed then [call.now] else [])⟩ := by
  simp only [checkAndRecord]
  split
  · simp [RateVerdict.isAllowed]
  · split
    · simp [RateVerdict.isAllowed]
    · simp [RateVerdict.isAllowed, AList.insert_insert]

theorem outboundOf_checkAndRecord (fromId : String) :
    (w.checkAndRecord call).1.outboundOf fromId =
      if fromId = call.fromId then
        recent windowMs call.now (w.outboundOf call.fromId) ++
          if (w.checkAndRecord call).2.isAllowed then [call.now] else []
      else w.outboundOf fromId := by
  rw [outboundOf, checkAndRecord_fst, Table.lookup_insert_eq]
  split <;> rfl

theorem pairOf_checkAndRecord (fromId toId : String) :
    (w.checkAndRecord call).1.pairOf fromId toId =
      if (fromId, toId) = (call.fromId, call.toId) then
        recent windowMs call.now (w.pairOf call.fromId call.toId) ++
          if (w.checkAndRecord call).2.isAllowed then [call.now] else []
      else w.pairOf fromId toId := by
  rw [pairOf, checkAndRecord_fst, Table.lookup_insert_eq]
  split <;> rfl

theorem Reflects.step (h : w.Reflects last history) (hcall : last ≤ call.now) :
    (w.checkAndRecord call).1.Reflects call.now (judged history call) := by
  have hverdict := h.verdict hcall
  refine ⟨?_, ?_, ?_, ?_, ?_⟩
  · intro other hmem
    rw [judged] at hmem
    split at hmem
    · rcases List.mem_append.mp hmem with hmem | hmem
      · exact (h.past other hmem).trans hcall
      · rw [List.mem_singleton.mp hmem]
    · exact (h.past other hmem).trans hcall
  · intro fromId now hnow
    rw [outboundOf_checkAndRecord, hverdict]
    exact recent_judged hnow (fun h' ↦ h' ▸ rfl) (h.outbound fromId now (hcall.trans hnow))
  · intro fromId toId now hnow
    rw [pairOf_checkAndRecord, hverdict]
    exact recent_judged hnow (fun h' ↦ by obtain ⟨rfl, rfl⟩ := Prod.mk.inj h'; rfl)
      (h.pair fromId toId now (hcall.trans hnow))
  · exact limited_judged_times h.senders fun hallowed ↦ (judge_isAllowed_iff.mp hallowed).2
  · intro fromId toId
    exact limited_judged_times (fun key ↦ h.pairs key.1 key.2)
      (fun hallowed ↦ (judge_isAllowed_iff.mp hallowed).1) (fromId, toId)

/-- While the clock does not go back, the limiter answers like one that forgets nothing. -/
theorem Reflects.verdicts (h : w.Reflects last history)
    (hsorted : calls.Pairwise fun first second ↦ first.now ≤ second.now)
    (hlast : ∀ call ∈ calls, last ≤ call.now) :
    w.verdicts calls = judgements history calls := by
  induction calls generalizing w last history with
  | nil => rfl
  | cons call calls ih =>
      obtain ⟨hfirst, hrest⟩ := List.pairwise_cons.mp hsorted
      have hcall := hlast call List.mem_cons_self
      rw [Windows.verdicts, judgements, h.verdict hcall, ih (h.step hcall) hrest hfirst]

end Windows

section Judgements

variable {history before after calls : List RateCall} {call : RateCall}

theorem judgements_append (history before after : List RateCall) :
    judgements history (before ++ after) =
      judgements history before ++ judgements (before.foldl judged history) after := by
  induction before generalizing history with
  | nil => rfl
  | cons call before ih => rw [List.cons_append, judgements, judgements, ih, List.cons_append,
      List.foldl_cons]

theorem length_judgements (history calls : List RateCall) :
    (judgements history calls).length = calls.length := by
  induction calls generalizing history with
  | nil => rfl
  | cons call calls ih => rw [judgements, List.length_cons, ih, List.length_cons]

theorem append_allowed (history calls : List RateCall) :
    history ++ ((calls.zip (judgements history calls)).filter
        fun answered ↦ answered.2.isAllowed).map Prod.fst = calls.foldl judged history := by
  induction calls generalizing history with
  | nil => exact List.append_nil history
  | cons call calls ih =>
      rw [judgements, List.zip_cons_cons, List.filter_cons, List.foldl_cons, ← ih, judged]
      split
      · rw [List.map_cons, List.append_cons]
      · rfl

theorem limited_foldl_judged {κ : Type*} [DecidableEq κ] {key : RateCall → κ} {limit : ℕ}
    (hroom : ∀ history call, (judge history call).isAllowed = true →
      (recent windowMs call.now (timesOf key history (key call))).length < limit)
    (hlimited : ∀ k, Limited windowMs limit (timesOf key history k)) (k : κ) :
    Limited windowMs limit (timesOf key (calls.foldl judged history) k) := by
  induction calls generalizing history with
  | nil => exact hlimited k
  | cons call calls ih => exact ih fun k ↦ limited_judged_times hlimited (hroom history call) k

theorem mem_foldl_judged (h : call ∈ calls.foldl judged history) :
    call ∈ history ∨ call ∈ calls := by
  rw [← append_allowed] at h
  rcases List.mem_append.mp h with hmem | hmem
  · exact .inl hmem
  · obtain ⟨⟨answered, verdict⟩, hfiltered, rfl⟩ := List.mem_map.mp hmem
    exact .inr (List.of_mem_zip (List.mem_filter.mp hfiltered).1).1

theorem tripped_of_judge {gate : SessionRateGate} {count : ℕ}
    (h : judge history call = .tripped gate count) :
    (recent windowMs call.now (gate.counted history call)).length = count ∧ gate.limit ≤ count := by
  rw [judge] at h
  split at h
  · next hpair =>
      cases h
      exact ⟨rfl, hpair⟩
  · split at h
    · next houtbound =>
        cases h
        exact ⟨rfl, houtbound⟩
    · cases h

theorem le_of_mem_counted {gate : SessionRateGate} {last moment : ℤ}
    (h : ∀ other ∈ history, other.now ≤ last) (hmem : moment ∈ gate.counted history call) :
    moment ≤ last := by
  cases gate with
  | outbound => exact le_of_mem_timesOf h hmem
  | pair => exact le_of_mem_timesOf h hmem

theorem verdicts_eq_judgements
    (hsorted : calls.Pairwise fun first second ↦ first.now ≤ second.now) :
    Windows.new.verdicts calls = judgements [] calls := by
  cases calls with
  | nil => rfl
  | cons call calls =>
      refine (Windows.reflects_new call.now).verdicts hsorted fun other hmem ↦ ?_
      rcases List.mem_cons.mp hmem with rfl | hmem
      · exact le_rfl
      · exact (List.pairwise_cons.mp hsorted).1 other hmem

theorem allowedCalls_eq (hsorted : calls.Pairwise fun first second ↦ first.now ≤ second.now) :
    allowedCalls .new calls = calls.foldl judged [] := by
  rw [allowedCalls, verdicts_eq_judgements hsorted]
  exact append_allowed [] calls

theorem judge_of_tripped {verdict : RateVerdict}
    (hsorted : (before ++ call :: after).Pairwise fun first second ↦ first.now ≤ second.now)
    (h : (Windows.new.verdicts (before ++ call :: after))[before.length]? = some verdict) :
    judge (before.foldl judged []) call = verdict := by
  rw [verdicts_eq_judgements hsorted, judgements_append,
    List.getElem?_append_right (length_judgements [] before).le, length_judgements, Nat.sub_self,
    judgements] at h
  exact Option.some.inj h

end Judgements

/-- With a clock that does not go back the limits hold in every window, a call is refused only by a
full window, and a refused call leaves no trace. -/
theorem holdsLimits {calls : List RateCall}
    (hsorted : calls.Pairwise fun first second ↦ first.now ≤ second.now) : HoldsLimits calls := by
  refine ⟨?_, ?_, ?_, ?_⟩
  · intro fromId toId
    rw [allowedCalls_eq hsorted]
    exact limited_foldl_judged (fun _ _ hallowed ↦ (judge_isAllowed_iff.mp hallowed).1)
      (fun _ ↦ limited_nil) (fromId, toId)
  · intro fromId
    rw [allowedCalls_eq hsorted]
    exact limited_foldl_judged (fun _ _ hallowed ↦ (judge_isAllowed_iff.mp hallowed).2)
      (fun _ ↦ limited_nil) fromId
  · rintro before call after gate count rfl hverdict
    obtain ⟨hbefore, -, hacross⟩ := List.pairwise_append.mp hsorted
    have hpast : ∀ other ∈ before.foldl judged [], other.now ≤ call.now := by
      intro other hmem
      rcases mem_foldl_judged hmem with hmem | hmem
      · cases hmem
      · exact hacross other hmem call List.mem_cons_self
    rw [allowedCalls_eq hbefore, inWindow_eq_recent fun moment hmem ↦ le_of_mem_counted hpast hmem]
    exact tripped_of_judge (judge_of_tripped hsorted hverdict)
  · rintro before call after gate count rfl hverdict
    have hjudge := judge_of_tripped hsorted hverdict
    have hkept : judged (before.foldl judged []) call = before.foldl judged [] := by
      rw [judged, hjudge]
      rfl
    have hsub : (before ++ after).Sublist (before ++ call :: after) :=
      (List.sublist_cons_self call after).append_left before
    rw [verdicts_eq_judgements hsorted, verdicts_eq_judgements (hsorted.sublist hsub),
      judgements_append, judgements_append, judgements, hkept,
      List.eraseIdx_append_of_length_le (length_judgements [] before).le, length_judgements,
      Nat.sub_self, List.eraseIdx_cons_zero]

theorem holdsLimits_two : HoldsLimits [⟨0, "a", "b"⟩, ⟨600000, "a", "b"⟩] :=
  holdsLimits (by decide)

section Senders

variable {fromId : String}

namespace Windows

def answer (w : Windows) (call : RateCall) : Windows × List (RateCall × RateVerdict) :=
  ((w.checkAndRecord call).1, [(call, (w.checkAndRecord call).2)])

theorem thread_answer (w : Windows) (calls : List RateCall) :
    (thread answer w calls).2 = calls.zip (w.verdicts calls) := by
  induction calls generalizing w with
  | nil => rfl
  | cons call calls ih =>
      rw [thread_cons, ih, verdicts, List.zip_cons_cons]
      rfl

theorem separates_answer :
    Separates answer (fun w ↦ (w.outboundOf fromId, w.pairOf fromId))
      (fun call ↦ call.fromId = fromId) (fun answered ↦ answered.1.fromId = fromId) := by
  constructor
  · intro w call answered hanswered
    rw [List.mem_singleton.mp hanswered]
  · intro w call hcall
    have hne : fromId ≠ call.fromId := Ne.symm (of_decide_eq_false hcall)
    apply Prod.ext
    · exact (outboundOf_checkAndRecord fromId).trans (if_neg hne)
    · funext toId
      exact (pairOf_checkAndRecord fromId toId).trans
        (if_neg fun h ↦ hne (congrArg Prod.fst h))
  · intro w w' call hcall hview
    obtain rfl := of_decide_eq_true hcall
    obtain ⟨houtbound, hpair⟩ := Prod.mk.inj hview
    have hverdict : (w.checkAndRecord call).2 = (w'.checkAndRecord call).2 := by
      simp only [checkAndRecord, houtbound, hpair, apply_ite Prod.snd]
    refine ⟨?_, by rw [answer, answer, hverdict]⟩
    apply Prod.ext
    · simp only [answer, outboundOf_checkAndRecord, houtbound, hverdict]
    · funext toId
      simp only [answer, pairOf_checkAndRecord, hpair, hverdict]

end Windows

/-- Whatever the clocks show, a sender gets the answers that it would get if nobody else sent. -/
theorem senders_independent (fromId : String) (calls : List RateCall) :
    (calls.zip (Windows.new.verdicts calls)).filter (fun answered ↦ answered.1.fromId = fromId) =
      (calls.filter (·.fromId = fromId)).zip
        (Windows.new.verdicts (calls.filter (·.fromId = fromId))) := by
  rw [← Windows.thread_answer, ← Windows.thread_answer]
  exact (Windows.separates_answer.thread rfl calls).2

end Senders

end Zaowutai.SessionMessage
