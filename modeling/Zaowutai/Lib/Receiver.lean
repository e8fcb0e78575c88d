import Mathlib.Data.List.Basic

/-!
# Receivers of a broadcast channel

A receiver holds what has been sent since it subscribed and has not been read
yet.  Its reader stops for good at the first value that ends it, so that what
waits behind such a value is never read.
-/

namespace Zaowutai.Lib

variable {α : Type*}

inductive Receiver (α : Type*)
  | ended
  | waiting (queue : List α)
  deriving DecidableEq, Repr

namespace Receiver

def queue : Receiver α → List α
  | .ended => []
  | .waiting queue => queue

def send (value : α) : Receiver α → Receiver α
  | .ended => .ended
  | .waiting queue => .waiting (queue ++ [value])

def receive (ends : α → Bool) : Receiver α → Option α × Receiver α
  | .waiting (value :: queue) => (some value, if ends value then .ended else .waiting queue)
  | receiver => (none, receiver)

def through (ends : α → Bool) : List α → List α
  | [] => []
  | value :: queue => if ends value then [value] else value :: through ends queue

def reads (ends : α → Bool) (receiver : Receiver α) : List α := through ends receiver.queue

def readsOn (ends : α → Bool) : Receiver α → Bool
  | .ended => false
  | .waiting queue => queue.all fun value ↦ !ends value

section Reads

variable {ends : α → Bool} {receiver : Receiver α} {value : α}

theorem through_append (queue : List α) (value : α) :
    through ends (queue ++ [value]) =
      through ends queue ++ if queue.all fun value ↦ !ends value then [value] else [] := by
  induction queue with
  | nil => simp [through]
  | cons first queue ih =>
      rw [List.cons_append, through, through, List.all_cons]
      by_cases h : ends first = true
      · simp [h]
      · simp [h, ih]

theorem mem_of_mem_through {queue : List α} (h : value ∈ through ends queue) : value ∈ queue := by
  induction queue with
  | nil => exact h
  | cons first queue ih =>
      rw [through] at h
      split at h
      · exact List.mem_cons.mpr (.inl (List.mem_singleton.mp h))
      · rcases List.mem_cons.mp h with rfl | h
        · exact List.mem_cons_self
        · exact List.mem_cons_of_mem _ (ih h)

theorem reads_send (receiver : Receiver α) (value : α) :
    (receiver.send value).reads ends =
      receiver.reads ends ++ if receiver.readsOn ends then [value] else [] := by
  cases receiver with
  | ended => rfl
  | waiting queue => exact through_append queue value

theorem reads_receive (receiver : Receiver α) :
    (receiver.receive ends).1.toList ++ (receiver.receive ends).2.reads ends =
      receiver.reads ends := by
  match receiver with
  | .ended => rfl
  | .waiting [] => rfl
  | .waiting (value :: queue) =>
      simp only [receive, Option.toList_some, List.singleton_append]
      by_cases h : ends value = true
      · simp [h, reads, Receiver.queue, through]
      · simp [h, reads, Receiver.queue, through]

theorem reads_of_queue_eq_nil (h : receiver.queue = []) : receiver.reads ends = [] := by
  rw [reads, h, through]

theorem queue_receive_subset (receiver : Receiver α) :
    (receiver.receive ends).2.queue ⊆ receiver.queue := by
  match receiver with
  | .ended => exact List.Subset.refl _
  | .waiting [] => exact List.Subset.refl _
  | .waiting (value :: queue) =>
      rw [receive]
      split
      · exact List.nil_subset _
      · exact List.subset_cons_self _ _

theorem queue_send_subset (receiver : Receiver α) (value : α) :
    (receiver.send value).queue ⊆ receiver.queue ++ [value] := by
  cases receiver with
  | ended => exact List.nil_subset _
  | waiting queue => exact List.Subset.refl _

theorem mem_queue_of_mem_reads (h : value ∈ receiver.reads ends) : value ∈ receiver.queue :=
  mem_of_mem_through h

end Reads

end Receiver

end Zaowutai.Lib
