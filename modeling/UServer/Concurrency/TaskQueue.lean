import UServer.Library.PriorityQueue

/-! The two queues of a Thread: messages_, and the heap delayed_messages_ that due tasks leave
for messages_. -/
namespace UServer.Concurrency
open Library

/-- Stands for no timeout in every duration. -/
def kForever : ℤ := -1

def timeDiff (later earlier : ℤ) : ℤ := later - earlier

/-- A posted std::function: whether it can be called, how many were accepted before it, and the
run_time_ms it was posted with, none for PostTask. -/
structure Task where
  callable : Bool
  serial : ℕ
  due : Option ℤ
  deriving DecidableEq

structure DelayedMessage where
  delayMs : ℤ
  runTimeMs : ℤ
  messageNumber : UInt32
  functor : Task
  deriving DecidableEq

namespace DelayedMessage

/-- operator<, by which the message to run first is the greatest. -/
def less (m rhs : DelayedMessage) : Bool :=
  rhs.runTimeMs < m.runTimeMs || (rhs.runTimeMs == m.runTimeMs && rhs.messageNumber < m.messageNumber)

/-- The first may leave a std::priority_queue before the second. -/
def Before (m m' : DelayedMessage) : Prop := ¬ m.less m' = true

instance : DecidableRel Before := fun m m' => inferInstanceAs (Decidable (¬ m.less m' = true))

theorem before_iff {m m' : DelayedMessage} : m.Before m' ↔
    m.runTimeMs < m'.runTimeMs ∨ m.runTimeMs = m'.runTimeMs ∧ m.messageNumber.toNat ≤ m'.messageNumber.toNat := by
  simp only [Before, less, Bool.or_eq_true, Bool.and_eq_true, decide_eq_true_eq, beq_iff_eq, UInt32.lt_iff_toNat_lt]
  omega

instance : Std.Total Before := ⟨fun m m' => by
  rw [before_iff, before_iff]
  omega⟩

instance : IsTrans DelayedMessage Before := ⟨fun m m' m'' h h' => by
  rw [before_iff] at *
  omega⟩

end DelayedMessage

structure TaskQueue where
  messages : List Task
  delayed : PriorityQueue DelayedMessage DelayedMessage.Before
  delayedNextNum : UInt32

namespace TaskQueue

def empty : TaskQueue := ⟨[],.empty,1⟩

/-- What PostTaskImpl does under mutex_. -/
def post (q : TaskQueue) (t : Task) : TaskQueue := { q with messages := q.messages ++ [t] }

/-- What PostDelayedTaskImpl does under mutex_. -/
def postDelayed (q : TaskQueue) (delayMs runTimeMs : ℤ) (t : Task) : TaskQueue :=
  { q with delayed := q.delayed.push ⟨delayMs,runTimeMs,q.delayedNextNum,t⟩, delayedNextNum := q.delayedNextNum + 1 }

/-- The loop of ProcessDelayedMessage over the heap. -/
def moveDue (now : ℤ) (messages : List Task) : (items : List DelayedMessage) → items.Pairwise DelayedMessage.Before →
    ℤ × List Task × PriorityQueue DelayedMessage DelayedMessage.Before
  | [], _ => (kForever,messages,.empty)
  | m :: rest, h =>
    if now < m.runTimeMs then (timeDiff m.runTimeMs now,messages,⟨m :: rest,h⟩)
    else moveDue now (messages ++ [m.functor]) rest h.of_cons

def processDelayedMessage (q : TaskQueue) (now : ℤ) : ℤ × TaskQueue :=
  match moveDue now q.messages q.delayed.items q.delayed.ordered with
  | (next,messages,delayed) => (next,{ q with messages, delayed })

/-- All that is queued, in the order in which it would leave if every delayed task were due. -/
def pending (q : TaskQueue) : List Task := q.messages ++ q.delayed.items.map DelayedMessage.functor

theorem moveDue_spec (now : ℤ) (messages : List Task) (items : List DelayedMessage)
    (h : items.Pairwise DelayedMessage.Before) : ∃ due, (∀ m ∈ due, m.runTimeMs ≤ now) ∧
      items = due ++ (moveDue now messages items h).2.2.items ∧
      (moveDue now messages items h).2.1 = messages ++ due.map DelayedMessage.functor := by
  induction items generalizing messages with
  | nil => exact ⟨[],by simp [moveDue, PriorityQueue.empty]⟩
  | cons m rest ih =>
    unfold moveDue
    split
    · exact ⟨[],by simp⟩
    · rename_i hm
      obtain ⟨due,hd,hi,hm'⟩ := ih (messages ++ [m.functor]) h.of_cons
      refine ⟨m :: due,List.forall_mem_cons.mpr ⟨not_lt.mp hm,hd⟩,?_,?_⟩
      · rw [List.cons_append, ← hi]
      · rw [hm', List.map_cons, List.append_assoc, List.singleton_append]

/-- ProcessDelayedMessage moves a front part of the heap, all of it due, to the end of messages_. -/
theorem processDelayedMessage_spec (q : TaskQueue) (now : ℤ) : ∃ due, (∀ m ∈ due, m.runTimeMs ≤ now) ∧
    q.delayed.items = due ++ (q.processDelayedMessage now).2.delayed.items ∧
    (q.processDelayedMessage now).2.messages = q.messages ++ due.map DelayedMessage.functor ∧
    (q.processDelayedMessage now).2.delayedNextNum = q.delayedNextNum := by
  obtain ⟨due,hd,hi,hm⟩ := moveDue_spec now q.messages q.delayed.items q.delayed.ordered
  exact ⟨due,hd,hi,hm,rfl⟩

theorem post_pending (q : TaskQueue) (t : Task) :
    q.pending.Sublist (q.post t).pending ∧ (q.post t).pending.Perm (q.pending ++ [t]) := by
  simp only [post, pending, List.append_assoc]
  exact ⟨List.Sublist.append_left (List.sublist_append_right _ _) _,(List.perm_append_comm).append_left _⟩

theorem postDelayed_pending (q : TaskQueue) (delayMs runTimeMs : ℤ) (t : Task) :
    q.pending.Sublist (q.postDelayed delayMs runTimeMs t).pending ∧
      (q.postDelayed delayMs runTimeMs t).pending.Perm (q.pending ++ [t]) := by
  simp only [postDelayed, pending, List.append_assoc]
  refine ⟨List.Sublist.append_left (q.delayed.sublist_push.map _) _,List.Perm.append_left _ ?_⟩
  exact (q.delayed.push_perm.map _).trans (List.perm_append_singleton t _).symm

end TaskQueue
end UServer.Concurrency
