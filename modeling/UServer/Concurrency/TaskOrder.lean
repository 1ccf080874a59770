import UServer.Concurrency.ThreadTurns

/-! No task is lost or returned twice, and tasks are returned in the order they were posted for:
the tasks returned and the two queues form one sequence, in which no step swaps two tasks. -/
namespace UServer.Concurrency
open Library

variable {ι : Type*} {s t : State ι}

/-- What a step does to the queues, to the tasks accepted and to those returned. -/
inductive QueueTurn [DecidableEq ι] (s t : State ι) : Prop
  | keep (hq : t.queue = s.queue) (ha : t.accepted = s.accepted) (hr : t.returned = s.returned)
  | post (callable : Bool) (hq : t.queue = s.queue.post ⟨callable,s.accepted.length,none⟩)
      (ha : t.accepted = s.accepted ++ [⟨callable,s.accepted.length,none⟩]) (hr : t.returned = s.returned)
  | postDelayed (callable : Bool) (delayMs runTimeMs : ℤ)
      (hq : t.queue = s.queue.postDelayed delayMs runTimeMs ⟨callable,s.accepted.length,some runTimeMs⟩)
      (ha : t.accepted = s.accepted ++ [⟨callable,s.accepted.length,some runTimeMs⟩]) (hr : t.returned = s.returned)
  | take {f : GetFrame} {due : List DelayedMessage} (hl : s.loop = .take f) (hd : ∀ m ∈ due, m.runTimeMs ≤ f.msCurrent)
      (hi : s.queue.delayed.items = due ++ t.queue.delayed.items)
      (hm : t.returned ++ t.queue.messages = s.returned ++ s.queue.messages ++ due.map DelayedMessage.functor)
      (hn : t.queue.delayedNextNum = s.queue.delayedNextNum) (ha : t.accepted = s.accepted)

namespace Turn
variable [DecidableEq ι] {a : Action ι}

theorem queue (h : Turn s a t) : QueueTurn s t := by
  cases h with
  | @give f u rest hl hm =>
    obtain ⟨due,hd,hi,hm',hn⟩ := s.queue.processDelayedMessage_spec f.msCurrent
    refine .take hl hd hi ?_ hn rfl
    rw [List.append_assoc, List.append_assoc, ← hm', hm, List.singleton_append]
  | @look f hl hm =>
    obtain ⟨due,hd,hi,hm',hn⟩ := s.queue.processDelayedMessage_spec f.msCurrent
    refine .take hl hd hi ?_ hn rfl
    rw [List.append_assoc, ← hm']
  | @push i callable delay hi =>
    cases delay with
    | none => exact .post callable rfl rfl rfl
    | some d => exact .postDelayed callable d.1 d.2 rfl rfl rfl
  | _ => exact .keep rfl rfl rfl

theorem nanos_le (h : Turn s a t) : s.nanos ≤ t.nanos := by
  cases h with
  | tick n => exact Nat.le_add_right _ n
  | _ => exact le_rfl

theorem timeMillis_le (h : Turn s a t) : s.timeMillis ≤ t.timeMillis :=
  Int.ediv_le_ediv (by decide) (Int.ofNat_le.mpr h.nanos_le)

/-- Get looks at the heap with a clock reading of its own. -/
theorem current (h : Turn s a t) {f : GetFrame} (hf : t.loop = .take f) :
    f.msCurrent = s.timeMillis ∨ s.loop = .take f := by
  cases h with
  | move hm =>
    cases hm with
    | call | lookAgain =>
      cases hf
      exact .inl rfl
    | _ => cases hf
  | give | look | enter | onEvent | reset => cases hf
  | _ => exact .inr hf

/-- Only a Thread that is quitting refuses a post. -/
theorem refused (h : Turn s a t) (hs : t.stop = false) : s.stop = false ∧ t.refused = s.refused := by
  cases h with
  | refuse hi hst => cases hst.symm.trans hs
  | quit | stop => cases hs
  | _ => exact ⟨hs,rfl⟩

end Turn

namespace State

/-- Every task ever accepted, the returned ones first. -/
def sequence (s : State ι) : List Task := s.returned ++ s.queue.pending

/-- How often delayed_next_num_ was incremented. -/
def delayedPosts (s : State ι) : ℕ := s.accepted.countP fun x => x.due.isSome

end State

namespace QueueTurn
variable [DecidableEq ι]

/-- No step changes the order of two tasks. -/
theorem sequence_sublist (h : QueueTurn s t) : s.sequence.Sublist t.sequence := by
  cases h with
  | keep hq ha hr => rw [State.sequence, State.sequence, hq, hr]
  | post callable hq ha hr =>
    rw [State.sequence, State.sequence, hq, hr]
    exact (TaskQueue.post_pending _ _).1.append_left _
  | postDelayed callable delayMs runTimeMs hq ha hr =>
    rw [State.sequence, State.sequence, hq, hr]
    exact (TaskQueue.postDelayed_pending _ _ _ _).1.append_left _
  | take hl hd hi hm hn ha =>
    simp only [State.sequence, TaskQueue.pending, ← List.append_assoc, hm, hi, List.map_append]
    exact List.Sublist.refl _

/-- A step adds to the sequence what it adds to the tasks accepted. -/
theorem sequence_perm (h : QueueTurn s t) (hp : s.sequence.Perm s.accepted) : t.sequence.Perm t.accepted := by
  cases h with
  | keep hq ha hr => rwa [State.sequence, hq, hr, ha]
  | post callable hq ha hr =>
    rw [State.sequence, hq, hr, ha]
    refine ((TaskQueue.post_pending _ _).2.append_left _).trans ?_
    rw [← List.append_assoc]
    exact hp.append_right _
  | postDelayed callable delayMs runTimeMs hq ha hr =>
    rw [State.sequence, hq, hr, ha]
    refine ((TaskQueue.postDelayed_pending _ _ _ _).2.append_left _).trans ?_
    rw [← List.append_assoc]
    exact hp.append_right _
  | take hl hd hi hm hn ha =>
    have he : t.sequence = s.sequence := by
      simp only [State.sequence, TaskQueue.pending, ← List.append_assoc, hm, hi, List.map_append]
    rwa [he, ha]

theorem serials (h : QueueTurn s t) (hs : s.accepted.map Task.serial = List.range s.accepted.length) :
    t.accepted.map Task.serial = List.range t.accepted.length := by
  cases h with
  | keep hq ha hr => rwa [ha]
  | take hl hd hi hm hn ha => rwa [ha]
  | post callable hq ha hr => simp [ha, hs, List.range_succ]
  | postDelayed callable delayMs runTimeMs hq ha hr => simp [ha, hs, List.range_succ]

end QueueTurn

/-- What the queues keep: every accepted task is in one place, PostTask's tasks stand in posting order,
and what has left the heap was due. -/
structure OrderInvariant (s : State ι) : Prop where
  conserved : s.sequence.Perm s.accepted
  serials : s.accepted.map Task.serial = List.range s.accepted.length
  immediate : (s.returned ++ s.queue.messages).filter (fun x => x.due = none) = s.accepted.filter (fun x => x.due = none)
  due : ∀ m ∈ s.queue.delayed.items, m.functor.due = some m.runTimeMs
  reached : ∀ x ∈ s.returned ++ s.queue.messages, ∀ r, x.due = some r → r ≤ s.timeMillis
  current : ∀ f, s.loop = .take f → f.msCurrent ≤ s.timeMillis
  refused : s.stop = false → s.refused = 0

namespace OrderInvariant

theorem nodup (h : OrderInvariant s) : s.accepted.Nodup :=
  List.Nodup.of_map Task.serial (h.serials ▸ List.nodup_range)

variable [DecidableEq ι] {a : Action ι}

private theorem due_of_queueTurn (h : OrderInvariant s) (ht : QueueTurn s t) :
    ∀ m ∈ t.queue.delayed.items, m.functor.due = some m.runTimeMs := by
  intro m hm
  cases ht with
  | keep hq => exact h.due m (hq ▸ hm)
  | post callable hq =>
    rw [hq] at hm
    exact h.due m hm
  | postDelayed callable delayMs runTimeMs hq =>
    rw [hq] at hm
    rcases (PriorityQueue.mem_push _).mp hm with rfl | hm
    · rfl
    · exact h.due m hm
  | take hl hd hi => exact h.due m (hi ▸ List.mem_append_right _ hm)

private theorem immediate_of_queueTurn (h : OrderInvariant s) (ht : QueueTurn s t) :
    (t.returned ++ t.queue.messages).filter (fun x => x.due = none) = t.accepted.filter (fun x => x.due = none) := by
  cases ht with
  | keep hq ha hr => rw [hq, hr, ha, h.immediate]
  | post callable hq ha hr =>
    rw [hq, hr, ha, List.filter_append s.accepted, ← h.immediate, ← List.filter_append, List.append_assoc]
    rfl
  | postDelayed callable delayMs runTimeMs hq ha hr =>
    rw [hq, hr, ha, List.filter_append s.accepted, ← h.immediate]
    exact (List.append_nil _).symm
  | @take f due hl hd hi hm hn ha =>
    have hnone : (due.map DelayedMessage.functor).filter (fun x => x.due = none) = [] := by
      rw [List.filter_eq_nil_iff]
      intro x hx
      obtain ⟨m,hm,rfl⟩ := List.mem_map.mp hx
      rw [h.due m (hi ▸ List.mem_append_left _ hm)]
      simp
    rw [hm, ha, List.filter_append, hnone, List.append_nil, h.immediate]

private theorem reached_of_queueTurn (h : OrderInvariant s) (ht : QueueTurn s t) (hc : s.timeMillis ≤ t.timeMillis) :
    ∀ x ∈ t.returned ++ t.queue.messages, ∀ r, x.due = some r → r ≤ t.timeMillis := by
  intro x hx r hr
  have old (hx : x ∈ s.returned ++ s.queue.messages) : r ≤ t.timeMillis := (h.reached x hx r hr).trans hc
  cases ht with
  | keep hq ha hret =>
    rw [hq, hret] at hx
    exact old hx
  | post callable hq ha hret =>
    rw [hq, hret, TaskQueue.post, ← List.append_assoc] at hx
    rcases List.mem_append.mp hx with hx | hx
    · exact old hx
    · cases List.mem_singleton.mp hx
      cases hr
  | postDelayed callable delayMs runTimeMs hq ha hret =>
    rw [hq, hret] at hx
    exact old hx
  | take hl hd hi hm hn ha =>
    rw [hm] at hx
    rcases List.mem_append.mp hx with hx | hx
    · exact old hx
    · obtain ⟨m,hm,rfl⟩ := List.mem_map.mp hx
      cases (h.due m (hi ▸ List.mem_append_left _ hm)).symm.trans hr
      exact ((hd m hm).trans (h.current _ hl)).trans hc

theorem of_turn (h : OrderInvariant s) (ht : Turn s a t) : OrderInvariant t where
  conserved := ht.queue.sequence_perm h.conserved
  serials := ht.queue.serials h.serials
  immediate := h.immediate_of_queueTurn ht.queue
  due := h.due_of_queueTurn ht.queue
  reached := h.reached_of_queueTurn ht.queue ht.timeMillis_le
  current f hf := by
    rcases ht.current hf with he | hl
    · exact he ▸ ht.timeMillis_le
    · exact (h.current f hl).trans ht.timeMillis_le
  refused hs := by
    obtain ⟨hst,hr⟩ := ht.refused hs
    exact hr.trans (h.refused hst)

end OrderInvariant

/-- Message numbers in the heap follow the order of posting. -/
structure Numbered (s : State ι) : Prop where
  next : s.queue.delayedNextNum.toNat = s.delayedPosts + 1
  bound : ∀ m ∈ s.queue.delayed.items, m.messageNumber.toNat ≤ s.delayedPosts ∧ m.functor.serial < s.accepted.length
  ordered : ∀ m ∈ s.queue.delayed.items, ∀ m' ∈ s.queue.delayed.items, m.functor.serial < m'.functor.serial →
    m.messageNumber.toNat < m'.messageNumber.toNat

namespace Numbered

/-- A step that changes the heap at most by taking messages out. -/
private theorem keep (h : Numbered s) (hn : t.queue.delayedNextNum = s.queue.delayedNextNum)
    (hp : t.delayedPosts = s.delayedPosts) (hl : s.accepted.length ≤ t.accepted.length)
    (hi : ∀ m ∈ t.queue.delayed.items, m ∈ s.queue.delayed.items) : Numbered t := by
  refine ⟨?_,fun m hm => ?_,fun m hm m' hm' => h.ordered m (hi m hm) m' (hi m' hm')⟩
  · rw [hn, hp, h.next]
  · obtain ⟨hb,hs⟩ := h.bound m (hi m hm)
    exact ⟨hp ▸ hb,hs.trans_le hl⟩

private theorem postDelayed (h : Numbered s) {callable : Bool} {delayMs runTimeMs : ℤ}
    (hq : t.queue = s.queue.postDelayed delayMs runTimeMs ⟨callable,s.accepted.length,some runTimeMs⟩)
    (ha : t.accepted = s.accepted ++ [⟨callable,s.accepted.length,some runTimeMs⟩])
    (hlt : t.delayedPosts < 2 ^ 32 - 1) : Numbered t := by
  have hp : t.delayedPosts = s.delayedPosts + 1 := by
    rw [State.delayedPosts, ha, List.countP_append]
    rfl
  have hl : t.accepted.length = s.accepted.length + 1 := by simp [ha]
  have hmem (m : DelayedMessage) (hm : m ∈ t.queue.delayed.items) : m ∈ s.queue.delayed.items ∨
      m.messageNumber.toNat = t.delayedPosts ∧ m.functor.serial = s.accepted.length := by
    rw [hq] at hm
    rcases (PriorityQueue.mem_push _).mp hm with rfl | hm
    · exact .inr ⟨h.next.trans hp.symm,rfl⟩
    · exact .inl hm
  refine ⟨?_,fun m hm => ?_,fun m hm m' hm' hlt' => ?_⟩
  · rw [hq, TaskQueue.postDelayed, UInt32.toNat_add, h.next, hp]
    exact Nat.mod_eq_of_lt (by simp only [UInt32.toNat_one]; omega)
  · rcases hmem m hm with hold | ⟨hnum,hser⟩
    · obtain ⟨hb,hs⟩ := h.bound m hold
      omega
    · omega
  · rcases hmem m hm with hold | ⟨hnum,hser⟩ <;> rcases hmem m' hm' with hold' | ⟨hnum',hser'⟩
    · exact h.ordered m hold m' hold' hlt'
    · obtain ⟨hb,-⟩ := h.bound m hold
      omega
    · obtain ⟨-,hs'⟩ := h.bound m' hold'
      omega
    · omega

theorem of_queueTurn [DecidableEq ι] (h : s.delayedPosts < 2 ^ 32 - 1 → Numbered s) (ht : QueueTurn s t)
    (hlt : t.delayedPosts < 2 ^ 32 - 1) : Numbered t := by
  have same (ha : t.accepted = s.accepted) : t.delayedPosts = s.delayedPosts := by
    rw [State.delayedPosts, ha, State.delayedPosts]
  cases ht with
  | keep hq ha hr =>
    exact (h (same ha ▸ hlt)).keep (by rw [hq]) (same ha) (by rw [ha]) fun m hm => hq ▸ hm
  | post callable hq ha hr =>
    have hp : t.delayedPosts = s.delayedPosts := by
      rw [State.delayedPosts, ha, List.countP_append]
      rfl
    exact (h (hp ▸ hlt)).keep (by rw [hq]; rfl) hp (by simp [ha]) fun m hm => by rwa [hq] at hm
  | postDelayed callable delayMs runTimeMs hq ha hr =>
    have hp : s.delayedPosts ≤ t.delayedPosts := by
      rw [State.delayedPosts, State.delayedPosts, ha, List.countP_append]
      exact Nat.le_add_right _ _
    exact (h (lt_of_le_of_lt hp hlt)).postDelayed hq ha hlt
  | take hl hd hi hm hn ha =>
    exact (h (same ha ▸ hlt)).keep hn (same ha) (by rw [ha]) fun m hm => hi ▸ List.mem_append_right _ hm

end Numbered

/-- Of two messages in the heap the one with the smaller run_time_ms, or the one posted first, goes first. -/
def DelayedMessage.RunsFirst (m m' : DelayedMessage) : Prop :=
  m.runTimeMs < m'.runTimeMs ∨ m.runTimeMs = m'.runTimeMs ∧ m.functor.serial < m'.functor.serial

theorem Numbered.pair_sublist (h : Numbered s) {x y : DelayedMessage} (hx : x ∈ s.queue.delayed.items)
    (hy : y ∈ s.queue.delayed.items) (hxy : x.RunsFirst y) : [x.functor,y.functor].Sublist s.sequence := by
  have hnot : ¬ y.Before x := by
    rw [DelayedMessage.before_iff]
    rcases hxy with hrun | ⟨hrun,hser⟩
    · omega
    · have := h.ordered x hx y hy hser
      omega
  exact ((s.queue.delayed.pair_sublist hx hy hnot).map DelayedMessage.functor).trans
    ((List.sublist_append_right _ _).trans (List.sublist_append_right _ _))

private theorem start_inOrder (ss : SocketServer ι) (nanos : ℕ) : OrderInvariant (.start ss nanos) ∧
    Numbered (.start ss nanos) :=
  ⟨⟨List.Perm.refl _,rfl,rfl,nofun,nofun,nofun,fun _ => rfl⟩,⟨rfl,nofun,nofun⟩⟩

variable [DecidableEq ι]

/-- The order in which the tasks of a Thread come out of Get. -/
structure TasksInOrder (t : State ι) : Prop where
  admitted : t.stop = false → t.refused = 0
  distinct : t.accepted.Nodup
  conserved : (t.returned ++ t.queue.messages ++ t.queue.delayed.items.map DelayedMessage.functor).Perm t.accepted
  fifo : t.returned.filter (fun x => x.due = none) <+: t.accepted.filter (fun x => x.due = none)
  due : ∀ x ∈ t.returned, ∀ r, x.due = some r → r ≤ t.timeMillis
  earliest : t.delayedPosts < 2 ^ 32 - 1 → ∀ s, (threadMachine ι).Reachable Machine.Free s →
    (threadMachine ι).Reaches Machine.Free s t → ∀ x ∈ s.queue.delayed.items, ∀ y ∈ s.queue.delayed.items,
      x.RunsFirst y → y.functor ∈ t.returned → [x.functor,y.functor].Sublist t.returned

theorem orderInvariant (h : (threadMachine ι).Reachable Machine.Free s) :
    OrderInvariant s ∧ (s.delayedPosts < 2 ^ 32 - 1 → Numbered s) := by
  refine Machine.Reachable.rule (I := fun s => OrderInvariant s ∧ (s.delayedPosts < 2 ^ 32 - 1 → Numbered s)) h ?_ ?_
  · rintro u ⟨nanos,rfl | rfl⟩
    · exact (start_inOrder _ nanos).imp id fun hn _ => hn
    · exact (start_inOrder _ nanos).imp id fun hn _ => hn
  · intro u a v ⟨ho,hn⟩ _ hv
    exact ⟨ho.of_turn (step_turn hv),Numbered.of_queueTurn hn (step_turn hv).queue⟩

/-- Two tasks that stand in the sequence of some state stand so in every later one. -/
theorem sequence_reaches {u : State ι} (h : (threadMachine ι).Reaches Machine.Free s u) :
    s.sequence.Sublist u.sequence ∧ s.delayedPosts ≤ u.delayedPosts := by
  refine h.rule (R := fun u => s.sequence.Sublist u.sequence ∧ s.delayedPosts ≤ u.delayedPosts)
    ⟨List.Sublist.refl _,le_rfl⟩ fun v a w _ hv _ hw => ?_
  have ht := (step_turn hw).queue
  refine ⟨hv.1.trans ht.sequence_sublist,hv.2.trans ?_⟩
  cases ht with
  | keep hq ha | take hl hd hi hm hn ha => rw [State.delayedPosts, State.delayedPosts, ha]
  | post callable hq ha | postDelayed callable delayMs runTimeMs hq ha =>
    rw [State.delayedPosts, State.delayedPosts, ha, List.countP_append]
    exact Nat.le_add_right _ _

/-- In every run tasks are neither lost nor doubled, and come out in order and when they are due. -/
theorem tasks_in_order (h : (threadMachine ι).Reachable Machine.Free t) : TasksInOrder t := by
  obtain ⟨ho,-⟩ := orderInvariant h
  have hseq : (t.returned ++ t.queue.pending).Nodup := ho.conserved.nodup_iff.mpr ho.nodup
  refine ⟨ho.refused,ho.nodup,?_,?_,fun x hx => ho.reached x (List.mem_append_left _ hx),?_⟩
  · rw [List.append_assoc]
    exact ho.conserved
  · rw [← ho.immediate, List.filter_append]
    exact List.prefix_append _ _
  · intro hlt s hs hst x hx y hy hxy hret
    obtain ⟨hsub,hposts⟩ := sequence_reaches hst
    have hnum := (orderInvariant hs).2 (lt_of_le_of_lt hposts hlt)
    exact pair_sublist_left hseq hret ((hnum.pair_sublist hx hy hxy).trans hsub)

/-- Two tasks posted with the same delay and one without; all three are returned. -/
theorem tasks_in_order_sample : ∃ t : State ℕ, t.returned.map Task.due = [none,some 20,some 20] ∧ t.delayedPosts = 2 ∧
    TasksInOrder t := by
  have h : ((threadMachine ℕ).run Machine.Free (.start (.physical .fresh false) 0)
      [.post 0 (.delayed true 20), .poster 0, .poster 0, .poster 0, .poster 0, .poster 0, .poster 0,
        .post 1 (.delayed true 20), .poster 1, .poster 1, .poster 1, .poster 1, .post 0 (.task true), .poster 0, .poster 0,
        .poster 0, .processMessages (-1), .loop, .loop, .loop, .loop, .tick 30000000, .loop, .loop, .loop, .loop, .loop,
        .loop]).any
      (fun t => decide (t.returned.map Task.due = [none,some 20,some 20] ∧ t.delayedPosts = 2)) = true := by
    decide +kernel
  obtain ⟨t,ht,hp⟩ := Machine.exists_reachable_of_run (init_start 0) h
  obtain ⟨hret,hposts⟩ := of_decide_eq_true hp
  exact ⟨t,hret,hposts,tasks_in_order ht⟩

end UServer.Concurrency
