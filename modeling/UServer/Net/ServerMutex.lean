import UServer.Net.SharedServer

/-! The recursive mutex of the socket server and what it guards: where the threads stand says how often it is locked,
the maps agree outside the calls that change them, and whoever has the mutex comes to its release. -/
namespace UServer.Net
open Library

namespace SharedServer
variable {ι : Type*} [DecidableEq ι] {loop i j : ι} {s t : SharedServer ι} {c : ServerCall} {pc : CallPc}

/-- The registration that a call is changing: what it has already done, and what it has to do. -/
def Knows (server : PhysicalSocketServer) : ServerCall × CallPc → Prop
  | (.add p,.between key) | (.remove p,.between key) =>
    server.keyByDispatcher p = none ∧ ∀ k, server.dispatcherByKey k = some p → k = key
  | (.remove p,.leaving) => server.keyByDispatcher p = none ∧ ∀ k, server.dispatcherByKey k ≠ some p
  | (.update _,.between _) => False
  | _ => True

/-- The mutex is locked as often as the threads' places say, the loop thread makes no call while it waits and between
the events of a batch, and what dispatcher_by_key_ holds is registered unless a call is changing it. -/
structure Invariant (loop : ι) (s : SharedServer ι) : Prop where
  agrees : ∀ i, s.mutex.depth i = s.held loop i
  quiet : s.round.canCall = false → s.calls loop = none
  knows : ∀ i c, s.calls i = some c → Knows s.server c
  keyed : ∀ key p, s.server.dispatcherByKey key = some p → s.server.keyByDispatcher p = some key ∨
    ∃ i, s.calls i = some (.add p,.between key) ∨ s.calls i = some (.remove p,.between key)

theorem held_goto (s : SharedServer ι) (loop i : ι) (c : Option (ServerCall × CallPc)) (j : ι) :
    (s.goto i c).held loop j =
      if j = i then c.elim 0 (fun c => c.2.held) + (if j = loop then s.round.held else 0) else s.held loop j := by
  by_cases hj : j = i
  · subst hj
    simp [held, goto]
  · simp [held, goto, hj]

theorem held_pos (hc : s.calls i = some (c,pc)) (hpc : pc ≠ .entered) : 0 < s.held loop i := by
  cases pc with
  | entered => exact absurd rfl hpc
  | _ => simp [held, hc, CallPc.held]

namespace Invariant

theorem start (loop : ι) : Invariant loop (start : SharedServer ι) where
  agrees i := by simp [SharedServer.start, held, RecursiveLock.depth, Round.held]
  quiet _ := rfl
  knows _ _ h := nomatch h
  keyed _ _ h := nomatch h

/-- Two threads behind the mutex are one. -/
theorem only (h : Invariant loop s) (hi : 0 < s.held loop i) (hj : 0 < s.held loop j) : i = j :=
  RecursiveLock.only (h.agrees i ▸ hi) (h.agrees j ▸ hj)

/-- Who is in a call while another thread is behind the mutex waits for it. -/
theorem outside (h : Invariant loop s) (hi : 0 < s.held loop i) (hj : s.calls j = some (c,pc)) (hji : j ≠ i) :
    pc = .entered := by
  by_contra hpc
  exact hji (h.only (held_pos hj hpc) hi)

/-- The thread that is behind the mutex goes on there and may change the maps. -/
theorem move (h : Invariant loop s) {pc' : CallPc} {server : PhysicalSocketServer} (hi : s.calls i = some (c,pc))
    (hpc : pc ≠ .entered) (hpc' : pc' ≠ .entered) (hk : Knows server (c,pc'))
    (hkeyed : ∀ key p, server.dispatcherByKey key = some p → server.keyByDispatcher p = some key ∨
      (c = .add p ∨ c = .remove p) ∧ pc' = .between key) :
    Invariant loop { s.goto i (some (c,pc')) with server := server } where
  agrees j := by
    have hone {q : CallPc} (hq : q ≠ .entered) : q.held = 1 := by
      cases q with
      | entered => exact absurd rfl hq
      | _ => rfl
    change s.mutex.depth j = (s.goto i (some (c,pc'))).held loop j
    rw [held_goto, h.agrees]
    split
    · rename_i hj
      simp [held, hj, hi, hone hpc, hone hpc']
    · rfl
  quiet hr := by
    have hl := h.quiet hr
    have hne : loop ≠ i := by
      rintro rfl
      rw [hi] at hl
      cases hl
    simp [goto, hne, hl]
  knows j d hj := by
    by_cases hji : j = i
    · subst hji
      simp only [goto, Function.update_self, Option.some.injEq] at hj
      exact hj ▸ hk
    · simp only [goto, Function.update_of_ne hji] at hj
      obtain ⟨d,q⟩ := d
      obtain rfl := h.outside (held_pos hi hpc) hj hji
      cases d <;> trivial
  keyed key p hp := by
    refine (hkeyed key p hp).imp_right ?_
    rintro ⟨hc,rfl⟩
    refine ⟨i,?_⟩
    simp only [goto, Function.update_self]
    exact hc.imp (fun e => by rw [e]) fun e => by rw [e]

/-- Before a thread's first change of the maps everything in dispatcher_by_key_ is registered. -/
theorem keyed_of_settled (h : Invariant loop s) (hi : s.calls i = some (c,pc)) (hpc : pc ≠ .entered)
    (hb : ∀ key, pc ≠ .between key) {key : Key} {p : Ptr} (hp : s.server.dispatcherByKey key = some p) :
    s.server.keyByDispatcher p = some key := by
  refine (h.keyed key p hp).resolve_right ?_
  rintro ⟨j,hj⟩
  have hbetween : ∃ d, s.calls j = some (d,.between key) := hj.elim (fun e => ⟨_,e⟩) fun e => ⟨_,e⟩
  obtain ⟨d,hd⟩ := hbetween
  by_cases hji : j = i
  · subst hji
    rw [hd] at hi
    cases hi
    exact hb key rfl
  · exact nomatch h.outside (held_pos hi hpc) hd hji

theorem test (h : Invariant loop s) (hi : s.calls i = some (c,.testing)) : Invariant loop (s.test i c) := by
  have hkeyed {key : Key} {p : Ptr} : s.server.dispatcherByKey key = some p → s.server.keyByDispatcher p = some key :=
    h.keyed_of_settled hi nofun nofun
  have habsent {p : Ptr} (hn : s.server.keyByDispatcher p = none) (k : Key) : s.server.dispatcherByKey k ≠ some p := by
    intro hp
    rw [hkeyed hp] at hn
    cases hn
  cases c with
  | add p =>
    simp only [SharedServer.test]
    split
    · exact h.move hi nofun nofun trivial fun key q hq => .inl (hkeyed hq)
    · rename_i hn
      rw [Option.not_isSome_iff_eq_none] at hn
      refine h.move hi nofun nofun ⟨hn,fun k hk => ?_⟩ fun key q hq => ?_
      · exact (emplace_eq_some hk).elim (fun hq => absurd hq (habsent hn k)) And.left
      · rcases emplace_eq_some hq with hq | ⟨rfl,rfl⟩
        · exact .inl (hkeyed hq)
        · exact .inr ⟨.inl rfl,rfl⟩
  | remove p =>
    simp only [SharedServer.test]
    split
    · rename_i hn
      exact h.move hi nofun nofun ⟨hn,habsent hn⟩ fun key q hq => .inl (hkeyed hq)
    · rename_i key hkey
      have hmine {k : Key} (hk : s.server.dispatcherByKey k = some p) : k = key :=
        Option.some.inj ((hkeyed hk).symm.trans hkey)
      refine h.move hi nofun nofun ⟨Function.update_self ..,fun k => hmine⟩ fun k q hq => ?_
      by_cases hqp : q = p
      · subst hqp
        exact .inr ⟨.inr rfl,congrArg CallPc.between (hmine hq).symm⟩
      · exact .inl ((Function.update_of_ne hqp _ _).trans (hkeyed hq))
  | update p => exact h.move hi nofun nofun trivial fun key q hq => .inl (hkeyed hq)

theorem finish (h : Invariant loop s) {key : Key} (hi : s.calls i = some (c,.between key)) :
    Invariant loop (s.finish i key c) := by
  have hother {k : Key} {q : Ptr} (hq : s.server.dispatcherByKey k = some q) :
      s.server.keyByDispatcher q = some k ∨ (c = .add q ∨ c = .remove q) := by
    refine (h.keyed k q hq).imp_right ?_
    rintro ⟨j,hj⟩
    have hji : j = i := by
      by_contra hji
      rcases hj with hj | hj <;> exact nomatch h.outside (held_pos hi nofun) hj hji
    subst hji
    rw [hi] at hj
    exact hj.imp (fun e => congrArg Prod.fst (Option.some.inj e)) fun e => congrArg Prod.fst (Option.some.inj e)
  have hknows := h.knows i _ hi
  cases c with
  | add p =>
    obtain ⟨hn,hmine⟩ : s.server.keyByDispatcher p = none ∧ ∀ k, s.server.dispatcherByKey k = some p → k = key := hknows
    refine h.move hi nofun nofun trivial fun k q hq => .inl ?_
    have hemplace : (s.server.addDispatcher p key).keyByDispatcher =
        Function.update s.server.keyByDispatcher p (some key) := by
      rw [PhysicalSocketServer.addDispatcher, emplace, hn]
      rfl
    rw [hemplace]
    by_cases hqp : q = p
    · subst hqp
      rw [Function.update_self, hmine k hq]
    · rw [Function.update_of_ne hqp]
      refine (hother hq).resolve_right ?_
      rintro (he | he)
      · exact hqp (ServerCall.add.inj he).symm
      · cases he
  | remove p =>
    obtain ⟨hn,hmine⟩ : s.server.keyByDispatcher p = none ∧ ∀ k, s.server.dispatcherByKey k = some p → k = key := hknows
    refine h.move hi nofun nofun ⟨hn,fun k hk => ?_⟩ fun k q hq => .inl ?_
    · obtain ⟨hne,hk⟩ := PhysicalSocketServer.dispatcherByKey_removeKey hk
      exact hne (hmine k hk)
    · obtain ⟨hne,hq⟩ := PhysicalSocketServer.dispatcherByKey_removeKey hq
      refine (hother hq).resolve_right ?_
      rintro (he | he)
      · cases he
      · cases he
        exact hne (hmine k hq)
  | update p => exact hknows.elim

/-- A call begins, which takes nothing. -/
theorem call (h : Invariant loop s) (hi : s.calls i = none) (hc : i = loop → s.round.canCall = true) :
    Invariant loop (s.goto i (some (c,.entered))) where
  agrees j := by
    rw [held_goto]
    refine (h.agrees j).trans ?_
    split
    · rename_i hj
      simp [held, hj, hi, CallPc.held]
    · rfl
  quiet hr := by
    have hne : loop ≠ i := by
      rintro rfl
      rw [show (s.goto loop _).round = s.round from rfl, hc rfl] at hr
      cases hr
    simpa [goto, hne] using h.quiet hr
  knows j d hj := by
    by_cases hji : j = i
    · subst hji
      simp only [goto, Function.update_self, Option.some.injEq] at hj
      subst hj
      cases c <;> trivial
    · simp only [goto, Function.update_of_ne hji] at hj
      exact h.knows j d hj
  keyed key p hp := by
    refine (h.keyed key p hp).imp_right ?_
    rintro ⟨j,hj⟩
    have hji : j ≠ i := by
      rintro rfl
      rw [hi] at hj
      rcases hj with hj | hj <;> cases hj
    exact ⟨j,by simpa [goto, hji] using hj⟩

theorem lock (h : Invariant loop s) {m : RecursiveLock ι} (hi : s.calls i = some (c,.entered))
    (hm : s.mutex.lock i = some m) : Invariant loop { s.goto i (some (c,.testing)) with mutex := m } where
  agrees j := by
    change m.depth j = (s.goto i (some (c,.testing))).held loop j
    rw [held_goto, RecursiveLock.depth_lock hm, h.agrees]
    split
    · rename_i hj
      simp [held, hj, hi, CallPc.held, Nat.add_comm]
    · rfl
  quiet hr := by
    have hl := h.quiet hr
    have hne : loop ≠ i := by
      rintro rfl
      rw [hi] at hl
      cases hl
    simp [goto, hne, hl]
  knows j d hj := by
    by_cases hji : j = i
    · subst hji
      simp only [goto, Function.update_self, Option.some.injEq] at hj
      subst hj
      cases c <;> trivial
    · simp only [goto, Function.update_of_ne hji] at hj
      exact h.knows j d hj
  keyed key p hp := by
    refine (h.keyed key p hp).imp_right ?_
    rintro ⟨j,hj⟩
    have hji : j ≠ i := by
      rintro rfl
      rw [hi] at hj
      rcases hj with hj | hj <;> cases hj
    exact ⟨j,by simpa [goto, hji] using hj⟩

theorem unlock (h : Invariant loop s) (hi : s.calls i = some (c,.leaving)) :
    Invariant loop { s.goto i none with mutex := s.mutex.unlock i } where
  agrees j := by
    have hd : 0 < s.mutex.depth i := h.agrees i ▸ held_pos hi nofun
    change (s.mutex.unlock i).depth j = (s.goto i none).held loop j
    rw [held_goto, RecursiveLock.depth_unlock hd, h.agrees]
    split
    · rename_i hj
      simp [held, hj, hi, CallPc.held]
    · rfl
  quiet hr := by
    have hl := h.quiet hr
    by_cases hne : loop = i
    · simp [goto, hne]
    · simp [goto, hne, hl]
  knows j d hj := by
    by_cases hji : j = i
    · simp [goto, hji] at hj
    · simp only [goto, Function.update_of_ne hji] at hj
      exact h.knows j d hj
  keyed key p hp := .inl (h.keyed_of_settled hi nofun nofun hp)

/-- The loop thread goes on in its round, with as many locks of the mutex as it then has. -/
theorem turn (h : Invariant loop s) {m : RecursiveLock ι} {r : Round} (hl : s.calls loop = none)
    (hm : ∀ j, m.depth j = if j = loop then r.held else s.mutex.depth j) :
    Invariant loop { s with mutex := m, round := r } where
  agrees j := by
    rw [hm]
    split
    · rename_i hj
      simp [held, hj, hl]
    · rename_i hj
      rw [h.agrees]
      simp [held, hj]
  quiet _ := hl
  knows := h.knows
  keyed := h.keyed

/-- The loop thread has the mutex locked as its round says as long as it makes no call. -/
theorem depth_loop (h : Invariant loop s) (hl : s.calls loop = none) : s.mutex.depth loop = s.round.held := by
  rw [h.agrees]
  simp [held, hl]

theorem step (h : Invariant loop s) {a : ServerAction ι} (he : s.step loop a = some t) : Invariant loop t := by
  have hsame {r : Round} (hl : s.calls loop = none) (hr : s.round.held = r.held) :
      Invariant loop { s with round := r } := by
    refine h.turn (m := s.mutex) hl fun j => ?_
    split
    · rename_i hj
      rw [hj, h.depth_loop hl, hr]
    · rfl
  cases a with
  | call i c =>
    obtain ⟨⟨hi,hc⟩,he⟩ := Option.ite_none_right_eq_some.mp he
    cases he
    exact h.call hi hc
  | go i =>
    simp only [SharedServer.step, stepCall] at he
    split at he
    · cases he
    · rename_i c hi
      obtain ⟨m,hm,rfl⟩ := Option.map_eq_some_iff.mp he
      exact h.lock hi hm
    · rename_i c hi
      cases he
      exact h.test hi
    · rename_i c key hi
      cases he
      exact h.finish hi
    · rename_i c hi
      cases he
      exact h.unlock hi
  | report keys =>
    obtain ⟨⟨hr,hl⟩,he⟩ := Option.ite_none_right_eq_some.mp he
    cases he
    exact hsame hl (by rw [hr]; rfl)
  | lock =>
    simp only [SharedServer.step] at he
    split at he
    · rename_i keys hr
      obtain ⟨m,hm,rfl⟩ := Option.map_eq_some_iff.mp he
      have hl := h.quiet (by rw [hr]; rfl)
      refine h.turn hl fun j => ?_
      rw [RecursiveLock.depth_lock hm]
      split
      · rename_i hj
        rw [hj, h.depth_loop hl, hr]
        rfl
      · rfl
    · cases he
  | next =>
    simp only [SharedServer.step, stepBatch] at he
    split at he
    · rename_i hr
      cases he
      have hl := h.quiet (by rw [hr]; rfl)
      have hd : s.mutex.depth loop = 1 := by rw [h.depth_loop hl, hr]; rfl
      refine h.turn hl fun j => ?_
      rw [RecursiveLock.depth_unlock (by rw [hd]; decide)]
      split
      · rename_i hj
        rw [hj, hd]
        rfl
      · rfl
    · rename_i key keys hr
      have hl := h.quiet (by rw [hr]; rfl)
      split at he <;> cases he <;> exact hsame hl (by rw [hr]; rfl)
    · cases he
  | handled =>
    simp only [SharedServer.step] at he
    split at he
    · rename_i keys p hr
      obtain ⟨hl,he⟩ := Option.ite_none_right_eq_some.mp he
      cases he
      exact hsame hl (by rw [hr]; rfl)
    · cases he

end Invariant

/-! The way to the end of the guards. -/

/-- How many statements a call has before it. -/
def callLeft : CallPc → ℕ
  | .entered => 4
  | .testing => 3
  | .between _ => 2
  | .leaving => 1

/-- How many steps a batch takes whose handlers do nothing. -/
def roundLeft : Round → ℕ
  | .batch keys => 2 * keys.length + 1
  | .handling keys _ => 2 * keys.length + 2
  | _ => 0

def left (s : SharedServer ι) (loop i : ι) : ℕ :=
  (s.calls i).elim 0 (fun c => callLeft c.2) + if i = loop then roundLeft s.round else 0

/-- The actions that are a thread's own. -/
def Own (loop i : ι) (a : ServerAction ι) : Prop := a = .go i ∨ i = loop ∧ (a = .next ∨ a = .handled)

theorem left_goto {pc pc' : CallPc} {c c' : ServerCall} (hi : s.calls i = some (c,pc))
    (ht : t.calls = Function.update s.calls i (some (c',pc'))) (hr : t.round = s.round)
    (hl : callLeft pc' < callLeft pc) : t.left loop i < s.left loop i := by
  simp only [left, hi, ht, hr, Function.update_self, Option.elim_some]
  omega

/-- A step of a call changes nothing else of the threads. -/
theorem stepCall_frame (he : s.stepCall i = some t) : t.round = s.round ∧ ∀ j, j ≠ i → t.calls j = s.calls j := by
  have hgoto (c : Option (ServerCall × CallPc)) (j : ι) (hj : j ≠ i) : (s.goto i c).calls j = s.calls j :=
    Function.update_of_ne hj _ _
  unfold stepCall at he
  split at he
  · cases he
  · obtain ⟨m,-,rfl⟩ := Option.map_eq_some_iff.mp he
    exact ⟨rfl,hgoto _⟩
  · rename_i c _
    cases he
    cases c with
    | add p =>
      simp only [test]
      split <;> exact ⟨rfl,hgoto _⟩
    | remove p =>
      simp only [test]
      split <;> exact ⟨rfl,hgoto _⟩
    | update p => exact ⟨rfl,hgoto _⟩
  · rename_i c key _
    cases he
    cases c <;> exact ⟨rfl,hgoto _⟩
  · cases he
    exact ⟨rfl,hgoto _⟩

theorem round_frame (he : s.step loop .next = some t ∨ s.step loop .handled = some t) : t.calls = s.calls := by
  rcases he with he | he
  · simp only [step, stepBatch] at he
    split at he
    · cases he
      rfl
    · split at he <;> cases he <;> rfl
    · cases he
  · simp only [step] at he
    split at he
    · obtain ⟨-,he⟩ := Option.ite_none_right_eq_some.mp he
      cases he
      rfl
    · cases he

/-- A thread's own step leaves the others as often behind the mutex as they were. -/
theorem held_of_own {a : ServerAction ι} (ha : Own loop i a) (he : s.step loop a = some t) (hj : j ≠ i) :
    t.held loop j = s.held loop j := by
  rcases ha with rfl | ⟨rfl,rfl | rfl⟩
  · obtain ⟨hr,hc⟩ := stepCall_frame he
    simp only [held, hr, hc j hj]
  · simp only [held, round_frame (.inl he), if_neg hj]
  · simp only [held, round_frame (.inr he), if_neg hj]

/-- A thread that has the mutex goes on, and comes nearer to the end of its guards. -/
theorem exists_own (h : Invariant loop s) (hi : 0 < s.mutex.depth i) :
    ∃ a t, Own loop i a ∧ s.step loop a = some t ∧ t.left loop i < s.left loop i := by
  rw [h.agrees] at hi
  cases hc : s.calls i with
  | some c =>
    obtain ⟨c,pc⟩ := c
    cases pc with
    | entered =>
      obtain ⟨m,hm⟩ : ∃ m, s.mutex.lock i = some m := by
        refine Option.isSome_iff_exists.mp (RecursiveLock.lock_isSome fun j hj => ?_)
        exact h.only (h.agrees j ▸ hj) hi
      refine ⟨.go i,{ s.goto i (some (c,.testing)) with mutex := m },.inl rfl,?_,left_goto hc rfl rfl (by decide)⟩
      simp only [step, stepCall, hc, hm, Option.map_some]
    | testing =>
      refine ⟨.go i,s.test i c,.inl rfl,by simp only [step, stepCall, hc],?_⟩
      cases c with
      | add p =>
        simp only [test]
        split <;> exact left_goto hc rfl rfl (by simp [callLeft])
      | remove p =>
        simp only [test]
        split <;> exact left_goto hc rfl rfl (by simp [callLeft])
      | update p => exact left_goto hc rfl rfl (by decide)
    | between key =>
      refine ⟨.go i,s.finish i key c,.inl rfl,by simp only [step, stepCall, hc],?_⟩
      cases c <;> exact left_goto hc rfl rfl (Nat.lt_succ_self _)
    | leaving =>
      refine ⟨.go i,{ s.goto i none with mutex := s.mutex.unlock i },.inl rfl,by simp only [step, stepCall, hc],?_⟩
      simp only [left, goto, hc, Function.update_self, Option.elim_none, Option.elim_some, callLeft]
      omega
  | none =>
    simp only [held, hc, Option.elim_none, Nat.zero_add] at hi
    obtain ⟨rfl,hr⟩ : i = loop ∧ 0 < s.round.held := by
      by_cases hil : i = loop
      · exact ⟨hil,by simpa [hil] using hi⟩
      · simp [hil] at hi
    cases hround : s.round with
    | idle => simp [hround, Round.held] at hr
    | reported keys => simp [hround, Round.held] at hr
    | handling keys p =>
      refine ⟨.handled,{ s with round := .batch keys },.inr ⟨rfl,.inr rfl⟩,by simp [step, hround, hc],?_⟩
      simp [left, hc, hround, roundLeft]
    | batch keys =>
      cases keys with
      | nil =>
        refine ⟨.next,{ s with mutex := s.mutex.unlock i, round := .idle },.inr ⟨rfl,.inl rfl⟩,?_,?_⟩
        · simp only [step, stepBatch, hround]
        · simp [left, hc, hround, roundLeft]
      | cons key keys =>
        cases hk : s.server.dispatcherByKey key with
        | none =>
          refine ⟨.next,{ s with round := .batch keys },.inr ⟨rfl,.inl rfl⟩,?_,?_⟩
          · simp only [step, stepBatch, hround, hk]
          · simp only [left, hc, hround, roundLeft, List.length_cons, if_pos]
            omega
        | some p =>
          refine ⟨.next,{ s with round := .handling keys p },.inr ⟨rfl,.inl rfl⟩,?_,?_⟩
          · simp only [step, stepBatch, hround, hk]
          · simp only [left, hc, hround, roundLeft, List.length_cons, if_pos]
            omega

/-- The mutex is free once its owner has taken so many steps. -/
theorem exists_freed (n : ℕ) (h : Invariant loop s) (hi : ∀ j, 0 < s.mutex.depth j → j = i)
    (hn : s.left loop i ≤ n) :
    ∃ t, (sharedMachine loop).Reaches (fun u a => 0 < u.mutex.depth i ∧ Own loop i a) s t ∧
      ∀ j, t.mutex.depth j = 0 := by
  induction n generalizing s with
  | zero =>
    refine ⟨s,.refl,fun j => Nat.eq_zero_of_not_pos fun hj => ?_⟩
    obtain rfl := hi j hj
    obtain ⟨a,u,-,-,hlt⟩ := exists_own h hj
    omega
  | succ n ih =>
    by_cases hd : 0 < s.mutex.depth i
    · obtain ⟨a,u,ha,he,hlt⟩ := exists_own h hd
      have hu := h.step he
      have honly (j : ι) (hj : 0 < u.mutex.depth j) : j = i := by
        by_contra hji
        rw [hu.agrees, held_of_own ha he hji, ← h.agrees] at hj
        exact hji (hi j hj)
      obtain ⟨t,hr,ht⟩ := ih hu honly (by omega)
      exact ⟨t,.head ⟨a,⟨hd,ha⟩,he⟩ hr,ht⟩
    · refine ⟨s,.refl,fun j => Nat.eq_zero_of_not_pos fun hj => hd ?_⟩
      obtain rfl := hi j hj
      exact hj

end SharedServer

variable {ι : Type*} [DecidableEq ι] {loop : ι} {s : SharedServer ι}
open SharedServer

theorem reachable_sharedInvariant {ok : SharedServer ι → ServerAction ι → Prop}
    (hs : (sharedMachine loop).Reachable ok s) : SharedServer.Invariant loop s := by
  refine hs.rule ?_ fun s a t h _ he => h.step he
  rintro s rfl
  exact .start loop

/-- The recursive mutex of the socket server never stays locked for good: whoever has it comes to its release by steps
of its own, whatever it calls in handlers and however many threads wait. -/
theorem mutex_can_be_freed (hs : (sharedMachine loop).Reachable Machine.Free s) (i : ι) (hi : 0 < s.mutex.depth i) :
    ∃ t, (sharedMachine loop).Reaches (fun u a => 0 < u.mutex.depth i ∧ Own loop i a) s t ∧
      ∀ j, t.mutex.depth j = 0 :=
  exists_freed _ (reachable_sharedInvariant hs) (fun _ hj => RecursiveLock.only hj hi) le_rfl

/-- The loop thread in a handler that has called Remove, which locks the mutex again. -/
theorem handler_frees_mutex : ∃ s : SharedServer Bool, s.round = .handling [] 5 ∧
    s.calls false = some (.remove 5,.entered) ∧ ∃ t, (sharedMachine false).Reaches
      (fun u a => 0 < u.mutex.depth false ∧ Own false false a) s t ∧ ∀ j, t.mutex.depth j = 0 := by
  have hrun : ((sharedMachine false).run Machine.Free .start [.call true (.add 5),.go true,.go true,.go true,.go true,
      .report [0],.lock,.next,.call false (.remove 5)]).any (fun s => decide (s.round = .handling [] 5 ∧
        s.calls false = some (.remove 5,.entered) ∧ 0 < s.mutex.depth false)) = true := by
    decide +kernel
  obtain ⟨s,hs,hp⟩ := Machine.exists_reachable_of_run rfl hrun
  obtain ⟨hround,hcall,hd⟩ := of_decide_eq_true hp
  exact ⟨s,hround,hcall,mutex_can_be_freed hs false hd⟩

end UServer.Net
