import UServer.Sigslot.Policies

/-! What a signal is connected to, as a list of objects and methods, and the steps that take it from one list to the
next or call it. -/
namespace UServer.Sigslot
open Library

/-- The object and the method that a connection calls. -/
def Connection.target (c : Connection) : ℕ × ℕ := (c.dest,c.method)

namespace Signal

/-- The targets of a signal in the order of its list. -/
def targets (s : Signal) : List (ℕ × ℕ) := s.slots.map Connection.target

/-- The targets that an emission has still to call. -/
def left (s : Signal) : List (ℕ × ℕ) := s.pending.map Connection.target

@[simp] theorem targets_fresh : fresh.targets = [] := rfl

@[simp] theorem targets_begin (s : Signal) : s.begin.targets = s.targets := rfl

@[simp] theorem targets_moveOn (s : Signal) (c : Connection) : (s.moveOn c).targets = s.targets := rfl

@[simp] theorem targets_pushBack (s : Signal) (dest method : ℕ) :
    (s.pushBack dest method).targets = s.targets ++ [(dest,method)] := List.map_append

theorem left_begin (s : Signal) : s.begin.left = s.targets := by
  rw [left, pending_begin, targets]

/-- Where all connections are to one object, disconnect takes away the first. -/
theorem targets_disconnect {s : Signal} {h : ℕ} (hd : ∀ x ∈ s.targets, x.1 = h) :
    ((s.disconnect h).getD s).targets = s.targets.tail := by
  cases hs : s.slots with
  | nil =>
    have hn : s.disconnect h = none := (s.disconnect_eq_none_iff h).mpr (by simp [dests, hs])
    simp [hn, targets, hs]
  | cons c cs =>
    have hc : c.dest = h := hd c.target (by simp [targets, hs])
    have he : s.disconnect h = some (s.erase c.node) := by
      simp [disconnect, hs, hc]
    have hn := s.nodup
    rw [hs] at hn
    have hrest : Cursor.erase Connection.node (c :: cs) c.node = cs := by
      rw [Cursor.erase_cons_self, Cursor.erase_of_notMem (List.nodup_cons.mp hn).1]
    rw [he, Option.getD_some, targets, slots_erase, hs, hrest, targets, hs, List.map_cons, List.tail_cons]

end Signal

namespace World
variable {w t : World} {g h method : ℕ} {s : Signal}

/-- One signal is set, and nothing else changes that an emission could see. -/
structure Sets (w t : World) (g : ℕ) (s : Signal) : Prop where
  signals : t.signals = Function.update w.signals g (some s)
  alive : ∀ h, (t.senders h).isSome = (w.senders h).isSome
  firing : t.firing = w.firing
  calls : t.calls = w.calls
  fault : t.fault = w.fault

/-- Some action that locks the signal, and at its far end at most the object, takes its targets from one list to
another. -/
def Edits (g h : ℕ) (l l' : List (ℕ × ℕ)) : Prop :=
  ∀ (w : World) (s : Signal), w.signals g = some s → (w.senders h).isSome = true → s.targets = l →
    ∃ (a : Action) (t : World) (s' : Signal), a.locked = [.signal g] ∧ (∀ o ∈ w.others a, o = .slots h) ∧
      w.exec a = some t ∧ w.Sets t g s' ∧ s'.targets = l'

theorem connect_edits (g h method : ℕ) (l : List (ℕ × ℕ)) : Edits g h l (l ++ [(h,method)]) := by
  rintro w s hs hh rfl
  have hspec := (w.setSignal g (some (s.pushBack h method))).signalConnect_spec h g
  have hquiet := quiet_signalConnect (P := fun _ => True) (w.setSignal g (some (s.pushBack h method))) h g
  refine ⟨.connect g h method,(w.setSignal g (some (s.pushBack h method))).signalConnect h g,s.pushBack h method,rfl,
    fun o ho => List.mem_singleton.mp ho,?_,?_,s.targets_pushBack h method⟩
  · simp only [exec, connect, hs, Option.bind_some, if_pos hh]
  · exact ⟨hspec.signals,hspec.alive,hquiet.firing,hquiet.calls,hspec.fault hh⟩

theorem disconnect_edits {l : List (ℕ × ℕ)} (g h : ℕ) (hl : ∀ x ∈ l, x.1 = h) : Edits g h l l.tail := by
  rintro w s hs hh rfl
  have hothers : ∀ o ∈ w.others (.disconnect g h), o = .slots h := by
    intro o ho
    simp only [others] at ho
    split at ho
    · exact List.mem_singleton.mp ho
    · exact absurd ho List.not_mem_nil
  have htail := Signal.targets_disconnect hl
  cases hd : s.disconnect h with
  | none =>
    rw [hd, Option.getD_none] at htail
    refine ⟨.disconnect g h,w,s,rfl,hothers,?_,⟨?_,fun _ => rfl,rfl,rfl,rfl⟩,htail⟩
    · simp [exec, disconnect, hs, hh, hd]
    · rw [← hs, Function.update_eq_self]
  | some u =>
    rw [hd, Option.getD_some] at htail
    have hspec := (w.setSignal g (some u)).signalDisconnect_spec h g
    have hquiet := quiet_signalDisconnect (P := fun _ => True) (w.setSignal g (some u)) h g
    refine ⟨.disconnect g h,(w.setSignal g (some u)).signalDisconnect h g,u,rfl,hothers,?_,
      ⟨hspec.signals,hspec.alive,hquiet.firing,hquiet.calls,hspec.fault hh⟩,htail⟩
    simp only [exec, disconnect, hs, Option.bind_some, if_pos hh, hd]

variable {policy : Object → Policy}

theorem step_eq_some {a : Action} (ha : w.Admits policy a) (he : w.exec a = some t) :
    (machine policy).step w a = some t :=
  (if_pos ha).trans he

theorem admits_of_unlocked {a : Action} (ha : a.locked = []) : w.Admits policy a := by
  intro o ho
  rw [ha] at ho
  cases ho

/-- The thread waits for a mutex that it holds: no action that locks a firing signal with a mutex has a step. -/
theorem step_firing_eq_none {a : Action} (hp : policy (.signal g) ≠ .singleThreaded) (hg : g ∈ w.firing)
    (ha : .signal g ∈ a.locked) : (machine policy).step w a = none :=
  if_neg fun hadm => (hadm.unlocked hp hg).1 ha

/-- New signals at addresses that have none. -/
theorem reaches_newSignals (policy : Object → Policy) {gs : List ℕ} (hn : gs.Nodup) (w : World)
    (hfree : ∀ g ∈ gs, w.signals g = none) :
    ∃ t, (machine policy).Reaches Machine.Free w t ∧
      (∀ g, t.signals g = if g ∈ gs then some .fresh else w.signals g) ∧ t.senders = w.senders ∧
        t.firing = w.firing ∧ t.calls = w.calls ∧ t.fault = w.fault := by
  induction gs generalizing w with
  | nil => exact ⟨w,.refl,fun g => by simp,rfl,rfl,rfl,rfl⟩
  | cons g gs ih =>
    obtain ⟨hg,hn⟩ := List.nodup_cons.mp hn
    obtain ⟨hone,hrest⟩ := List.forall_mem_cons.mp hfree
    have hstep : (machine policy).step w (.newSignal g) = some (w.setSignal g (some .fresh)) :=
      step_eq_some (admits_of_unlocked rfl) (by simp [exec, newSignal, hone])
    have hfree' : ∀ x ∈ gs, (w.setSignal g (some .fresh)).signals x = none := by
      intro x hx
      have hne : x ≠ g := fun he => hg (he ▸ hx)
      simp [setSignal, hne, hrest x hx]
    obtain ⟨t,ht,hsig,hsenders,hfiring,hcalls,hfault⟩ := ih hn _ hfree'
    refine ⟨t,.head ⟨_,trivial,hstep⟩ ht,fun x => ?_,hsenders,hfiring,hcalls,hfault⟩
    rw [hsig]
    by_cases hx : x ∈ gs
    · simp [hx]
    · by_cases he : x = g
      · simp [he, hg, setSignal]
      · simp [hx, he, setSignal]

/-- The innermost emission calls the next connection. -/
theorem next_calls (policy : Object → Policy) {rest : List ℕ} {x : ℕ × ℕ} {l : List (ℕ × ℕ)} (hf : w.firing = g :: rest)
    (hs : w.signals g = some s) (hl : s.left = x :: l) (hx : (w.senders x.1).isSome = true) :
    ∃ t s', (machine policy).step w .next = some t ∧ t.signals = Function.update w.signals g (some s') ∧
      s'.targets = s.targets ∧ s'.left = l ∧ t.senders = w.senders ∧ t.firing = w.firing ∧ t.fault = w.fault ∧
        (t.callsOf g).map Connection.target = (w.callsOf g).map Connection.target ++ [x] := by
  obtain ⟨c,cs,hp,rfl,rfl⟩ := List.map_eq_cons_iff.mp hl
  have hadv : s.advance = some (c,s.moveOn c) := by
    rw [Signal.advance, hp]
    rfl
  have hrest : (s.moveOn c).pending = cs := (List.cons.inj ((Signal.advance_some hadv).1.symm.trans hp)).2
  refine ⟨w.call g (s.moveOn c) c,s.moveOn c,step_eq_some (admits_of_unlocked rfl) ?_,rfl,rfl,by rw [Signal.left, hrest],
    rfl,rfl,?_,?_⟩
  · simp [exec, next, hf, hs, hadv]
  · have hc : (w.senders c.dest).isNone = false := by
      rw [← Option.not_isSome, show (w.senders c.dest).isSome = true from hx]
      rfl
    simp [call, setSignal, hc]
  · rw [callsOf_call, List.map_append, List.map_singleton]

/-- The innermost emission has nothing left to call and ends. -/
theorem next_ends {rest : List ℕ} (hf : w.firing = g :: rest) (hs : w.signals g = some s) (hl : s.left = []) :
    (machine policy).step w .next = some { w with firing := rest } := by
  have hadv : s.advance = none := by
    rw [Signal.advance_eq_none_iff, ← Signal.pending_eq_nil_iff]
    exact List.map_eq_nil_iff.mp hl
  exact step_eq_some (admits_of_unlocked rfl) (by simp [exec, next, hf, hs, hadv])

end World
end UServer.Sigslot
