import UServer.Sigslot.Links

/-! What an emission calls while its slots connect, disconnect, copy, destroy and emit. -/
namespace UServer.Sigslot
open Library

/-- What may have become of a signal that no emission of it has gone on with or begun. -/
structure Signal.Edited (s t : Signal) : Prop where
  next : s.next ≤ t.next
  slots : ∀ c ∈ t.slots, c ∈ s.slots ∨ s.next ≤ c.node
  pending : ∀ c ∈ t.pending, c ∈ s.pending ∨ s.next ≤ c.node
  kept : ∀ c ∈ s.pending, c ∈ t.slots → c ∈ t.pending
  ended : s.current = none → t.current = none

namespace Signal

theorem mem_slots_of_pending {s : Signal} {c : Connection} (hc : c ∈ s.pending) : c ∈ s.slots :=
  s.pending_suffix.mem hc

theorem lt_next_of_pending {s : Signal} {c : Connection} (hc : c ∈ s.pending) : c.node < s.next :=
  s.bounded c (mem_slots_of_pending hc)

theorem Edited.refl (s : Signal) : s.Edited s := ⟨le_rfl,fun _ => .inl,fun _ => .inl,fun _ hc _ => hc,id⟩

theorem Edited.trans {s t u : Signal} (h : s.Edited t) (h' : t.Edited u) : s.Edited u where
  next := h.next.trans h'.next
  slots c hc := (h'.slots c hc).elim (h.slots c) fun hn => .inr (h.next.trans hn)
  pending c hc := (h'.pending c hc).elim (h.pending c) fun hn => .inr (h.next.trans hn)
  kept c hc hu := by
    have hlt := lt_next_of_pending hc
    rcases h'.slots c hu with ht | hn
    · exact h'.kept c (h.kept c hc ht) hu
    · exact absurd (h.next.trans hn) (Nat.not_le_of_lt hlt)
  ended := h'.ended ∘ h.ended

theorem edited_pushBack (s : Signal) (dest method : ℕ) : s.Edited (s.pushBack dest method) where
  next := Nat.le_succ _
  slots c hc := by
    rcases List.mem_append.mp hc with hc | hc
    · exact .inl hc
    · exact .inr (List.mem_singleton.mp hc ▸ le_rfl)
  pending c hc := by
    rw [pending_pushBack] at hc
    split at hc
    · exact absurd hc List.not_mem_nil
    · rcases List.mem_append.mp hc with hc | hc
      · exact .inl hc
      · exact .inr (List.mem_singleton.mp hc ▸ le_rfl)
  kept c hc _ := by
    rw [pending_pushBack, if_neg]
    · exact List.mem_append_left _ hc
    · exact fun hn => List.ne_nil_of_mem hc (s.pending_eq_nil_iff.mpr hn)
  ended := id

theorem edited_erase (s : Signal) (node : ℕ) : s.Edited (s.erase node) where
  next := le_rfl
  slots c hc := .inl ((Cursor.erase_sublist _ _).subset hc)
  pending c hc := by
    rw [pending_erase] at hc
    exact .inl ((Cursor.erase_sublist _ _).subset hc)
  kept c hc ht := by
    rw [pending_erase]
    exact List.mem_filter.mpr ⟨hc,(List.mem_filter.mp ht).2⟩
  ended hn := by
    rw [← pending_eq_nil_iff] at hn ⊢
    rw [pending_erase, hn]
    rfl

theorem edited_clear (s : Signal) : s.Edited s.clear where
  next := le_rfl
  slots _ hc := absurd hc List.not_mem_nil
  pending _ hc := absurd (mem_slots_of_pending hc) List.not_mem_nil
  kept _ _ ht := absurd ht List.not_mem_nil
  ended _ := rfl

theorem edited_disconnect {s t : Signal} {pclass : ℕ} (h : s.disconnect pclass = some t) : s.Edited t := by
  obtain ⟨c,-,rfl⟩ := Option.map_eq_some_iff.mp h
  exact s.edited_erase c.node

theorem edited_foldl {f : Signal → Connection → Signal} (hf : ∀ (s : Signal) (c : Connection), s.Edited (f s c))
    (xs : List Connection) (s : Signal) : s.Edited (xs.foldl f s) := by
  induction xs generalizing s with
  | nil => exact .refl s
  | cons c xs ih => exact (hf s c).trans (ih (f s c))

theorem edited_slotDisconnect (s : Signal) (pslot : ℕ) : s.Edited (s.slotDisconnect pslot) := by
  refine edited_foldl (fun s c => ?_) s.slots s
  split
  · exact s.edited_erase c.node
  · exact .refl s

theorem edited_slotDuplicate (s : Signal) (oldtarget newtarget : ℕ) :
    s.Edited (s.slotDuplicate oldtarget newtarget) := by
  refine edited_foldl (fun s c => ?_) s.slots s
  split
  · exact s.edited_pushBack newtarget c.method
  · exact .refl s

end Signal

/-- From one state of a signal to a later one, with the calls made through it in between and no emission of it begun. -/
structure Signal.Progress (s t : Signal) (cs : List Connection) : Prop where
  next : s.next ≤ t.next
  sorted : cs.Pairwise fun a b => a.node < b.node
  called : ∀ c ∈ cs, (c ∈ s.pending ∨ s.next ≤ c.node) ∧ c.node < t.next ∧ ∀ d ∈ t.pending, c.node < d.node
  pending : ∀ c ∈ t.pending, c ∈ s.pending ∨ s.next ≤ c.node
  kept : ∀ c ∈ s.pending, c ∈ t.slots → c ∈ cs ∨ c ∈ t.pending
  ended : s.current = none → t.current = none ∧ cs = []

namespace Signal

theorem Progress.refl (s : Signal) : s.Progress s [] where
  next := le_rfl
  sorted := .nil
  called _ hc := absurd hc List.not_mem_nil
  pending _ := .inl
  kept _ hc _ := .inr hc
  ended h := ⟨h,rfl⟩

theorem Progress.edit {s t u : Signal} {cs : List Connection} (h : s.Progress t cs) (he : t.Edited u) :
    s.Progress u cs where
  next := h.next.trans he.next
  sorted := h.sorted
  called c hc := by
    obtain ⟨hs,hlt,hd⟩ := h.called c hc
    refine ⟨hs,hlt.trans_le he.next,fun d hu => ?_⟩
    rcases he.pending d hu with ht | hn
    · exact hd d ht
    · exact hlt.trans_le hn
  pending c hc := (he.pending c hc).elim (h.pending c) fun hn => .inr (h.next.trans hn)
  kept c hc hu := by
    have hlt := (lt_next_of_pending hc).trans_le h.next
    rcases he.slots c hu with ht | hn
    · exact (h.kept c hc ht).imp_right fun hp => he.kept c hp hu
    · exact absurd hn (Nat.not_le_of_lt hlt)
  ended hn := (h.ended hn).imp_left he.ended

theorem Progress.advance {s t u : Signal} {cs : List Connection} {c : Connection} (h : s.Progress t cs)
    (ha : t.advance = some (c,u)) : s.Progress u (cs ++ [c]) := by
  obtain ⟨hp,rfl⟩ := advance_some ha
  have hc : c ∈ t.pending := hp ▸ List.mem_cons_self
  have hlt : c.node < t.next := lt_next_of_pending hc
  have htail {d : Connection} (hd : d ∈ (t.moveOn c).pending) : d ∈ t.pending := hp ▸ List.mem_cons_of_mem c hd
  have hsorted : (c :: (t.moveOn c).pending).Pairwise fun a b => a.node < b.node :=
    hp ▸ t.sorted.sublist t.pending_suffix.sublist
  refine ⟨h.next,?_,?_,fun d hd => h.pending d (htail hd),?_,?_⟩
  · refine List.pairwise_append.mpr ⟨h.sorted,List.pairwise_singleton _ _,?_⟩
    intro d hd e he
    exact List.mem_singleton.mp he ▸ (h.called d hd).2.2 c hc
  · intro d hd
    rcases List.mem_append.mp hd with hd | hd
    · obtain ⟨hs,hlt,hlast⟩ := h.called d hd
      exact ⟨hs,hlt,fun e he => hlast e (htail he)⟩
    · rw [List.mem_singleton.mp hd]
      exact ⟨h.pending c hc,hlt,fun d hd => List.rel_of_pairwise_cons hsorted hd⟩
  · intro d hd hs
    rcases h.kept d hd hs with hcs | ht
    · exact .inl (List.mem_append_left _ hcs)
    · rw [hp] at ht
      rcases List.mem_cons.mp ht with rfl | ht
      · exact .inl (List.mem_append_right _ (List.mem_singleton_self _))
      · exact .inr ht
  · intro hn
    rw [t.pending_eq_nil_iff.mpr (h.ended hn).1] at hp
    cases hp

end Signal

/-- No emission begins, goes on or ends, what went wrong stays so, and the signals meant are at most edited. -/
structure World.Quiet (P : ℕ → Prop) (w t : World) : Prop where
  firing : t.firing = w.firing
  calls : t.calls = w.calls
  fault : w.fault = true → t.fault = true
  signals : ∀ g s, P g → w.signals g = some s → ∃ s', t.signals g = some s' ∧ s.Edited s'

namespace World
variable {w t u : World} {P : ℕ → Prop} {g h o : ℕ}

theorem Quiet.refl (w : World) : w.Quiet P w := ⟨rfl,rfl,id,fun _ s _ hs => ⟨s,hs,.refl s⟩⟩

theorem Quiet.trans (h : w.Quiet P t) (h' : t.Quiet P u) : w.Quiet P u where
  firing := h'.firing.trans h.firing
  calls := h'.calls.trans h.calls
  fault := h'.fault ∘ h.fault
  signals g s hg hs := by
    obtain ⟨s',hs',he⟩ := h.signals g s hg hs
    obtain ⟨s'',hs'',he'⟩ := h'.signals g s' hg hs'
    exact ⟨s'',hs'',he.trans he'⟩

theorem Quiet.mono {Q : ℕ → Prop} (h : w.Quiet P t) (hq : ∀ g, Q g → P g) : w.Quiet Q t :=
  ⟨h.firing,h.calls,h.fault,fun g s hg => h.signals g s (hq g hg)⟩

theorem quiet_foldl {f : World → ℕ → World} (hf : ∀ (w : World) (x : ℕ), w.Quiet P (f w x)) (xs : List ℕ) (w : World) :
    w.Quiet P (xs.foldl f w) := by
  induction xs generalizing w with
  | nil => exact .refl w
  | cons x xs ih => exact (hf w x).trans (ih (f w x))

theorem quiet_setSenders (w : World) (h : ℕ) (l : Option (List ℕ)) : w.Quiet P (w.setSenders h l) :=
  ⟨rfl,rfl,id,fun _ s _ hs => ⟨s,hs,.refl s⟩⟩

theorem quiet_fault (w : World) : w.Quiet P { w with fault := true } :=
  ⟨rfl,rfl,fun _ => rfl,fun _ s _ hs => ⟨s,hs,.refl s⟩⟩

/-- A signal that is set to an edited one. -/
theorem quiet_setSignal {s s' : Signal} (hs : w.signals g = some s) (he : s.Edited s') :
    w.Quiet P (w.setSignal g (some s')) where
  firing := rfl
  calls := rfl
  fault := id
  signals g' r _ hr := by
    by_cases hg : g' = g
    · subst hg
      obtain rfl := Option.some.inj (hs.symm.trans hr)
      exact ⟨s',by simp [setSignal],he⟩
    · exact ⟨r,by simp [setSignal, hg, hr],.refl r⟩

/-- A signal that was not meant may become anything. -/
theorem quiet_setSignal_of_not (w : World) (s : Option Signal) (hg : ¬ P g) : w.Quiet P (w.setSignal g s) where
  firing := rfl
  calls := rfl
  fault := id
  signals g' r hp hr := by
    have hne : g' ≠ g := by
      rintro rfl
      exact hg hp
    exact ⟨r,by simp [setSignal, hne, hr],.refl r⟩

theorem quiet_signalConnect (w : World) (h g : ℕ) : w.Quiet P (w.signalConnect h g) := by
  unfold signalConnect
  split
  · exact w.quiet_fault
  · exact w.quiet_setSenders h _

theorem quiet_signalDisconnect (w : World) (h g : ℕ) : w.Quiet P (w.signalDisconnect h g) := by
  unfold signalDisconnect
  split
  · exact w.quiet_fault
  · exact w.quiet_setSenders h _

theorem quiet_slotDisconnect (w : World) (g h : ℕ) : w.Quiet P (w.slotDisconnect g h) := by
  unfold slotDisconnect
  split
  · exact w.quiet_fault
  · rename_i s hs
    exact quiet_setSignal hs (s.edited_slotDisconnect h)

theorem quiet_slotDuplicate (w : World) (g o h : ℕ) : w.Quiet P (w.slotDuplicate g o h) := by
  unfold slotDuplicate
  split
  · exact w.quiet_fault
  · rename_i s hs
    exact quiet_setSignal hs (s.edited_slotDuplicate o h)

theorem quiet_signalDisconnectAll (he : w.signalDisconnectAll g = some t) : w.Quiet P t := by
  obtain ⟨s,hs,rfl⟩ := Option.map_eq_some_iff.mp he
  have hq : w.Quiet P (s.dests.foldl (fun w h => w.signalDisconnect h g) w) :=
    quiet_foldl (fun w h => w.quiet_signalDisconnect h g) s.dests w
  refine hq.trans (quiet_setSignal ?_ s.edited_clear)
  rw [(disconnectEach_spec s.dests w g).1, hs]

theorem quiet_slotsDisconnectAll (he : w.slotsDisconnectAll h = some t) : w.Quiet P t := by
  obtain ⟨l,-,rfl⟩ := Option.map_eq_some_iff.mp he
  exact (w.quiet_setSenders h _).trans (quiet_foldl (fun w g => w.quiet_slotDisconnect g h) l _)

/-- What an action does that is neither of an emission nor the end of a signal. -/
theorem quiet_exec {a : Action} (he : w.exec a = some t) (hemit : ∀ g, a ≠ .emit g) (hnext : a ≠ .next) :
    w.Quiet (fun g => a ≠ .destroySignal g) t := by
  cases a with
  | newSignal g =>
    rw [exec, newSignal, Option.ite_none_right_eq_some, Option.isNone_iff_eq_none] at he
    obtain ⟨hn,he⟩ := he
    cases he
    refine ⟨rfl,rfl,id,fun g' r _ hr => ⟨r,?_,.refl r⟩⟩
    have hg : g' ≠ g := by
      rintro rfl
      exact absurd hr (by simp [hn])
    simp [setSignal, hg, hr]
  | copySignal g o =>
    obtain ⟨s,hs,he⟩ := Option.bind_eq_some_iff.mp he
    rw [Option.ite_none_right_eq_some, Option.isNone_iff_eq_none] at he
    obtain ⟨hn,he⟩ := he
    cases he
    have hq : w.Quiet (fun g' => Action.copySignal g o ≠ .destroySignal g')
        (s.dests.foldl (fun w h => w.signalConnect h g) w) :=
      quiet_foldl (fun w h => w.quiet_signalConnect h g) s.dests w
    refine ⟨hq.firing,hq.calls,hq.fault,fun g' r _ hr => ⟨r,?_,.refl r⟩⟩
    have hg : g' ≠ g := by
      rintro rfl
      exact absurd hr (by simp [hn])
    simp [setSignal, hg, (connectEach_spec s.dests w g).1, hr]
  | destroySignal g =>
    obtain ⟨u,hu,rfl⟩ := Option.map_eq_some_iff.mp he
    have hq : w.Quiet (fun g' => Action.destroySignal g ≠ .destroySignal g') (u.setSignal g none) :=
      (quiet_signalDisconnectAll hu).trans (u.quiet_setSignal_of_not none fun h => h rfl)
    exact ⟨hq.firing,hq.calls,fun hf => by simp [show u.fault = true from hq.fault hf],hq.signals⟩
  | newSlots h =>
    rw [exec, newSlots, Option.ite_none_right_eq_some] at he
    cases he.2
    exact w.quiet_setSenders h _
  | copySlots h o =>
    obtain ⟨l,-,he⟩ := Option.bind_eq_some_iff.mp he
    rw [Option.ite_none_right_eq_some] at he
    cases he.2
    refine (w.quiet_setSenders h _).trans (quiet_foldl (fun w g => ?_) l _)
    exact (w.quiet_slotDuplicate g o h).trans (quiet_signalConnect _ h g)
  | destroySlots h =>
    obtain ⟨u,hu,rfl⟩ := Option.map_eq_some_iff.mp he
    exact (quiet_slotsDisconnectAll hu).trans (u.quiet_setSenders h none)
  | connect g h method =>
    obtain ⟨s,hs,he⟩ := Option.bind_eq_some_iff.mp he
    rw [Option.ite_none_right_eq_some] at he
    cases he.2
    exact (quiet_setSignal hs (s.edited_pushBack h method)).trans (quiet_signalConnect _ h g)
  | disconnect g h =>
    obtain ⟨s,hs,he⟩ := Option.bind_eq_some_iff.mp he
    rw [Option.ite_none_right_eq_some, Option.some.injEq] at he
    rw [← he.2]
    split
    · exact .refl w
    · rename_i u hu
      exact (quiet_setSignal hs (Signal.edited_disconnect hu)).trans (quiet_signalDisconnect _ h g)
  | signalDisconnectAll g => exact quiet_signalDisconnectAll he
  | slotsDisconnectAll h => exact quiet_slotsDisconnectAll he
  | emit g => exact absurd rfl (hemit g)
  | next => exact absurd rfl hnext

/-- The connections called through a signal, in order. -/
def callsOf (w : World) (g : ℕ) : List Connection := (w.calls.filter fun x => decide (x.1 = g)).map Prod.snd

theorem callsOf_call (w : World) (g : ℕ) (t : Signal) (c : Connection) :
    (w.call g t c).callsOf g = w.callsOf g ++ [c] := by
  simp [callsOf, call]

theorem callsOf_call_of_ne {g' : ℕ} (t : Signal) (c : Connection) (hg : g ≠ g') :
    (w.call g' t c).callsOf g = w.callsOf g := by
  simp [callsOf, call, hg.symm]

/-- What an action other than the beginning of an emission does to a signal that it does not destroy: an edit with no
call through it, or the next call of its emission. -/
theorem signal_step {a : Action} {s : Signal} (he : w.exec a = some t) (hemit : a ≠ .emit g) (hd : a ≠ .destroySignal g)
    (hs : w.signals g = some s) :
    ∃ s', t.signals g = some s' ∧ (s.Edited s' ∧ t.callsOf g = w.callsOf g ∨
      a = .next ∧ ∃ c, s.advance = some (c,s') ∧ t.callsOf g = w.callsOf g ++ [c]) := by
  cases a with
  | emit g' =>
    have hg : g ≠ g' := fun h => hemit (congrArg _ h.symm)
    obtain ⟨r,-,rfl⟩ := Option.map_eq_some_iff.mp he
    exact ⟨s,by simp [setSignal, hg, hs],.inl ⟨.refl s,rfl⟩⟩
  | next =>
    simp only [exec, next] at he
    split at he
    · cases he
    · rename_i g' rest hf
      obtain ⟨r,hr,rfl⟩ := Option.map_eq_some_iff.mp he
      split
      · exact ⟨s,hs,.inl ⟨.refl s,rfl⟩⟩
      · rename_i c r' hadv
        by_cases hg : g = g'
        · subst hg
          obtain rfl := Option.some.inj (hs.symm.trans hr)
          exact ⟨r',by simp [call, setSignal],.inr ⟨rfl,c,hadv,callsOf_call ..⟩⟩
        · exact ⟨s,by simp [call, setSignal, hg, hs],.inl ⟨.refl s,callsOf_call_of_ne _ _ hg⟩⟩
  | _ =>
    have hq := quiet_exec he (by simp) (by simp)
    obtain ⟨s',hs',hedit⟩ := hq.signals g s hd hs
    exact ⟨s',hs',.inl ⟨hedit,by rw [callsOf, callsOf, hq.calls]⟩⟩

/-- No emission of the signal begins, and it is not destroyed. -/
def Alone (g : ℕ) (_ : World) (a : Action) : Prop := a ≠ .emit g ∧ a ≠ .destroySignal g

instance (g : ℕ) (w : World) (a : Action) : Decidable (Alone g w a) := inferInstanceAs (Decidable (_ ∧ _))

variable {policy : Object → Policy}

/-- From any state on, what is called through a signal whose emission is not begun anew. -/
theorem progress {s : Signal} (hs : w.signals g = some s) (hr : (machine policy).Reaches (Alone g) w t) :
    ∃ s' cs, t.signals g = some s' ∧ t.callsOf g = w.callsOf g ++ cs ∧ s.Progress s' cs := by
  refine hr.rule (R := fun t => ∃ s' cs, t.signals g = some s' ∧ t.callsOf g = w.callsOf g ++ cs ∧ s.Progress s' cs)
    ⟨s,[],hs,(List.append_nil _).symm,.refl s⟩ ?_
  rintro u a v - ⟨s',cs,hs',hc,hp⟩ ha he
  obtain ⟨s'',hs'',⟨hedit,hcalls⟩ | ⟨-,c,hadv,hcalls⟩⟩ := signal_step (machine_step policy he).2 ha.1 ha.2 hs'
  · exact ⟨s'',cs,hs'',hcalls.trans hc,hp.edit hedit⟩
  · exact ⟨s'',cs ++ [c],hs'',by rw [hcalls, hc, List.append_assoc],hp.advance hadv⟩

/-- The emissions underway: an action begins one, ends the innermost, which has nothing left to call, or keeps them. -/
theorem firing_step {a : Action} (he : w.exec a = some t) :
    t.firing = w.firing ∨ (∃ g, a = .emit g ∧ t.firing = g :: w.firing) ∨
      a = .next ∧ ∃ g s, w.firing = g :: t.firing ∧ t.signals g = some s ∧ s.current = none := by
  cases a with
  | emit g =>
    obtain ⟨r,-,rfl⟩ := Option.map_eq_some_iff.mp he
    exact .inr (.inl ⟨g,rfl,rfl⟩)
  | next =>
    simp only [exec, next] at he
    split at he
    · cases he
    · rename_i g rest hf
      obtain ⟨r,hr,rfl⟩ := Option.map_eq_some_iff.mp he
      split
      · rename_i hadv
        exact .inr (.inr ⟨rfl,g,r,hf,hr,r.advance_eq_none_iff.mp hadv⟩)
      · exact .inl rfl
  | _ => exact .inl (quiet_exec he (by simp) (by simp)).firing

/-- As long as its emission is not begun anew, a signal's innermost emission is underway or it has nothing left to
call. -/
theorem underway {fs : List ℕ} {s : Signal} (hs : w.signals g = some s) (hf : w.firing = g :: fs)
    (hr : (machine policy).Reaches (Alone g) w t) :
    (g :: fs) <:+ t.firing ∨ ∃ s', t.signals g = some s' ∧ s'.current = none := by
  refine hr.rule (R := fun t => (g :: fs) <:+ t.firing ∨ ∃ s', t.signals g = some s' ∧ s'.current = none)
    (.inl (hf ▸ List.suffix_rfl)) ?_
  rintro u a v hu hi ha he
  obtain ⟨s₁,-,hs₁,-⟩ := progress hs hu
  obtain ⟨-,he⟩ := machine_step policy he
  rcases hi with hsuf | ⟨s',hs',hn⟩
  · rcases firing_step he with h | ⟨g',-,h⟩ | ⟨-,g',r,h,hr,hn⟩
    · exact .inl (h ▸ hsuf)
    · exact .inl (h ▸ hsuf.trans (List.suffix_cons g' u.firing))
    · rw [h, List.suffix_cons_iff] at hsuf
      rcases hsuf with heq | hsuf
      · obtain ⟨rfl,-⟩ := List.cons.inj heq
        exact .inr ⟨r,hr,hn⟩
      · exact .inl hsuf
  · obtain ⟨s'',hs'',⟨hedit,-⟩ | ⟨-,c,hadv,-⟩⟩ := signal_step he ha.1 ha.2 hs'
    · exact .inr ⟨s'',hs'',hedit.ended hn⟩
    · rw [s'.advance_eq_none_iff.mpr hn] at hadv
      cases hadv

theorem emit_eq {s : Signal} (hs : w.signals g = some s) (he : (machine policy).step w (.emit g) = some u) :
    u.signals g = some s.begin ∧ u.firing = g :: w.firing ∧ u.callsOf g = w.callsOf g := by
  obtain ⟨r,hr,rfl⟩ := Option.map_eq_some_iff.mp (machine_step policy he).2
  obtain rfl := Option.some.inj (hs.symm.trans hr)
  exact ⟨by simp [setSignal],rfl,rfl⟩

/-- An emission that has ended has nothing left to call. -/
theorem current_of_ended {s : Signal} (hs : w.signals g = some s) (he : (machine policy).step w (.emit g) = some u)
    (hr : (machine policy).Reaches (Alone g) u t) (hend : t.firing.length ≤ w.firing.length) :
    ∃ s', t.signals g = some s' ∧ s'.current = none := by
  obtain ⟨hu,hf,-⟩ := emit_eq hs he
  refine (underway hu hf hr).resolve_left fun hsuf => ?_
  have hlen := hsuf.length_le
  rw [List.length_cons] at hlen
  omega

end World

open World
variable {policy : Object → Policy} {w u v t : World} {g : ℕ}

/-- Whatever its slots do, short of destroying the signal itself, an emission calls connections in the order in which
they were made, none twice, and only such as it found or were made since; by its end it has called every one that it
found and that is still there. -/
theorem emission_in_order {s : Signal} (hs : w.signals g = some s) (he : (machine policy).step w (.emit g) = some u)
    (hr : (machine policy).Reaches (Alone g) u t) :
    ∃ s' cs, t.signals g = some s' ∧ t.callsOf g = w.callsOf g ++ cs ∧
      cs.Pairwise (fun a b => a.node < b.node) ∧ (∀ c ∈ cs, c ∈ s.slots ∨ s.next ≤ c.node) ∧
        (t.firing.length ≤ w.firing.length → ∀ c ∈ s.slots, c ∈ s'.slots → c ∈ cs) := by
  obtain ⟨hu,-,hcalls⟩ := emit_eq hs he
  obtain ⟨s',cs,hs',hc,hp⟩ := progress hu hr
  have hslots (c : Connection) : c ∈ s.begin.pending ↔ c ∈ s.slots := by rw [Signal.pending_begin]
  refine ⟨s',cs,hs',hcalls ▸ hc,hp.sorted,fun c hm => ?_,fun hend c hm hm' => ?_⟩
  · exact (hp.called c hm).1.imp_left (hslots c).mp
  · obtain ⟨r,hr,hn⟩ := current_of_ended hs he hr hend
    obtain rfl := Option.some.inj (hs'.symm.trans hr)
    refine (hp.kept c ((hslots c).mpr hm) hm').resolve_right fun hpend => ?_
    rw [s'.pending_eq_nil_iff.mpr hn] at hpend
    exact List.not_mem_nil hpend

/-- One signal, connected to two objects. -/
def twoSlots : List Action := [.newSignal 0,.newSlots 0,.newSlots 1,.connect 0 0 7,.connect 0 1 8]

/-- The first slot connects another and disconnects the second. -/
theorem twoSlots_in_order : ∃ w t : World, t.firing = [] ∧ (t.callsOf 0).length = 2 ∧
    ∃ cs : List Connection, t.callsOf 0 = w.callsOf 0 ++ cs ∧ cs.Pairwise fun a b => a.node < b.node := by
  have hrun : ((machine fun _ => .singleThreaded).run Machine.Free .start twoSlots).any (fun w =>
      (w.signals 0).isSome && ((machine fun _ => .singleThreaded).step w (.emit 0)).any fun u =>
        ((machine fun _ => .singleThreaded).run (Alone 0) u
          [.next,.connect 0 0 9,.disconnect 0 1,.next,.next]).any fun t =>
            decide (t.firing = [] ∧ (t.callsOf 0).length = 2)) = true := by
    decide +kernel
  obtain ⟨w,-,hw⟩ := (Option.any_eq_true _ _).mp hrun
  obtain ⟨hs,hw⟩ := (Bool.and_eq_true _ _).mp hw
  obtain ⟨s,hs⟩ := Option.isSome_iff_exists.mp hs
  obtain ⟨u,hu,hw⟩ := (Option.any_eq_true _ _).mp hw
  obtain ⟨t,ht,hw⟩ := (Option.any_eq_true _ _).mp hw
  obtain ⟨hf,hlen⟩ := of_decide_eq_true hw
  obtain ⟨s',cs,-,hcalls,hsorted,-⟩ := emission_in_order hs hu (Machine.reaches_of_run ht)
  exact ⟨w,t,hf,hlen,cs,hcalls,hsorted⟩

/-- Once an emission has ended, no call is made through the signal until the next one begins: an outer emission of the
same signal calls none of the connections that it had left. -/
theorem no_calls_after_ended {s : Signal} (hs : w.signals g = some s) (he : (machine policy).step w (.emit g) = some u)
    (hr : (machine policy).Reaches (Alone g) u v) (hend : v.firing.length ≤ w.firing.length)
    (hr' : (machine policy).Reaches (Alone g) v t) : t.callsOf g = v.callsOf g := by
  obtain ⟨s',hs',hn⟩ := current_of_ended hs he hr hend
  obtain ⟨s'',cs,-,hc,hp⟩ := progress hs' hr'
  rw [hc, (hp.ended hn).2, List.append_nil]

/-- The first slot emits the signal again, which calls both; then the outer emission ends without the second. -/
theorem nested_ends_outer : ∃ w v t : World, 0 ∈ w.firing ∧ (w.signals 0).any (fun s => decide (s.pending ≠ [])) = true ∧
    v.firing = w.firing ∧ t.firing = [] ∧ t.callsOf 0 = v.callsOf 0 := by
  have hrun : ((machine fun _ => .singleThreaded).run Machine.Free .start (twoSlots ++ [.emit 0,.next])).any (fun w =>
      decide (0 ∈ w.firing ∧ (w.signals 0).any (fun s => decide (s.pending ≠ [])) = true) &&
        ((machine fun _ => .singleThreaded).step w (.emit 0)).any fun u =>
          ((machine fun _ => .singleThreaded).run (Alone 0) u [.next,.next,.next]).any fun v =>
            decide (v.firing = w.firing) && ((machine fun _ => .singleThreaded).run (Alone 0) v
              [.connect 0 0 9,.next]).any fun t => decide (t.firing = [])) = true := by
    decide +kernel
  obtain ⟨w,-,hw⟩ := (Option.any_eq_true _ _).mp hrun
  obtain ⟨hg,hw⟩ := (Bool.and_eq_true _ _).mp hw
  obtain ⟨hf,hpend⟩ := of_decide_eq_true hg
  obtain ⟨s,hs,-⟩ := (Option.any_eq_true _ _).mp hpend
  obtain ⟨u,hu,hw⟩ := (Option.any_eq_true _ _).mp hw
  obtain ⟨v,hv,hw⟩ := (Option.any_eq_true _ _).mp hw
  obtain ⟨hfv,hw⟩ := (Bool.and_eq_true _ _).mp hw
  obtain ⟨t,ht,hft⟩ := (Option.any_eq_true _ _).mp hw
  have hfv := of_decide_eq_true hfv
  exact ⟨w,v,t,hf,hpend,hfv,of_decide_eq_true hft,no_calls_after_ended hs hu (Machine.reaches_of_run hv)
    (congrArg List.length hfv).le (Machine.reaches_of_run ht)⟩

end UServer.Sigslot
