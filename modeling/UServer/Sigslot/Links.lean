import UServer.Sigslot.HasSlots

/-! The two ends of a connection: the runs in which a signal and an object always agree on whether they are connected,
and that from such a state, and from no other, nothing can reach a destroyed object. -/
namespace UServer.Sigslot
open Library

namespace World
variable {w t : World} {g h o g' h' : ℕ}

theorem dests_setSignal (w : World) (g : ℕ) (s : Option Signal) (g' : ℕ) :
    (w.setSignal g s).dests g' = if g' = g then s.elim [] Signal.dests else w.dests g' := by
  by_cases hg : g' = g
  · subst hg
    simp [dests, setSignal]
  · simp [dests, setSignal, hg]

theorem sendersOf_setSenders (w : World) (h : ℕ) (l : Option (List ℕ)) (h' : ℕ) :
    (w.setSenders h l).sendersOf h' = if h' = h then l.getD [] else w.sendersOf h' := by
  by_cases hh : h' = h
  · subst hh
    simp [sendersOf, setSenders]
  · simp [sendersOf, setSenders, hh]

theorem isSome_setSenders {l l' : List ℕ} (hl : w.senders h = some l) (h' : ℕ) :
    ((w.setSenders h (some l')).senders h').isSome = (w.senders h').isSome := by
  by_cases hh : h' = h
  · simp [setSenders, hh, hl]
  · simp [setSenders, hh]

theorem isSome_setSignal {s s' : Signal} (hs : w.signals g = some s) (g' : ℕ) :
    ((w.setSignal g (some s')).signals g').isSome = (w.signals g').isSome := by
  by_cases hg : g' = g
  · simp [setSignal, hg, hs]
  · simp [setSignal, hg]

@[simp] theorem dests_setSenders (w : World) (h : ℕ) (l : Option (List ℕ)) (g : ℕ) :
    (w.setSenders h l).dests g = w.dests g := rfl

@[simp] theorem sendersOf_setSignal (w : World) (g : ℕ) (s : Option Signal) (h : ℕ) :
    (w.setSignal g s).sendersOf h = w.sendersOf h := rfl

theorem dests_of_signals {s : Signal} (hs : w.signals g = some s) : w.dests g = s.dests := by
  rw [dests, hs, Option.elim_some]

theorem sendersOf_of_senders {l : List ℕ} (hl : w.senders h = some l) : w.sendersOf h = l := by
  rw [sendersOf, hl, Option.getD_some]

/-- Both ends agree. -/
def Mutual (w : World) : Prop := ∀ g h, h ∈ w.dests g ↔ g ∈ w.sendersOf h

/-- An object's senders are connected to it. -/
def Sound (w : World) : Prop := ∀ g h, g ∈ w.sendersOf h → h ∈ w.dests g

/-- A disconnect finds at most one connection to its object. -/
def Single (w : World) : Action → Prop
  | .disconnect g h => (w.dests g).count h ≤ 1
  | _ => True

instance (w : World) (a : Action) : Decidable (w.Single a) := by
  unfold Single
  split <;> infer_instance

/-- No signal is destroyed while it fires. -/
def SparesFiring (w : World) (a : Action) : Prop := ∀ g ∈ w.firing, a ≠ .destroySignal g

instance (w : World) (a : Action) : Decidable (w.SparesFiring a) :=
  inferInstanceAs (Decidable (∀ g ∈ w.firing, _))

theorem isSome_of_mem_dests (hd : h ∈ w.dests g) : (w.signals g).isSome = true := by
  rw [dests] at hd
  cases he : w.signals g with
  | none => simp [he] at hd
  | some s => rfl

theorem isSome_of_mem_sendersOf (hg : g ∈ w.sendersOf h) : (w.senders h).isSome = true := by
  rw [sendersOf] at hg
  cases he : w.senders h with
  | none => simp [he] at hg
  | some l => rfl

/-- What a call at the object's end does: the senders there change by the given relation, and nothing else does
unless the object is not there. -/
structure AtSlots (w t : World) (h : ℕ) (R : ℕ → ℕ → Prop) : Prop where
  signals : t.signals = w.signals
  alive : ∀ h', (t.senders h').isSome = (w.senders h').isSome
  fault : (w.senders h).isSome = true → t.fault = w.fault
  mem : ∀ g' h', g' ∈ t.sendersOf h' ↔ R g' h'

/-- What a call at the signal's end does. -/
structure AtSignal (w t : World) (g : ℕ) (R : ℕ → ℕ → Prop) : Prop where
  senders : t.senders = w.senders
  alive : ∀ g', (t.signals g').isSome = (w.signals g').isSome
  fault : (w.signals g).isSome = true → t.fault = w.fault
  mem : ∀ g' h', h' ∈ t.dests g' ↔ R g' h'

theorem signalConnect_spec (w : World) (h g : ℕ) : w.AtSlots (w.signalConnect h g) h fun g' h' =>
    g' ∈ w.sendersOf h' ∨ g' = g ∧ h' = h ∧ (w.senders h).isSome = true := by
  cases hl : w.senders h with
  | none =>
    rw [signalConnect, hl]
    exact ⟨rfl,fun _ => rfl,fun h => absurd h (by simp [hl]),fun _ _ => by simp [sendersOf]⟩
  | some l =>
    rw [signalConnect, hl]
    refine ⟨rfl,isSome_setSenders hl,fun _ => rfl,?_⟩
    intro g' h'
    rw [sendersOf_setSenders]
    by_cases hh : h' = h
    · subst hh
      rw [if_pos rfl, Option.getD_some, sendersOf_of_senders hl]
      split
      · rename_i hg
        exact ⟨.inl,fun hc => hc.elim id fun he => he.1 ▸ hg⟩
      · simp [List.mem_orderedInsert, or_comm]
    · simp [hh]

theorem signalDisconnect_spec (w : World) (h g : ℕ) : w.AtSlots (w.signalDisconnect h g) h fun g' h' =>
    g' ∈ w.sendersOf h' ∧ ¬ (g' = g ∧ h' = h) := by
  cases hl : w.senders h with
  | none =>
    rw [signalDisconnect, hl]
    refine ⟨rfl,fun _ => rfl,fun h => absurd h (by simp [hl]),?_⟩
    intro g' h'
    refine ⟨fun hm => ⟨hm,?_⟩,And.left⟩
    rintro ⟨-,rfl⟩
    exact absurd (isSome_of_mem_sendersOf hm) (by simp [hl])
  | some l =>
    rw [signalDisconnect, hl]
    refine ⟨rfl,isSome_setSenders hl,fun _ => rfl,?_⟩
    intro g' h'
    rw [sendersOf_setSenders]
    by_cases hh : h' = h
    · simp [hh, sendersOf_of_senders hl]
    · simp [hh]

theorem slotDisconnect_spec (w : World) (g h : ℕ) : w.AtSignal (w.slotDisconnect g h) g fun g' h' =>
    h' ∈ w.dests g' ∧ ¬ (g' = g ∧ h' = h) := by
  cases hs : w.signals g with
  | none =>
    rw [slotDisconnect, hs]
    refine ⟨rfl,fun _ => rfl,fun h => absurd h (by simp [hs]),?_⟩
    intro g' h'
    refine ⟨fun hm => ⟨hm,?_⟩,And.left⟩
    rintro ⟨rfl,-⟩
    exact absurd (isSome_of_mem_dests hm) (by simp [hs])
  | some s =>
    rw [slotDisconnect, hs]
    refine ⟨rfl,isSome_setSignal hs,fun _ => rfl,?_⟩
    intro g' h'
    rw [dests_setSignal]
    by_cases hg : g' = g
    · simp [hg, dests_of_signals hs, Signal.mem_dests_slotDisconnect]
    · simp [hg]

theorem slotDuplicate_spec (w : World) (g o h : ℕ) : w.AtSignal (w.slotDuplicate g o h) g fun g' h' =>
    h' ∈ w.dests g' ∨ g' = g ∧ h' = h ∧ o ∈ w.dests g := by
  cases hs : w.signals g with
  | none =>
    rw [slotDuplicate, hs]
    refine ⟨rfl,fun _ => rfl,fun h => absurd h (by simp [hs]),?_⟩
    intro g' h'
    refine ⟨.inl,fun hc => hc.elim id ?_⟩
    rintro ⟨-,-,hm⟩
    exact absurd (isSome_of_mem_dests hm) (by simp [hs])
  | some s =>
    rw [slotDuplicate, hs]
    refine ⟨rfl,isSome_setSignal hs,fun _ => rfl,?_⟩
    intro g' h'
    rw [dests_setSignal]
    by_cases hg : g' = g
    · simp [hg, dests_of_signals hs, Signal.mem_dests_slotDuplicate]
    · simp [hg]

/-! The loops over the far ends. -/

theorem connectEach_spec (ds : List ℕ) (w : World) (g : ℕ) :
    (ds.foldl (fun w h => w.signalConnect h g) w).signals = w.signals ∧
      ((∀ h ∈ ds, (w.senders h).isSome = true) → (ds.foldl (fun w h => w.signalConnect h g) w).fault = w.fault) ∧
        ∀ g' h', g' ∈ (ds.foldl (fun w h => w.signalConnect h g) w).sendersOf h' ↔
          g' ∈ w.sendersOf h' ∨ g' = g ∧ h' ∈ ds ∧ (w.senders h').isSome = true := by
  induction ds generalizing w with
  | nil => simp
  | cons d ds ih =>
    have hd := w.signalConnect_spec d g
    obtain ⟨hsig,hfault,hmem⟩ := ih (w.signalConnect d g)
    simp only [hd.alive] at hfault hmem
    refine ⟨hsig.trans hd.signals,?_,?_⟩
    · intro ha
      rw [List.forall_mem_cons] at ha
      exact (hfault ha.2).trans (hd.fault ha.1)
    · intro g' h'
      rw [List.foldl_cons, hmem, hd.mem, List.mem_cons]
      grind

theorem disconnectEach_spec (ds : List ℕ) (w : World) (g : ℕ) :
    (ds.foldl (fun w h => w.signalDisconnect h g) w).signals = w.signals ∧
      ((∀ h ∈ ds, (w.senders h).isSome = true) → (ds.foldl (fun w h => w.signalDisconnect h g) w).fault = w.fault) ∧
        ∀ g' h', g' ∈ (ds.foldl (fun w h => w.signalDisconnect h g) w).sendersOf h' ↔
          g' ∈ w.sendersOf h' ∧ ¬ (g' = g ∧ h' ∈ ds) := by
  induction ds generalizing w with
  | nil => simp
  | cons d ds ih =>
    have hd := w.signalDisconnect_spec d g
    obtain ⟨hsig,hfault,hmem⟩ := ih (w.signalDisconnect d g)
    simp only [hd.alive] at hfault
    refine ⟨hsig.trans hd.signals,?_,?_⟩
    · intro ha
      rw [List.forall_mem_cons] at ha
      exact (hfault ha.2).trans (hd.fault ha.1)
    · intro g' h'
      rw [List.foldl_cons, hmem, hd.mem, List.mem_cons]
      grind

theorem slotDisconnectEach_spec (gs : List ℕ) (w : World) (h : ℕ) :
    (gs.foldl (fun w g => w.slotDisconnect g h) w).senders = w.senders ∧
      ((∀ g ∈ gs, (w.signals g).isSome = true) → (gs.foldl (fun w g => w.slotDisconnect g h) w).fault = w.fault) ∧
        ∀ g' h', h' ∈ (gs.foldl (fun w g => w.slotDisconnect g h) w).dests g' ↔
          h' ∈ w.dests g' ∧ ¬ (g' ∈ gs ∧ h' = h) := by
  induction gs generalizing w with
  | nil => simp
  | cons d gs ih =>
    have hd := w.slotDisconnect_spec d h
    obtain ⟨hsend,hfault,hmem⟩ := ih (w.slotDisconnect d h)
    simp only [hd.alive] at hfault
    refine ⟨hsend.trans hd.senders,?_,?_⟩
    · intro ha
      rw [List.forall_mem_cons] at ha
      exact (hfault ha.2).trans (hd.fault ha.1)
    · intro g' h'
      rw [List.foldl_cons, hmem, hd.mem, List.mem_cons]
      grind

theorem duplicateEach_spec (gs : List ℕ) (w : World) (ho : h ≠ o) (ha : (w.senders h).isSome = true) :
    ((∀ g ∈ gs, (w.signals g).isSome = true) →
      (gs.foldl (fun w g => (w.slotDuplicate g o h).signalConnect h g) w).fault = w.fault) ∧
      (∀ g' h', h' ∈ (gs.foldl (fun w g => (w.slotDuplicate g o h).signalConnect h g) w).dests g' ↔
        h' ∈ w.dests g' ∨ g' ∈ gs ∧ h' = h ∧ o ∈ w.dests g') ∧
        ∀ g' h', g' ∈ (gs.foldl (fun w g => (w.slotDuplicate g o h).signalConnect h g) w).sendersOf h' ↔
          g' ∈ w.sendersOf h' ∨ g' ∈ gs ∧ h' = h := by
  induction gs generalizing w with
  | nil => simp
  | cons d gs ih =>
    have hd := w.slotDuplicate_spec d o h
    have hc := (w.slotDuplicate d o h).signalConnect_spec h d
    have ha' : ((w.slotDuplicate d o h).senders h).isSome = true := by rwa [hd.senders]
    have hdests (g' : ℕ) : ((w.slotDuplicate d o h).signalConnect h d).dests g' = (w.slotDuplicate d o h).dests g' := by
      rw [dests, dests, hc.signals]
    have hsenders (h' : ℕ) : (w.slotDuplicate d o h).sendersOf h' = w.sendersOf h' := by
      rw [sendersOf, sendersOf, hd.senders]
    obtain ⟨hfault,hmem,hmem'⟩ := ih ((w.slotDuplicate d o h).signalConnect h d) (by rwa [hc.alive])
    refine ⟨?_,?_,?_⟩
    · intro hs
      rw [List.forall_mem_cons] at hs
      rw [List.foldl_cons, hfault, hc.fault ha', hd.fault hs.1]
      intro g hg
      rw [hc.signals, hd.alive]
      exact hs.2 g hg
    · intro g' h'
      rw [List.foldl_cons, hmem, hdests, hd.mem, hd.mem, List.mem_cons]
      grind
    · intro g' h'
      rw [List.foldl_cons, hmem', hc.mem, hsenders, List.mem_cons]
      grind

/-- What an operation does to both ends, and when it finds every object that it goes to. -/
structure Links (w t : World) (D S : ℕ → ℕ → Prop) (found : Prop) : Prop where
  dests : ∀ g h, h ∈ t.dests g ↔ D g h
  senders : ∀ g h, g ∈ t.sendersOf h ↔ S g h
  fault : found → t.fault = w.fault

theorem newSignal_links (he : w.newSignal g = some t) :
    w.Links t (fun g' h' => h' ∈ w.dests g') (fun g' h' => g' ∈ w.sendersOf h') True := by
  rw [newSignal, Option.ite_none_right_eq_some, Option.isNone_iff_eq_none] at he
  obtain ⟨hn,he⟩ := he
  cases he
  refine ⟨fun g' h' => ?_,fun _ _ => Iff.rfl,fun _ => rfl⟩
  rw [dests_setSignal]
  by_cases hg : g' = g
  · simp [hg, dests, hn]
  · simp [hg]

theorem copySignal_links (he : w.copySignal g o = some t) :
    w.Links t (fun g' h' => if g' = g then h' ∈ w.dests o else h' ∈ w.dests g')
      (fun g' h' => g' ∈ w.sendersOf h' ∨ g' = g ∧ h' ∈ w.dests o ∧ (w.senders h').isSome = true)
      (∀ h ∈ w.dests o, (w.senders h).isSome = true) := by
  obtain ⟨s,hs,he⟩ := Option.bind_eq_some_iff.mp he
  rw [Option.ite_none_right_eq_some] at he
  obtain ⟨-,he⟩ := he
  cases he
  obtain ⟨hsig,hfault,hmem⟩ := connectEach_spec s.dests w g
  rw [dests_of_signals hs]
  refine ⟨fun g' h' => ?_,fun g' h' => hmem g' h',hfault⟩
  rw [dests_setSignal, dests, hsig]
  split
  · rw [Option.elim_some, Signal.dests_copy]
  · rfl

theorem copySignal_fresh (he : w.copySignal g o = some t) : w.dests g = [] := by
  obtain ⟨s,-,he⟩ := Option.bind_eq_some_iff.mp he
  rw [Option.ite_none_right_eq_some, Option.isNone_iff_eq_none] at he
  rw [dests, he.1, Option.elim_none]

theorem signalDisconnectAll_links (he : w.signalDisconnectAll g = some t) :
    w.Links t (fun g' h' => g' ≠ g ∧ h' ∈ w.dests g')
      (fun g' h' => g' ∈ w.sendersOf h' ∧ ¬ (g' = g ∧ h' ∈ w.dests g))
      (∀ h ∈ w.dests g, (w.senders h).isSome = true) := by
  obtain ⟨s,hs,rfl⟩ := Option.map_eq_some_iff.mp he
  obtain ⟨hsig,hfault,hmem⟩ := disconnectEach_spec s.dests w g
  rw [dests_of_signals hs]
  refine ⟨fun g' h' => ?_,fun g' h' => hmem g' h',hfault⟩
  rw [dests_setSignal, dests, hsig]
  by_cases hg : g' = g
  · simp [hg]
  · simp [hg, dests]

theorem destroySignal_links (he : w.destroySignal g = some t) :
    w.Links t (fun g' h' => g' ≠ g ∧ h' ∈ w.dests g')
      (fun g' h' => g' ∈ w.sendersOf h' ∧ ¬ (g' = g ∧ h' ∈ w.dests g))
      ((∀ h ∈ w.dests g, (w.senders h).isSome = true) ∧ g ∉ w.firing) := by
  obtain ⟨u,hu,rfl⟩ := Option.map_eq_some_iff.mp he
  have hl := signalDisconnectAll_links hu
  refine ⟨fun g' h' => ?_,hl.senders,fun hfound => ?_⟩
  · change h' ∈ (u.setSignal g none).dests g' ↔ _
    rw [dests_setSignal]
    by_cases hg : g' = g
    · simp [hg]
    · simp [hg, hl.dests]
  · simp [hl.fault hfound.1, hfound.2]

/-- The destructor of a signal that fires. -/
theorem fault_destroySignal (he : w.destroySignal g = some t) (hg : g ∈ w.firing) : t.fault = true := by
  obtain ⟨u,-,rfl⟩ := Option.map_eq_some_iff.mp he
  simp [hg]

theorem connect_links {method : ℕ} (he : w.connect g h method = some t) :
    w.Links t (fun g' h' => h' ∈ w.dests g' ∨ g' = g ∧ h' = h)
      (fun g' h' => g' ∈ w.sendersOf h' ∨ g' = g ∧ h' = h) True := by
  obtain ⟨s,hs,he⟩ := Option.bind_eq_some_iff.mp he
  rw [Option.ite_none_right_eq_some] at he
  obtain ⟨ha,he⟩ := he
  cases he
  have hc := (w.setSignal g (some (s.pushBack h method))).signalConnect_spec h g
  refine ⟨fun g' h' => ?_,fun g' h' => ?_,fun _ => hc.fault ha⟩
  · rw [dests, hc.signals, ← dests, dests_setSignal]
    by_cases hg : g' = g
    · simp [hg, dests_of_signals hs]
    · simp [hg]
  · rw [hc.mem, sendersOf_setSignal]
    exact or_congr_right (and_congr_right fun _ => and_iff_left ha)

theorem disconnect_links (he : w.disconnect g h = some t) :
    w.Links t (fun g' h' => if g' = g ∧ h' = h then h ∈ (w.dests g).erase h else h' ∈ w.dests g')
      (fun g' h' => g' ∈ w.sendersOf h' ∧ ¬ (g' = g ∧ h' = h ∧ h ∈ w.dests g)) True := by
  obtain ⟨s,hs,he⟩ := Option.bind_eq_some_iff.mp he
  rw [Option.ite_none_right_eq_some] at he
  obtain ⟨ha,he⟩ := he
  cases he
  rw [dests_of_signals hs]
  cases hd : s.disconnect h with
  | none =>
    rw [Signal.disconnect_eq_none_iff] at hd
    change w.Links w _ _ _
    refine ⟨fun g' h' => ?_,fun g' h' => ?_,fun _ => rfl⟩
    · split
      · rename_i hg
        rw [hg.1, hg.2, dests_of_signals hs]
        exact iff_of_false hd fun hm => hd (List.mem_of_mem_erase hm)
      · rfl
    · simp [hd]
  | some u =>
    have hm : h ∈ s.dests := by
      by_contra hn
      rw [← Signal.disconnect_eq_none_iff, hd] at hn
      cases hn
    have hc := (w.setSignal g (some u)).signalDisconnect_spec h g
    refine ⟨fun g' h' => ?_,fun g' h' => ?_,fun _ => hc.fault ha⟩
    · rw [dests, hc.signals, ← dests, dests_setSignal]
      by_cases hg : g' = g
      · subst hg
        rw [if_pos rfl, Option.elim_some, Signal.dests_disconnect hd, dests_of_signals hs]
        by_cases hh : h' = h
        · simp [hh]
        · simp [hh, List.mem_erase_of_ne hh]
      · simp [hg]
    · rw [hc.mem, sendersOf_setSignal]
      simp [hm]

/-- A disconnect that finds more than one connection to its object leaves the others, and the object without the signal. -/
theorem disconnect_leaves (he : w.disconnect g h = some t) (hcount : 1 < (w.dests g).count h) :
    t.dests g = (w.dests g).erase h ∧ h ∈ t.dests g ∧ g ∉ t.sendersOf h := by
  have hl := disconnect_links he
  have hm : h ∈ w.dests g := List.count_pos_iff.mp (Nat.zero_lt_of_lt hcount)
  refine ⟨?_,?_,?_⟩
  · obtain ⟨s,hsig,he⟩ := Option.bind_eq_some_iff.mp he
    rw [Option.ite_none_right_eq_some] at he
    obtain ⟨-,he⟩ := he
    cases he
    rw [dests_of_signals hsig] at hm ⊢
    cases hd : s.disconnect h with
    | none => exact absurd hm ((s.disconnect_eq_none_iff h).mp hd)
    | some u =>
      dsimp only
      rw [dests, (signalDisconnect_spec _ h g).signals, ← dests, dests_setSignal, if_pos rfl, Option.elim_some,
        Signal.dests_disconnect hd]
  · rw [hl.dests, if_pos ⟨rfl,rfl⟩, ← List.count_pos_iff, List.count_erase_self]
    omega
  · rw [hl.senders]
    exact fun hg => hg.2 ⟨rfl,rfl,hm⟩

theorem newSlots_links (he : w.newSlots h = some t) :
    w.Links t (fun g' h' => h' ∈ w.dests g') (fun g' h' => g' ∈ w.sendersOf h') True := by
  rw [newSlots, Option.ite_none_right_eq_some, Option.isNone_iff_eq_none] at he
  obtain ⟨hn,he⟩ := he
  cases he
  refine ⟨fun _ _ => Iff.rfl,fun g' h' => ?_,fun _ => rfl⟩
  rw [sendersOf_setSenders]
  by_cases hh : h' = h
  · simp [hh, sendersOf, hn]
  · simp [hh]

theorem copySlots_links (he : w.copySlots h o = some t) :
    w.Links t (fun g' h' => h' ∈ w.dests g' ∨ g' ∈ w.sendersOf o ∧ h' = h ∧ o ∈ w.dests g')
      (fun g' h' => g' ∈ w.sendersOf h' ∨ g' ∈ w.sendersOf o ∧ h' = h)
      (∀ g ∈ w.sendersOf o, (w.signals g).isSome = true) := by
  obtain ⟨l,hl,he⟩ := Option.bind_eq_some_iff.mp he
  rw [Option.ite_none_right_eq_some, Option.isNone_iff_eq_none] at he
  obtain ⟨hn,he⟩ := he
  cases he
  have ho : h ≠ o := by
    rintro rfl
    exact absurd hl (by simp [hn])
  obtain ⟨hfault,hmem,hmem'⟩ := duplicateEach_spec (h := h) (o := o) l (w.setSenders h (some [])) ho (by simp [setSenders])
  rw [sendersOf_of_senders hl]
  refine ⟨hmem,fun g' h' => ?_,hfault⟩
  rw [hmem', sendersOf_setSenders]
  by_cases hh : h' = h
  · simp [hh, sendersOf, hn]
  · simp [hh]

theorem slotsDisconnectAll_links (he : w.slotsDisconnectAll h = some t) :
    w.Links t (fun g' h' => h' ∈ w.dests g' ∧ ¬ (g' ∈ w.sendersOf h ∧ h' = h))
      (fun g' h' => h' ≠ h ∧ g' ∈ w.sendersOf h') (∀ g ∈ w.sendersOf h, (w.signals g).isSome = true) := by
  obtain ⟨l,hl,rfl⟩ := Option.map_eq_some_iff.mp he
  obtain ⟨hsend,hfault,hmem⟩ := slotDisconnectEach_spec l (w.setSenders h (some [])) h
  rw [sendersOf_of_senders hl]
  refine ⟨hmem,fun g' h' => ?_,hfault⟩
  rw [sendersOf, hsend, ← sendersOf, sendersOf_setSenders]
  by_cases hh : h' = h
  · simp [hh]
  · simp [hh]

theorem destroySlots_links (he : w.destroySlots h = some t) :
    w.Links t (fun g' h' => h' ∈ w.dests g' ∧ ¬ (g' ∈ w.sendersOf h ∧ h' = h))
      (fun g' h' => h' ≠ h ∧ g' ∈ w.sendersOf h') (∀ g ∈ w.sendersOf h, (w.signals g).isSome = true) := by
  obtain ⟨u,hu,rfl⟩ := Option.map_eq_some_iff.mp he
  have hl := slotsDisconnectAll_links hu
  refine ⟨hl.dests,fun g' h' => ?_,hl.fault⟩
  rw [sendersOf_setSenders]
  by_cases hh : h' = h
  · simp [hh]
  · simp [hh, hl.senders]

theorem emit_links (he : w.emit g = some t) :
    w.Links t (fun g' h' => h' ∈ w.dests g') (fun g' h' => g' ∈ w.sendersOf h') True := by
  obtain ⟨s,hs,rfl⟩ := Option.map_eq_some_iff.mp he
  refine ⟨fun g' h' => ?_,fun _ _ => Iff.rfl,fun _ => rfl⟩
  change h' ∈ (w.setSignal g (some s.begin)).dests g' ↔ h' ∈ w.dests g'
  rw [dests_setSignal]
  by_cases hg : g' = g
  · simp [hg, dests_of_signals hs]
  · simp [hg]

theorem next_links (he : w.next = some t) :
    w.Links t (fun g' h' => h' ∈ w.dests g') (fun g' h' => g' ∈ w.sendersOf h')
      (∀ g h, h ∈ w.dests g → (w.senders h).isSome = true) := by
  unfold next at he
  split at he
  · cases he
  · rename_i g rest hf
    obtain ⟨s,hs,rfl⟩ := Option.map_eq_some_iff.mp he
    split
    · exact ⟨fun _ _ => Iff.rfl,fun _ _ => Iff.rfl,fun _ => rfl⟩
    · rename_i c u hu
      obtain ⟨hp,rfl⟩ := Signal.advance_some hu
      refine ⟨fun g' h' => ?_,fun _ _ => Iff.rfl,fun hfound => ?_⟩
      · change h' ∈ (w.setSignal g (some (s.moveOn c))).dests g' ↔ h' ∈ w.dests g'
        rw [dests_setSignal]
        by_cases hg : g' = g
        · simp [hg, dests_of_signals hs]
        · simp [hg]
      · have hc : c ∈ s.slots := s.pending_suffix.mem (hp ▸ List.mem_cons_self)
        have ha := hfound g c.dest (dests_of_signals hs ▸ List.mem_map_of_mem hc)
        simp [call, Option.isNone_eq_false_iff.mpr ha]

/-- Whatever is done, an object's senders are connected to it. -/
theorem Sound.step {a : Action} (hs : w.Sound) (he : w.exec a = some t) : t.Sound := by
  intro g' h'
  have hgh := hs g' h'
  cases a with
  | newSignal g =>
    have hl := newSignal_links he
    rwa [hl.senders, hl.dests]
  | copySignal g o =>
    have hl := copySignal_links he
    have hn := copySignal_fresh he
    rw [hl.senders, hl.dests]
    rintro (hm | ⟨rfl,hm,-⟩)
    · split
      · rename_i hg
        have hd := hgh hm
        rw [hg, hn] at hd
        exact absurd hd List.not_mem_nil
      · exact hgh hm
    · rwa [if_pos rfl]
  | destroySignal g =>
    have hl := destroySignal_links he
    rw [hl.senders, hl.dests]
    grind
  | newSlots h =>
    have hl := newSlots_links he
    rwa [hl.senders, hl.dests]
  | copySlots h o =>
    have hl := copySlots_links he
    have hgo := hs g' o
    rw [hl.senders, hl.dests]
    grind
  | destroySlots h =>
    have hl := destroySlots_links he
    rw [hl.senders, hl.dests]
    exact fun hm => ⟨hgh hm.2,fun hc => hm.1 hc.2⟩
  | connect g h method =>
    have hl := connect_links he
    rw [hl.senders, hl.dests]
    exact Or.imp_left hgh
  | disconnect g h =>
    have hl := disconnect_links he
    rw [hl.senders, hl.dests]
    grind
  | signalDisconnectAll g =>
    have hl := signalDisconnectAll_links he
    rw [hl.senders, hl.dests]
    grind
  | slotsDisconnectAll h =>
    have hl := slotsDisconnectAll_links he
    rw [hl.senders, hl.dests]
    exact fun hm => ⟨hgh hm.2,fun hc => hm.1 hc.2⟩
  | emit g =>
    have hl := emit_links he
    rwa [hl.senders, hl.dests]
  | next =>
    have hl := next_links he
    rwa [hl.senders, hl.dests]

theorem Mutual.sound (hm : w.Mutual) : w.Sound := fun g h => (hm g h).mpr

theorem Mutual.slots_found (hm : w.Mutual) (g h : ℕ) (hd : h ∈ w.dests g) : (w.senders h).isSome = true :=
  isSome_of_mem_sendersOf ((hm g h).mp hd)

theorem Sound.signals_found (hs : w.Sound) (h g : ℕ) (hg : g ∈ w.sendersOf h) : (w.signals g).isSome = true :=
  isSome_of_mem_dests (hs g h hg)

/-- From a state in which both ends agree an action that destroys no signal which fires finds every object it goes to,
and it leaves such a state exactly if it is not a disconnect that leaves a connection behind. -/
theorem Mutual.step {a : Action} (hm : w.Mutual) (he : w.exec a = some t) :
    (w.SparesFiring a → t.fault = w.fault) ∧ (t.Mutual ↔ w.Single a) := by
  cases a with
  | newSignal g =>
    have hl := newSignal_links he
    exact ⟨fun _ => hl.fault trivial,iff_of_true (fun g' h' => by rw [hl.senders, hl.dests, hm]) trivial⟩
  | copySignal g o =>
    have hl := copySignal_links he
    have hn := copySignal_fresh he
    refine ⟨fun _ => hl.fault (hm.slots_found o),iff_of_true (fun g' h' => ?_) trivial⟩
    have hgo := hm o h'
    have hgh := hm g' h'
    have hfound := hm.slots_found o h'
    rw [hl.senders, hl.dests]
    by_cases hg : g' = g
    · subst hg
      rw [hn] at hgh
      grind
    · grind
  | destroySignal g =>
    have hl := destroySignal_links he
    refine ⟨fun hs => hl.fault ⟨hm.slots_found g,fun hg => hs g hg rfl⟩,iff_of_true (fun g' h' => ?_) trivial⟩
    have hgh := hm g' h'
    rw [hl.senders, hl.dests]
    grind
  | newSlots h =>
    have hl := newSlots_links he
    exact ⟨fun _ => hl.fault trivial,iff_of_true (fun g' h' => by rw [hl.senders, hl.dests, hm]) trivial⟩
  | copySlots h o =>
    have hl := copySlots_links he
    refine ⟨fun _ => hl.fault (hm.sound.signals_found o),iff_of_true (fun g' h' => ?_) trivial⟩
    have hgo := hm g' o
    have hgh := hm g' h'
    rw [hl.senders, hl.dests]
    grind
  | destroySlots h =>
    have hl := destroySlots_links he
    refine ⟨fun _ => hl.fault (hm.sound.signals_found h),iff_of_true (fun g' h' => ?_) trivial⟩
    have hgh := hm g' h'
    rw [hl.senders, hl.dests]
    grind
  | connect g h method =>
    have hl := connect_links he
    exact ⟨fun _ => hl.fault trivial,iff_of_true (fun g' h' => by rw [hl.senders, hl.dests, hm]) trivial⟩
  | disconnect g h =>
    have hl := disconnect_links he
    have hcount : h ∈ (w.dests g).erase h ↔ ¬ (w.dests g).count h ≤ 1 := by
      rw [← List.count_pos_iff, List.count_erase_self]
      omega
    refine ⟨fun _ => hl.fault trivial,?_,?_⟩
    · intro ht
      have hgh := ht g h
      rw [hl.senders, hl.dests, if_pos ⟨rfl,rfl⟩, hcount, ← hm] at hgh
      by_contra hn
      exact absurd (hgh.mp hn) (by grind)
    · intro hsingle g' h'
      have hgh := hm g' h'
      rw [hl.senders, hl.dests]
      split
      · rename_i hg
        rw [hcount, hg.1, hg.2, ← hm]
        exact iff_of_false (fun hn => hn hsingle) (by grind)
      · grind
  | signalDisconnectAll g =>
    have hl := signalDisconnectAll_links he
    refine ⟨fun _ => hl.fault (hm.slots_found g),iff_of_true (fun g' h' => ?_) trivial⟩
    have hgh := hm g' h'
    rw [hl.senders, hl.dests]
    grind
  | slotsDisconnectAll h =>
    have hl := slotsDisconnectAll_links he
    refine ⟨fun _ => hl.fault (hm.sound.signals_found h),iff_of_true (fun g' h' => ?_) trivial⟩
    have hgh := hm g' h'
    rw [hl.senders, hl.dests]
    grind
  | emit g =>
    have hl := emit_links he
    exact ⟨fun _ => hl.fault trivial,iff_of_true (fun g' h' => by rw [hl.senders, hl.dests, hm]) trivial⟩
  | next =>
    have hl := next_links he
    exact ⟨fun _ => hl.fault hm.slots_found,iff_of_true (fun g' h' => by rw [hl.senders, hl.dests, hm]) trivial⟩

theorem start_mutual : start.Mutual := fun _ _ => iff_of_false List.not_mem_nil List.not_mem_nil

end World

variable {policy : Object → Policy}

theorem reachable_sound {ok : World → Action → Prop} {w : World} (hw : (machine policy).Reachable ok w) : w.Sound := by
  refine hw.rule ?_ fun w a t hs _ he => hs.step (machine_step policy he).2
  rintro w rfl
  exact World.start_mutual.sound

/-- Both ends of every connection agree all through a run exactly if each disconnect of the run finds at most one
connection to its object: one that finds more removes one of them, and takes the signal out of the object's set. -/
theorem mutual_throughout_iff {as : List Action} {t : World}
    (h : (machine policy).run Machine.Free .start as = some t) :
    ((∀ w ∈ (machine policy).passed .start as, w.Mutual) ↔
      (machine policy).run World.Single .start as = some t) ∧
        ∀ w ∈ (machine policy).passed .start as, ∀ g h u, 1 < (w.dests g).count h →
          (machine policy).step w (.disconnect g h) = some u →
            u.dests g = (w.dests g).erase h ∧ h ∈ u.dests g ∧ g ∉ u.sendersOf h := by
  have hstep (w : World) (a : Action) (u : World) (hw : w.Mutual) (he : (machine policy).step w a = some u) :
      u.Mutual ↔ w.Single a := (hw.step (machine_step policy he).2).2
  refine ⟨(Machine.run_iff_forall_passed hstep World.start_mutual h).symm,?_⟩
  exact fun w _ g h u hcount he => World.disconnect_leaves (machine_step policy he).2 hcount

/-- One signal, one object, connected to it twice and disconnected once. -/
def connectedTwice : List Action := [.newSignal 0,.newSlots 0,.connect 0 0 1,.connect 0 0 2,.disconnect 0 0]

theorem connectedTwice_not_mutual :
    ¬ ∀ w ∈ (machine fun _ => .singleThreaded).passed .start connectedTwice, w.Mutual := by
  have hs : ((machine fun _ => .singleThreaded).run Machine.Free .start connectedTwice).isSome = true := by
    decide +kernel
  have hn : ((machine fun _ => .singleThreaded).run World.Single .start connectedTwice).isNone = true := by
    decide +kernel
  obtain ⟨t,ht⟩ := Option.isSome_iff_exists.mp hs
  intro hm
  rw [(mutual_throughout_iff ht).1.mp hm] at hn
  cases hn

end UServer.Sigslot
