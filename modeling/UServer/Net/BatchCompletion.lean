import UServer.Net.DispatchKeys

/-! Batches to their end: which of the reported events the loop has come to when it waits again. -/
namespace UServer.Net
open Library

/-- The keys of the last report in a record and what was recorded since. -/
def lastBatch : List Event → Option (List Key × List Event)
  | [] => none
  | .reported keys :: _ => some (keys,[])
  | e :: older => (lastBatch older).map fun b => (b.1,e :: b.2)

/-- The keys whose events were processed, oldest first. -/
def processedKeys (evs : List Event) : List Key :=
  (evs.filterMap fun e => match e with
    | .processed k _ => some k
    | _ => none).reverse

/-- The keys of the events still ahead. -/
def Control.keysAhead (control : Control) : List Key := (control.pending.getD []).map PendingEvent.key

theorem lastBatch_append {evs : List Event} (he : ∀ ks, .reported ks ∉ evs) (trace : List Event) :
    lastBatch (evs ++ trace) = (lastBatch trace).map fun b => (b.1,evs ++ b.2) := by
  induction evs with
  | nil => simp
  | cons e evs ih =>
    have hrest := ih fun ks hm => he ks (List.mem_cons_of_mem _ hm)
    cases e with
    | reported ks => exact absurd List.mem_cons_self (he ks)
    | _ =>
      simp only [List.cons_append, lastBatch, hrest, Option.map_map]
      rfl

theorem processedKeys_append (evs recent : List Event) :
    processedKeys (evs ++ recent) = processedKeys recent ++ processedKeys evs := by
  rw [processedKeys, List.filterMap_append, List.reverse_append, processedKeys, processedKeys]

theorem processedKeys_of_none {evs : List Event} (he : ∀ k p, .processed k p ∉ evs) : processedKeys evs = [] := by
  rw [processedKeys, List.reverse_eq_nil_iff, List.filterMap_eq_nil_iff]
  intro e hm
  cases e with
  | processed k p => exact absurd hm (he k p)
  | _ => rfl

/-- A key that finds a dispatcher goes on finding one until it is removed. -/
theorem Write.key_kept {P : Policy} {busy : Option Ptr} {p : Ptr} {evs : List Event} {w w' : World}
    (h : Write P busy p evs w w') {k : Key} (hk : (w.server.dispatcherByKey k).isSome = true) :
    (w'.server.dispatcherByKey k).isSome = true ∨ ∃ q, .removed k q ∈ evs := by
  rcases h.server_cases with ⟨hs,-⟩ | ⟨-,-,hs⟩ | ⟨k',-,he,hs⟩
  · exact .inl (by rw [hs, hk])
  · refine .inl ?_
    simp only [hs, PhysicalSocketServer.replay, emplace]
    split
    · exact hk
    · rename_i hn
      have hne : k ≠ w.server.nextDispatcherKey := by
        rintro rfl
        exact hn hk
      rwa [Function.update_of_ne hne]
  · by_cases hkk : k = k'
    · exact .inr ⟨p,by rw [he, hkk]; exact List.mem_singleton_self _⟩
    · refine .inl ?_
      simp only [hs, PhysicalSocketServer.replay]
      rwa [Function.update_of_ne hkk]

theorem Writes.keys_kept {P : Policy} {busy : Option Ptr} {w w' : World} (h : Writes P busy w w') :
    ∃ evs, w'.trace = evs ++ w.trace ∧ (∀ e ∈ evs, e.ofLoop = false) ∧
      ∀ k, (w.server.dispatcherByKey k).isSome = true →
        (w'.server.dispatcherByKey k).isSome = true ∨ ∃ q, .removed k q ∈ evs := by
  induction h with
  | refl => exact ⟨[],rfl,by simp,fun _ => .inl⟩
  | tail _ hstep ih =>
    obtain ⟨evs,ht,he,hk⟩ := ih
    obtain ⟨p,evs',hstep⟩ := hstep
    refine ⟨evs' ++ evs,by rw [hstep.trace, ht, List.append_assoc],fun e hm => ?_,fun k hs => ?_⟩
    · rcases List.mem_append.mp hm with hm | hm
      · exact hstep.slot.not_ofLoop e hm
      · exact he e hm
    · rcases hk k hs with hs | ⟨q,hq⟩
      · exact (hstep.key_kept hs).imp_right fun hq => hq.imp fun q => List.mem_append_left _
      · exact .inr ⟨q,List.mem_append_right _ hq⟩

/-- How far a batch has come: the keys behind are processed, in order, or were removed, and those ahead find their
dispatchers or were removed. -/
structure BatchState (w : World) (ahead : List Key) (keys : List Key) (recent : List Event) (done : List Key) : Prop where
  nodup : keys.Nodup
  split : keys = done ++ ahead
  order : List.Sublist (processedKeys recent) done
  behind : ∀ k ∈ done, k ∈ processedKeys recent ∨ ∃ q, .removed k q ∈ recent
  found : ∀ k ∈ ahead, (w.server.dispatcherByKey k).isSome = true ∨ ∃ q, .removed k q ∈ recent

/-- The last report of the record, if there is one, has come that far. -/
def BatchKept (s : LoopState) : Prop :=
  ∀ keys recent, lastBatch s.world.trace = some (keys,recent) → ∃ done, BatchState s.world s.control.keysAhead keys recent done

namespace BatchState
variable {w w' : World} {ahead keys done : List Key} {recent : List Event}

/-- More is recorded, and the loop stays where it is. -/
theorem append (h : BatchState w ahead keys recent done) {evs : List Event} (he : ∀ k p, .processed k p ∉ evs)
    (hk : ∀ k, (w.server.dispatcherByKey k).isSome = true →
      (w'.server.dispatcherByKey k).isSome = true ∨ ∃ q, .removed k q ∈ evs) :
    BatchState w' ahead keys (evs ++ recent) done := by
  have hp : processedKeys (evs ++ recent) = processedKeys recent := by
    rw [processedKeys_append, processedKeys_of_none he, List.append_nil]
  refine ⟨h.nodup,h.split,hp ▸ h.order,fun k hm => ?_,fun k hm => ?_⟩
  · rw [hp]
    exact (h.behind k hm).imp_right fun hq => hq.imp fun q => List.mem_append_right _
  · rcases h.found k hm with hs | ⟨q,hq⟩
    · exact (hk k hs).imp_right fun hq => hq.imp fun q => List.mem_append_left _
    · exact .inr ⟨q,List.mem_append_right _ hq⟩

/-- An event whose key finds nothing is passed over. -/
theorem skip {k : Key} (h : BatchState w (k :: ahead) keys recent done) (hn : w.server.dispatcherByKey k = none) :
    BatchState w ahead keys recent (done ++ [k]) := by
  refine ⟨h.nodup,by rw [h.split, List.append_assoc, List.singleton_append],
    h.order.trans (List.sublist_append_left ..),fun k' hm => ?_,fun k' hm => h.found k' (List.mem_cons_of_mem _ hm)⟩
  rcases List.mem_append.mp hm with hm | hm
  · exact h.behind k' hm
  · rw [List.mem_singleton.mp hm]
    refine .inr ((h.found k List.mem_cons_self).resolve_left ?_)
    rw [hn]
    exact Bool.false_ne_true

/-- An event is processed. -/
theorem process {k : Key} {p : Ptr} (h : BatchState w (k :: ahead) keys recent done)
    (hs : w'.server = w.server) : BatchState w' ahead keys (.processed k p :: recent) (done ++ [k]) := by
  have hp : processedKeys (.processed k p :: recent) = processedKeys recent ++ [k] := processedKeys_append [_] recent
  refine ⟨h.nodup,by rw [h.split, List.append_assoc, List.singleton_append],
    hp ▸ h.order.append (List.Sublist.refl _),fun k' hm => ?_,fun k' hm => ?_⟩
  · rw [hp]
    rcases List.mem_append.mp hm with hm | hm
    · exact (h.behind k' hm).imp (List.mem_append_left _) fun hq => hq.imp fun q => List.mem_cons_of_mem _
    · exact .inl (List.mem_append_right _ hm)
  · rw [hs]
    exact (h.found k' (List.mem_cons_of_mem _ hm)).imp_right fun hq => hq.imp fun q => List.mem_cons_of_mem _

end BatchState

/-- A step that records no report and moves the loop on in its batch. -/
theorem BatchKept.of_append {w w' : World} {control control' : Control} {evs : List Event}
    (h : BatchKept ⟨w,control⟩) (ht : w'.trace = evs ++ w.trace) (hr : ∀ ks, .reported ks ∉ evs)
    (hmove : ∀ keys recent done, BatchState w control.keysAhead keys recent done →
      ∃ done', BatchState w' control'.keysAhead keys (evs ++ recent) done') : BatchKept ⟨w',control'⟩ := by
  intro keys recent hb
  simp only [ht, lastBatch_append hr] at hb
  obtain ⟨⟨keys',recent'⟩,hb',he⟩ := Option.map_eq_some_iff.mp hb
  obtain ⟨rfl,rfl⟩ := Prod.mk.inj he
  obtain ⟨done,hd⟩ := h keys' recent' hb'
  exact hmove keys' recent' done hd

/-- A report begins a batch with all its keys ahead. -/
theorem batchState_report {w : World} (hO : Owned w none) (hR : Registry w) {evs : List (Fd × EpollMask)}
    (hr : reportReady w.kernel evs = true) :
    BatchState w ((evs.filterMap (reportOne w.kernel)).map PendingEvent.key)
      ((evs.filterMap (reportOne w.kernel)).map PendingEvent.key) [] [] := by
  refine ⟨report_keys_nodup hO hR hr,rfl,List.Sublist.refl _,fun k hm => absurd hm List.not_mem_nil,fun k hm => .inl ?_⟩
  obtain ⟨ev,hev,rfl⟩ := List.mem_map.mp hm
  obtain ⟨e,-,he⟩ := List.mem_filterMap.mp hev
  obtain ⟨x,hx,rfl,-⟩ := reportOne_eq_some he
  obtain ⟨p,d,hc,-⟩ := hO.registered_of_interest hx
  exact Option.isSome_iff_exists.mpr ⟨p,(hR.inverse _ _).mpr (World.slotAt_eq_some_iff.mp hc).2.1⟩

theorem LoopTurn.batchKept {P : Policy} {s s' : LoopState} {a : Action} (h : LoopTurn P s a s') (hs : Sound s)
    (hR : Registry s.world) (hi : BatchKept s) : BatchKept s' := by
  have hsame {w w' : World} (hserver : w'.server = w.server) (evs : List Event) (k : Key)
      (hk : (w.server.dispatcherByKey k).isSome = true) :
      (w'.server.dispatcherByKey k).isSome = true ∨ ∃ q, .removed k q ∈ evs := .inl (by rw [hserver, hk])
  cases h with
  | op hcan hr ha hw =>
    obtain ⟨evs,ht,he,hk⟩ := hw.keys_kept
    refine hi.of_append ht (fun ks hm => nomatch he _ hm) fun keys recent done hd => ⟨done,?_⟩
    exact hd.append (fun k p hm => nomatch he _ hm) hk
  | report hr =>
    intro keys recent hb
    simp only [World.log, lastBatch, Option.some.injEq, Prod.mk.injEq] at hb
    obtain ⟨rfl,rfl⟩ := hb
    obtain ⟨hn,hsplit,ho,hb,hf⟩ := batchState_report hs.owned hR hr
    exact ⟨[],hn,hsplit,ho,hb,hf⟩
  | skip hn => exact hi.of_append (List.nil_append _).symm (by simp) fun keys recent done hd => ⟨_,hd.skip hn⟩
  | pass e hp =>
    exact hi.of_append (List.singleton_append ..).symm (by simp) fun keys recent done hd => ⟨_,hd.process rfl⟩
  | start hp hff ht =>
    rename_i w w' ev rest p d x so peek ff err
    refine hi.of_append ht.trace (by simp) fun keys recent done hd => ⟨done ++ [ev.key],?_⟩
    have hproc : BatchState w' (Control.batch rest).keysAhead keys (.processed ev.key p :: recent) (done ++ [ev.key]) :=
      hd.process ht.server
    have hevent : BatchState w' (Control.batch rest).keysAhead keys
        ([.onEvent ev.key p ff d.enabledEvents] ++ .processed ev.key p :: recent) (done ++ [ev.key]) :=
      hproc.append (by simp) (hsame rfl _)
    exact hevent
  | done => exact hi.of_append (List.nil_append _).symm (by simp) fun keys recent done hd => ⟨done,hd⟩
  | emit hb ht =>
    refine hi.of_append ht.trace (by simp) fun keys recent done hd => ⟨done,hd.append (by simp) (hsame ht.server _)⟩
  | passBy hb => exact hi.of_append (List.nil_append _).symm (by simp) fun keys recent done hd => ⟨done,hd⟩
  | finish ht =>
    refine hi.of_append ht.trace (by simp) fun keys recent done hd => ⟨done,hd.append (by simp) (hsame ht.server _)⟩

theorem batchKept {s : LoopState} (h : loopMachine.Reachable Machine.Free s)
    (hlt : (addedKeys s.world.trace).length < 2 ^ 64) : BatchKept s := by
  have hboth := (loop_rule (P := .all) (I := fun s => (addedKeys s.world.trace).length < 2 ^ 64 →
      KeysTrusted s ∧ BatchKept s) (fun _ => rfl) (h.mono fun _ _ _ => within_all) ?_ ?_).2 hlt
  · exact hboth.2
  · intro p afd ha _
    refine ⟨start_keysTrusted ha p,fun keys recent hb => ?_⟩
    rw [World.start_eq ha] at hb
    cases hb
  · intro s a s' hs hi ht hlt'
    obtain ⟨hk,hb⟩ := hi (lt_of_le_of_lt ht.addedKeys_le hlt')
    exact ⟨ht.keysTrusted hs hk hlt',ht.batchKept hs hk.registry hb⟩

/-- Whenever the loop waits again, each event of its last batch was processed once, in the order of the report, unless
its dispatcher was removed since the report: no other event is lost, and none is processed twice. -/
theorem batch_is_complete {s : LoopState} (h : loopMachine.Reachable Machine.Free s)
    (hlt : (addedKeys s.world.trace).length < 2 ^ 64) (hidle : s.control = .idle) {keys : List Key} {recent : List Event}
    (hb : lastBatch s.world.trace = some (keys,recent)) :
    keys.Nodup ∧ List.Sublist (processedKeys recent) keys ∧
      ∀ k ∈ keys, k ∈ processedKeys recent ∨ ∃ q, .removed k q ∈ recent := by
  obtain ⟨done,hd⟩ := batchKept h hlt keys recent hb
  have hall : keys = done := by
    rw [hd.split, hidle, Control.keysAhead, Control.pending, Option.getD_none, List.map_nil, List.append_nil]
  subst hall
  exact ⟨hd.nodup,hd.order,hd.behind⟩

/-- Two events, the second of a dispatcher that the first one's handler destroys. -/
theorem batch_is_complete_sample : ∃ (s : LoopState) (keys : List Key) (recent : List Event),
    lastBatch s.world.trace = some (keys,recent) ∧ keys.length = 2 ∧ (processedKeys recent).length = 1 ∧
      List.Sublist (processedKeys recent) keys ∧ ∀ k ∈ keys, k ∈ processedKeys recent ∨ ∃ q, .removed k q ∈ recent := by
  have hrun : (loopMachine.run Machine.Free ⟨World.start 0 3,.idle⟩ replaceRun).any (fun s =>
      s.control.pending.isNone && decide ((addedKeys s.world.trace).length = 4) &&
      (lastBatch s.world.trace).any fun b => decide (b.1.length = 2 ∧ (processedKeys b.2).length = 1)) = true := by
    decide +kernel
  obtain ⟨s,hs,hp⟩ := Machine.exists_reachable_of_run (init_start 0 (by decide)) hrun
  simp only [Bool.and_eq_true, decide_eq_true_eq] at hp
  obtain ⟨⟨hidle,hl⟩,hb⟩ := hp
  obtain ⟨⟨keys,recent⟩,hb,hlen⟩ := (Option.any_eq_true _ _).mp hb
  have hc : s.control = .idle := by
    cases hs' : s.control with
    | idle => rfl
    | _ => simp [hs', Control.pending] at hidle
  obtain ⟨-,horder,hall⟩ := batch_is_complete hs (by rw [hl]; decide) hc hb
  obtain ⟨hk,hr⟩ := of_decide_eq_true hlen
  exact ⟨s,keys,recent,hb,hk,hr,horder,hall⟩

end UServer.Net
