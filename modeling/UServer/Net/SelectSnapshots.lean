import UServer.Net.SelectLoop

/-! current_dispatcher_keys_ after each collection phase of WaitSelect: the keys that the phase considers, after those
of every phase before it, which nothing takes out. -/
namespace UServer.Net
open Library

/-- A collection phase: its process_io, the registry it went through, and current_dispatcher_keys_ after it. -/
structure Snapshot where
  processIo : Bool
  registered : DispatcherMap
  signalWakeup : Ptr
  keys : List Key

namespace Snapshot

/-- The keys of the dispatchers that the phase considers. -/
def Considered (n : Snapshot) (key : Key) : Prop :=
  ∃ p, n.registered.lookup key = some p ∧ (n.processIo = true ∨ p = n.signalWakeup)

/-- The vector holds the key of every dispatcher considered exactly once and nothing else. -/
structure Exact (n : Snapshot) : Prop where
  once : n.keys.Nodup
  considered : ∀ key, key ∈ n.keys ↔ n.Considered key
  bounded : n.keys.length ≤ n.registered.keys.length

end Snapshot

/-- A server with a record of the collection phases so far. -/
def noteSnapshot (s : SelectState) (a : SelectAction) (t : SelectState) (g : List Snapshot) : List Snapshot :=
  match a, s.control, t.control with
  | .turn _, .looping f, .selecting _ =>
    g ++ [⟨f.processIo,s.server.dispatcherByKey,s.server.signalWakeup,t.server.currentDispatcherKeys⟩]
  | _, _, _ => g

def snapshotMachine : Machine (SelectState × List Snapshot) SelectAction := selectMachine.recorded [] noteSnapshot

/-- A step that starts no collection phase on a vector with keys in it. -/
def StartsEmpty (s : SelectState) (a : SelectAction) : Prop :=
  match a, s.control with
  | .turn _, .looping _ => s.server.flagWait = true → s.server.currentDispatcherKeys = []
  | _, _ => True

/-- The entries that a collection phase considers. -/
def SelectServer.considered (s : SelectServer) (processIo : Bool) (entries : List (Sigma fun _ : Key => Ptr)) :
    List (Sigma fun _ : Key => Ptr) :=
  entries.filter fun kv => s.considers processIo kv.2

/-- What a step does to current_dispatcher_keys_ and to the record. -/
inductive Collects (s : SelectState) (a : SelectAction) (t : SelectState) : Prop
  | aside (hk : t.server.currentDispatcherKeys = s.server.currentDispatcherKeys)
      (hn : ∀ g, noteSnapshot s a t g = g) (he : StartsEmpty s a)
  | phase (f : SelectFrame) (order : List (Sigma fun _ : Key => Ptr)) (ho : order.Perm s.server.dispatcherByKey.entries)
      (hk : t.server.currentDispatcherKeys =
        s.server.currentDispatcherKeys ++ (s.server.considered f.processIo order).map Sigma.fst)
      (hn : ∀ g, noteSnapshot s a t g =
        g ++ [⟨f.processIo,s.server.dispatcherByKey,s.server.signalWakeup,t.server.currentDispatcherKeys⟩])
      (he : StartsEmpty s a ↔ s.server.currentDispatcherKeys = [])

section
variable {s t : SelectState} {a : SelectAction}

theorem currentDispatcherKeys_remove (s : SelectServer) (p : Ptr) :
    (s.remove p).currentDispatcherKeys = s.currentDispatcherKeys := by
  unfold SelectServer.remove
  split <;> rfl

theorem currentDispatcherKeys_add (s : SelectServer) (p : Ptr) :
    (s.add p).currentDispatcherKeys = s.currentDispatcherKeys := by
  unfold SelectServer.add
  split <;> rfl

theorem selectNext_keys {s : SelectServer} {f : SelectFrame} {key : Key} {rest : List Key} {so : Except Errno Errno}
    {peek : Except Errno Nat} (h : selectNext s f key rest so peek = some t) :
    t.server.currentDispatcherKeys = s.currentDispatcherKeys := by
  unfold selectNext at h
  split at h
  · cases h
    rfl
  · split at h
    · cases h
    · obtain ⟨-,h⟩ := Option.ite_none_left_eq_some.mp h
      dsimp only at h
      split at h
      · cases h
        rfl
      · split at h
        · cases h
          dsimp only
          split <;> rfl
        · cases h
          rfl

theorem collects_of_turn {f : SelectFrame} {order : List (Sigma fun _ : Key => Ptr)} (hc : s.control = .looping f)
    (h : selectTurn s.server f order = some t) : Collects s (.turn order) t := by
  unfold selectTurn at h
  split at h
  · rename_i hw
    obtain ⟨ho,h⟩ := Option.ite_none_right_eq_some.mp h
    obtain ⟨c,hcol,rfl⟩ := Option.map_eq_some_iff.mp h
    refine .phase f order ho (SelectServer.keys_of_collect hcol) (fun g => ?_) ?_
    · simp only [noteSnapshot, hc]
    · simp [StartsEmpty, hc, hw]
  · rename_i hw
    cases h
    refine .aside rfl (fun g => ?_) ?_
    · simp only [noteSnapshot, hc]
    · simp [StartsEmpty, hc, hw]

/-- Only the turn of WaitSelect's loop touches the vector. -/
theorem collects_of_step (h : selectStep s a = some t) : Collects s a t := by
  cases a with
  | add p =>
    obtain ⟨-,h⟩ := Option.ite_none_left_eq_some.mp h
    cases h
    exact .aside (currentDispatcherKeys_add ..) (fun _ => rfl) trivial
  | remove p =>
    obtain ⟨-,h⟩ := Option.ite_none_left_eq_some.mp h
    cases h
    exact .aside (currentDispatcherKeys_remove ..) (fun _ => rfl) trivial
  | change p dispatcher =>
    obtain ⟨-,h⟩ := Option.ite_none_left_eq_some.mp h
    cases h
    exact .aside rfl (fun _ => rfl) trivial
  | wait cmsWait processIo =>
    simp only [selectStep] at h
    split at h
    · cases h
      exact .aside rfl (fun _ => rfl) trivial
    · cases h
  | turn order =>
    simp only [selectStep] at h
    split at h
    · rename_i hc
      exact collects_of_turn hc h
    · cases h
  | select answer =>
    simp only [selectStep] at h
    split at h
    · cases answer with
      | failed e =>
        cases h
        exact .aside rfl (fun _ => rfl) trivial
      | timeout =>
        obtain ⟨-,h⟩ := Option.ite_none_left_eq_some.mp h
        cases h
        exact .aside rfl (fun _ => rfl) trivial
      | ready fdsRead fdsWrite =>
        obtain ⟨-,h⟩ := Option.ite_none_right_eq_some.mp h
        cases h
        exact .aside rfl (fun _ => rfl) trivial
    · cases h
  | next so peek =>
    simp only [selectStep] at h
    split at h
    · exact .aside (selectNext_keys h) (fun _ => rfl) trivial
    · cases h
      exact .aside rfl (fun _ => rfl) trivial
    · cases h
  | resume =>
    simp only [selectStep] at h
    split at h
    · cases h
      exact .aside rfl (fun _ => rfl) trivial
    · cases h

end

section
variable {s : SelectServer} {processIo : Bool} {order : List (Sigma fun _ : Key => Ptr)}

theorem considered_nodup (ho : order.Perm s.dispatcherByKey.entries) :
    ((s.considered processIo order).map Sigma.fst).Nodup := by
  have hn : (order.map Sigma.fst).Nodup := (ho.map Sigma.fst).nodup_iff.mpr s.dispatcherByKey.keys_nodup
  exact (List.filter_sublist.map Sigma.fst).nodup hn

theorem mem_considered (ho : order.Perm s.dispatcherByKey.entries) {key : Key} {keys : List Key} :
    key ∈ (s.considered processIo order).map Sigma.fst ↔
      Snapshot.Considered ⟨processIo,s.dispatcherByKey,s.signalWakeup,keys⟩ key := by
  have hc : ∀ p, s.considers processIo p = true ↔ processIo = true ∨ p = s.signalWakeup := by
    intro p
    rw [SelectServer.considers, Bool.or_eq_true, decide_eq_true_iff]
  rw [List.mem_map]
  constructor
  · rintro ⟨kv,hkv,rfl⟩
    obtain ⟨hm,hp⟩ := List.mem_filter.mp hkv
    exact ⟨kv.2,AList.mem_lookup_iff.mpr (ho.mem_iff.mp hm),(hc kv.2).mp hp⟩
  · rintro ⟨p,hp,hs⟩
    have hm : Sigma.mk key p ∈ order := ho.mem_iff.mpr (AList.mem_lookup_iff.mp hp)
    exact ⟨⟨key,p⟩,List.mem_filter.mpr ⟨hm,(hc p).mpr hs⟩,rfl⟩

/-- A phase leaves an exact vector exactly if it starts on an empty one. -/
theorem exact_iff_empty (ho : order.Perm s.dispatcherByKey.entries) {current : List Key} :
    Snapshot.Exact ⟨processIo,s.dispatcherByKey,s.signalWakeup,
      current ++ (s.considered processIo order).map Sigma.fst⟩ ↔ current = [] := by
  constructor
  · intro h
    rw [List.eq_nil_iff_forall_not_mem]
    intro key hk
    have hkey := (mem_considered ho).mpr ((h.considered key).mp (List.mem_append_left _ hk))
    exact (List.nodup_append.mp h.once).2.2 key hk key hkey rfl
  · rintro rfl
    rw [List.nil_append]
    refine ⟨considered_nodup ho,fun key => mem_considered ho,?_⟩
    calc ((s.considered processIo order).map Sigma.fst).length
      _ ≤ order.length := (List.length_map _).trans_le List.filter_sublist.length_le
      _ = s.dispatcherByKey.keys.length := ho.length_eq.trans (List.length_map _).symm

end

/-- Every collection phase is exact in the runs in which each one starts on an empty vector, and in no others. -/
theorem snapshots_exact_iff {p : SelectState × List Snapshot} :
    snapshotMachine.Reachable (fun p a => StartsEmpty p.1 a) p ↔
      snapshotMachine.Reachable Machine.Free p ∧ ∀ n ∈ p.2, n.Exact := by
  refine Machine.reachable_iff_forall_items (fun g : List Snapshot => g) Snapshot.Exact rfl fun u a v _ he => ?_
  obtain ⟨he,hg⟩ := Machine.recorded_step he
  cases collects_of_step he with
  | aside hk hn hs =>
    refine ⟨[],?_,iff_of_true (fun _ hx => absurd hx List.not_mem_nil) hs⟩
    rw [hg, hn, List.append_nil]
  | phase f order ho hk hn hs =>
    refine ⟨_,hg.trans (hn u.2),?_⟩
    rw [List.forall_mem_singleton, hk, hs]
    exact exact_iff_empty ho

/-- What every phase considered stays in the vector. -/
theorem currentDispatcherKeys_length {p : SelectState × List Snapshot} (h : snapshotMachine.Reachable Machine.Free p) :
    p.1.server.currentDispatcherKeys.length = (p.2.map fun n =>
      (n.registered.entries.filter fun kv => n.processIo || decide (kv.2 = n.signalWakeup)).length).sum := by
  apply h.rule (I := fun p => p.1.server.currentDispatcherKeys.length = (p.2.map fun n =>
    (n.registered.entries.filter fun kv => n.processIo || decide (kv.2 = n.signalWakeup)).length).sum)
  · rintro q ⟨⟨p,afd,-,hq⟩,hg⟩
    rw [hq, hg]
    rfl
  · intro u a v hu _ he
    obtain ⟨he,hg⟩ := Machine.recorded_step he
    cases collects_of_step he with
    | aside hk hn hs => rw [hk, hg, hn, hu]
    | phase f order ho hk hn hs =>
      rw [hg, hn, hk, List.map_append, List.sum_append, List.length_append, hu, List.length_map]
      simp only [List.map_cons, List.map_nil, List.sum_singleton, Nat.add_left_cancel_iff]
      exact (ho.filter _).length_eq

/-- The second call of WaitSelect finds the signaler's key of the first and adds it again. -/
theorem snapshot_doubled : ¬∀ p : SelectState × List Snapshot, snapshotMachine.Reachable Machine.Free p →
    ∀ n ∈ p.2, n.Exact := by
  intro hall
  have h : (snapshotMachine.run Machine.Free (⟨.start 100 3,.idle none⟩,[]) [.wait (-1) true, .turn [⟨0,100⟩],
      .select (.ready {3} ∅), .next (.ok 0) (.ok 1), .next (.ok 0) (.ok 1), .turn [], .wait (-1) true,
      .turn [⟨0,100⟩]]).any
      (fun p => decide ([0,0] ∈ p.2.map Snapshot.keys)) = true := by
    decide +kernel
  have hstart : snapshotMachine.init (⟨.start 100 3,.idle none⟩,[]) := ⟨⟨100,3,by decide,rfl⟩,rfl⟩
  obtain ⟨p,hp,hm⟩ := Machine.exists_reachable_of_run hstart h
  obtain ⟨n,hn,hk⟩ := List.mem_map.mp (of_decide_eq_true hm)
  have honce := (hall p hp n hn).once
  rw [hk] at honce
  exact absurd honce (by decide)

end UServer.Net
