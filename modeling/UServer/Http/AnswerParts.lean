import UServer.Library.History
import UServer.Http.SelfDeadlock

/-! How often does the server answer? Every OnWrite starts from the first byte, and one that is called by
SignalWriteEvent and gets anywhere blocks the thread, so what is answered is answered by OnRead. -/
namespace UServer.Http
open Library Net

/-- At most n beginnings of the response, one after the other. -/
def Parts (response : Response) (n : Nat) (handed : List UInt8) : Prop :=
  ∃ parts : List (List UInt8), handed = parts.flatten ∧ parts.length ≤ n ∧
    ∀ part ∈ parts, part ≠ [] ∧ part <+: response.bytes

namespace Parts
variable {response : Response} {n m : Nat} {handed : List UInt8}

theorem none : Parts response n [] := ⟨[],rfl,Nat.zero_le n,nofun⟩

theorem mono (h : Parts response n handed) (hle : n ≤ m) : Parts response m handed := by
  obtain ⟨parts,he,hn,hp⟩ := h
  exact ⟨parts,he,hn.trans hle,hp⟩

theorem append (h : Parts response n handed) (k : Nat) : Parts response (n + 1) (handed ++ response.bytes.take k) := by
  by_cases hk : response.bytes.take k = []
  · rw [hk, List.append_nil]
    exact h.mono (Nat.le_succ n)
  · obtain ⟨parts,rfl,hn,hp⟩ := h
    refine ⟨parts ++ [response.bytes.take k],by simp,?_,?_⟩
    · rw [List.length_append, List.length_singleton]
      exact Nat.succ_le_succ hn
    · rintro part hpart
      rcases List.mem_append.mp hpart with hpart | hpart
      · exact hp part hpart
      · rw [List.mem_singleton.mp hpart]
        exact ⟨hk,List.take_prefix _ _⟩

end Parts

/-- The SignalReadEvents that each socket has emitted. -/
abbrev ReadCount := Ptr → Nat

def ReadCount.note (s : HttpServer) (a : HttpAction) (_ : HttpServer) (reads : ReadCount) : ReadCount :=
  match a.emission s with
  | some (p, signal, _) => if signalOf signal = .read then Function.update reads p (reads p + 1) else reads
  | none => reads

/-- The server with a record of its SignalReadEvents. -/
def readsMachine (response : Response) : Machine (HttpServer × ReadCount) HttpAction :=
  (httpMachine response).recorded (fun _ => 0) ReadCount.note

/-- What the loop of OnWrite takes from the response are bytes from its cursor on. -/
theorem Exchange.writeLoop_handed (response : Response) (p : Ptr) (sends : List SendOutcome) (readIdx : Nat)
    (x : Exchange) : ∃ k, (writeLoop response p sends readIdx x).1.handed =
      x.handed ++ (response.bytes.drop readIdx).take k ∧ (writeLoop response p sends readIdx x).2.1 = readIdx + k := by
  induction sends generalizing readIdx x with
  | nil => exact ⟨0,by simp [writeLoop],rfl⟩
  | cons o sends ih =>
    unfold writeLoop
    dsimp only
    set w := (x.world.send p (response.bytes.length - readIdx) (o.answer (response.bytes.length - readIdx))) with hw
    split
    · obtain ⟨k,hh,hr⟩ := ih (readIdx + w.2.toNat)
        { x with world := w.1, handed := x.handed ++ (response.bytes.drop readIdx).take w.2.toNat }
      refine ⟨w.2.toNat + k,?_,hr.trans (Nat.add_assoc _ _ _)⟩
      rw [hh, List.append_assoc, ← List.drop_drop, ← List.take_add]
    · exact ⟨0,by simp,rfl⟩

namespace HttpServer
variable {response : Response} {p q : Ptr} {s t : HttpServer} {n : Nat}

theorem locked_handed (signal : Signal) (f : Slots → Slots) : (s.locked p signal f).handed = s.handed := by
  unfold locked
  split <;> rfl

/-- One OnWrite hands over a beginning of the response. -/
theorem onWrite_handed (response : Response) (p : Ptr) (sends : List SendOutcome) (s : HttpServer) :
    (s.onWrite response p sends).1.handed = Function.update s.handed p
      (s.handed p ++ response.bytes.take (Exchange.writeLoop response p sends 0 (s.exchange p)).2.1) := by
  obtain ⟨k,hh,hr⟩ := Exchange.writeLoop_handed response p sends 0 (s.exchange p)
  rw [Nat.zero_add] at hr
  rw [List.drop_zero] at hh
  unfold onWrite
  dsimp only
  rw [hh, hr]
  split
  · rw [disconnectWrite, locked_handed]
    rfl
  · rfl

theorem onWrite_adds (sends : List SendOutcome) (h : Parts response n (s.handed q)) :
    Parts response (n + 1) ((s.onWrite response p sends).1.handed q) := by
  rw [onWrite_handed]
  by_cases hq : q = p
  · rw [hq] at h ⊢
    rw [Function.update_self]
    exact h.append _
  · rw [Function.update_of_ne hq]
    exact h.mono (Nat.le_succ n)

/-- The slots of SignalWriteEvent add nothing unless one of them blocks the thread. -/
theorem emitWrite_parts (slots : Nat) (sends : List SendOutcome) (s : HttpServer) (he : s.emitting = some (p,.write))
    (hh : s.hung = false) (h : Parts response n (s.handed q)) :
    Parts response (n + if (emitWrite response p slots sends s).hung then 1 else 0)
      ((emitWrite response p slots sends s).handed q) := by
  induction slots generalizing sends s with
  | zero => exact h.mono (Nat.le_add_right _ _)
  | succ slots ih =>
    have hadds := onWrite_adds (p := p) sends h
    have hhanded := onWrite_handed response p sends s
    have hblocks : (s.onWrite response p sends).1.hung = _ := onWrite_hung sends
    unfold emitWrite
    dsimp only
    split
    · exact hadds
    · rename_i hhung
      have hzero : (Exchange.writeLoop response p sends 0 (s.exchange p)).2.1 = 0 := by
        rw [hblocks, hh, he] at hhung
        simpa using hhung
      refine ih _ _ ((onWrite_emitting sends).trans he) ((Bool.not_eq_true _).mp hhung) ?_
      rw [hhanded, hzero, List.take_zero, List.append_nil, Function.update_eq_self]
      exact h

/-- OnRead calls OnWrite once, if at all. -/
theorem onRead_parts (recvs : List (Except Errno Nat)) (sends : List SendOutcome) (h : Parts response n (s.handed q)) :
    Parts response (n + 1) ((s.onRead response p recvs sends).handed q) := by
  unfold onRead
  dsimp only
  set s₁ := s.setWorld (Exchange.readLoop p recvs s.world 0).1 with hs₁
  set s₂ := if 0 < (Exchange.readLoop p recvs s.world 0).2 then
      if (s₁.connectWrite p).hung then s₁.connectWrite p else ((s₁.connectWrite p).onWrite response p sends).1
    else s₁ with hs₂
  have h₁ : Parts response n ((s₁.connectWrite p).handed q) := by
    rw [connectWrite, locked_handed]
    exact h
  have h₂ : Parts response (n + 1) (s₂.handed q) := by
    rw [hs₂]
    split
    · split
      · exact h₁.mono (Nat.le_succ n)
      · exact onWrite_adds sends h₁
    · exact h.mono (Nat.le_succ n)
  split
  · exact h₂
  · rw [if_neg (lastRet_ne_zero recvs s.world)]
    exact h₂

/-- A new client has been answered nothing. -/
theorem welcome_parts (client : Ptr) (h : Parts response n (s.handed q)) :
    Parts response n ((s.welcome client).handed q) := by
  have hw : (s.welcome client).handed = Function.update s.handed client [] := by
    unfold welcome
    dsimp only
    split
    · rw [connectRead, locked_handed]
    · rw [connectClose, connectRead]
      exact locked_handed _ _
  rw [hw]
  by_cases hq : q = client
  · rw [hq, Function.update_self]
    exact .none
  · rw [Function.update_of_ne hq]
    exact h

theorem onRead_handed_ne (hq : q ≠ p) (recvs : List (Except Errno Nat)) (sends : List SendOutcome) :
    (s.onRead response p recvs sends).handed q = s.handed q := by
  refine onRead_steps (J := fun u => u.handed q = s.handed q) rfl (fun u hu => ?_) fun u hu => ?_
  · rw [connectWrite, locked_handed]
    exact hu
  · rw [onWrite_handed, Function.update_of_ne hq]
    exact hu

/-- An emission adds a part to its own socket, if it is SignalReadEvent or blocks the thread. -/
theorem emit_parts {signal : Signal} {io : Answers} (hh : s.hung = false) (h : Parts response n (s.handed q))
    (ht : emit response p signal io s = some t) :
    Parts response ((if q = p ∧ signal = .read then n + 1 else n) + if t.hung then 1 else 0) (t.handed q) := by
  obtain ⟨u,hu,rfl⟩ := Option.map_eq_some_iff.mp ht
  have hsame : (if u.hung then u else { u with emitting := none }).handed = u.handed ∧
      (if u.hung then u else { u with emitting := none }).hung = u.hung := by
    split <;> exact ⟨rfl,rfl⟩
  rw [hsame.1, hsame.2]
  have hkept {m : Nat} (hm : n ≤ m) (hu : Parts response n (u.handed q)) :
      Parts response (m + if u.hung then 1 else 0) (u.handed q) := hu.mono (hm.trans (Nat.le_add_right _ _))
  unfold callSlots at hu
  cases signal with
  | read =>
    have hle : n ≤ if q = p ∧ Signal.read = Signal.read then n + 1 else n := by
      split <;> omega
    dsimp only at hu
    split at hu
    · cases hu
      exact hkept hle h
    · refine hkept hle (acceptLoop_steps (J := fun u => Parts response n (u.handed q)) ?_ _ _
        { s with emitting := some (p,.read) } h hu)
      exact fun u a hu _ => ⟨hu,fun _ => welcome_parts a.address hu⟩
    · cases hu
      by_cases hq : q = p
      · rw [if_pos ⟨hq,rfl⟩]
        exact (onRead_parts (s := { s with emitting := some (p,.read) }) io.recvs io.sends h).mono (Nat.le_add_right _ _)
      · refine hkept hle ?_
        rw [onRead_handed_ne hq]
        exact h
  | write =>
    cases hu
    rw [if_neg (by simp)]
    exact emitWrite_parts _ _ { s with emitting := some (p,.write) } rfl hh h
  | connect =>
    cases hu
    rw [if_neg (by simp)]
    exact hkept le_rfl h
  | close =>
    cases hu
    rw [if_neg (by simp)]
    refine hkept le_rfl ?_
    split <;> exact h

end HttpServer

/-- The step lemma: each socket is answered at most once more, by its SignalReadEvent or by the last step of all. -/
theorem HttpTurn.parts {response : Response} {s t : HttpServer} {a : HttpAction} {reads : ReadCount} {q : Ptr}
    (h : HttpTurn response s a t) (hh : s.hung = false) (hi : Parts response (reads q) (s.handed q)) :
    Parts response (reads.note s a t q + if t.hung then 1 else 0) (t.handed q) := by
  cases h with
  | quiet he hl =>
    rw [ReadCount.note, he]
    exact hi.mono (Nat.le_add_right _ _)
  | @emits _ rest key p ff err handler signal todo io he hc hsig hl ht =>
    have hp := HttpServer.emit_parts (s := { s with
      loop := ⟨s.world.onEventStage p ff signal,.onEvent rest key p ff err true todo⟩ }) hh hi ht
    refine hp.mono (Nat.add_le_add_right ?_ _)
    rw [ReadCount.note, he]
    dsimp only
    by_cases hr : signalOf signal = .read
    · rw [if_pos hr]
      by_cases hq : q = p
      · rw [hq, Function.update_self, if_pos ⟨rfl,hr⟩]
      · rw [Function.update_of_ne hq, if_neg fun h => hq h.1]
    · rw [if_neg hr, if_neg fun h => hr h.2]

/-- In every run the bytes that the server has handed to a socket are beginnings of the response, one after the other,
and at most one for each SignalReadEvent of the socket: only the emission that blocks the thread for good can add one. -/
theorem answers_are_parts {response : Response} {ok : HttpServer → HttpAction → Prop} {r : HttpServer × ReadCount}
    (h : (readsMachine response).Reachable (fun r a => ok r.1 a) r) (q : Ptr) :
    ∃ parts : List (List UInt8), r.1.handed q = parts.flatten ∧ parts.length ≤ r.2 q + (if r.1.hung then 1 else 0) ∧
      ∀ part ∈ parts, part ≠ [] ∧ part <+: response.bytes := by
  refine Machine.Reachable.rule_recorded (I := fun s reads => Parts response (reads q + if s.hung then 1 else 0)
    (s.handed q)) h ?_ ?_
  · rintro s ⟨a,w,-,-,-,rfl⟩
    exact .none
  · intro s reads a t _ hi ht
    obtain ⟨hh,ht⟩ := httpStep_turn ht
    rw [if_neg (by simp [hh]), Nat.add_zero] at hi
    exact ht.parts hh hi

/-- One request, answered with the one byte of the response. -/
theorem answers_are_parts_one : ∃ r : HttpServer × ReadCount, r.1.handed 2 = [72] ∧ r.2 2 = 1 ∧
    ∃ parts : List (List UInt8), r.1.handed 2 = parts.flatten ∧ parts.length ≤ r.2 2 + (if r.1.hung then 1 else 0) := by
  have h : ((readsMachine shortResponse).run Machine.Free (plainServer,fun _ => 0)
      (oneClient ++ oneRequest [.ok 16] [.room 1] [])).any
        (fun r => decide (r.1.handed 2 = [72]) && decide (r.2 2 = 1)) = true := by
    decide +kernel
  obtain ⟨r,hr,hp⟩ := Machine.exists_reachable_of_run (M := readsMachine shortResponse)
    ⟨plainServer_init shortResponse,rfl⟩ h
  obtain ⟨hhanded,hreads⟩ := Bool.and_eq_true_iff.mp hp
  have hfree : (readsMachine shortResponse).Reachable (fun r a => Machine.Free r.1 a) r := hr
  obtain ⟨parts,he,hle,-⟩ := answers_are_parts hfree 2
  exact ⟨r,of_decide_eq_true hhanded,of_decide_eq_true hreads,parts,he,hle⟩

end UServer.Http
