import UServer.Http.HttpServer
import UServer.Net.ShortSends

/-! Does every request get the whole response, once? OnWrite starts from the first byte on
each call and Send never arms DE_WRITE again, so only one call can do it. -/
namespace UServer.Http
open Library Net

/-- What the kernel takes before it first has no room. -/
def leadingRoom : List SendOutcome → Nat
  | .room (n + 1) :: sends => n + 1 + leadingRoom sends
  | _ => 0

/-- The room that the first of so many calls of OnWrite to find any finds. A call that finds none uses up one answer. -/
def emittedRoom : Nat → List SendOutcome → Nat
  | 0, _ => 0
  | calls + 1, sends => if 0 < leadingRoom sends then leadingRoom sends else emittedRoom calls sends.tail

/-- How often OnWrite is connected after OnRead, which connects it once more and disconnects it once if it found room. -/
def Connection.slotsLeft (c : Connection) (sends : List SendOutcome) : Nat :=
  if 0 < leadingRoom sends then c.writeSlots else c.writeSlots + 1

/-- The bytes handed over begin the response, and are all of it once no write is scheduled. -/
structure Intact (response : Response) (p : Ptr) (x : Exchange) : Prop where
  initial : x.handed <+: response.bytes
  complete : x.writeSlots = 0 ∨ x.writeEnabled p = false → x.handed = response.bytes

/-- An open socket, with DE_WRITE enabled or not. -/
def OpenAt (p : Ptr) (writes : Bool) (w : World) : Prop :=
  ∃ d, w.socketAt p = some d ∧ d.s ≠ invalidSocket ∧ has d.enabledEvents deWrite = writes

namespace OpenAt
variable {p : Ptr} {writes : Bool} {w : World}

theorem answer {α : Type} (h : OpenAt p writes w) (res : Except Errno α) : w.answer p res = res := by
  obtain ⟨d,hd,hv,-⟩ := h
  simp [World.answer, hd, hv]

theorem noteErrno {α : Type} (h : OpenAt p writes w) (res : Except Errno α) : OpenAt p writes (w.noteErrno res) := by
  cases res <;> exact h

theorem setError (h : OpenAt p writes w) (e : Errno) : OpenAt p writes (w.setError p e) := by
  obtain ⟨d,hd,hv,hw⟩ := h
  exact ⟨_,World.socketAt_modifySocket hd _,hv,hw⟩

theorem enableRead (h : OpenAt p writes w) : OpenAt p writes (w.enableEvents p deRead) := by
  obtain ⟨d,hd,hv,hw⟩ := h
  have hr : has deRead deWrite = false := by decide
  refine ⟨_,World.changeEvents_socketAt (w := w.log _) hd _,hv,?_⟩
  rw [has_or, hw, hr, Bool.or_false]

theorem send (h : OpenAt p writes w) (cb : Nat) (res : Except Errno Nat) :
    OpenAt p writes (w.send p cb res).1 ∧ (w.send p cb res).2 = returned res := by
  simp only [World.send, h.answer, World.rearmsWrite_eq_false, Bool.false_eq_true, if_false]
  exact ⟨(h.noteErrno res).setError _,trivial⟩

theorem recvFrom (h : OpenAt p writes w) (res : Except Errno Nat) : OpenAt p writes (w.recvFrom p res).1 := by
  have hs := (h.noteErrno res).setError (w.noteErrno res).errno
  obtain ⟨d,hd,-⟩ := id hs
  simp only [World.recvFrom, h.answer, World.updateLastError, hd]
  split
  · exact hs.enableRead
  · exact hs

theorem recv (h : OpenAt p writes w) (length : Nat) (res : Except Errno Nat) :
    OpenAt p writes (w.recv p length res).1 := by
  unfold World.recv
  split
  · exact h.enableRead.setError _
  · exact h.recvFrom res

/-- OnEvent disarms DE_WRITE before it emits. -/
theorem stage (h : OpenAt p writes w) : OpenAt p false (w.onEventStage p deWrite deWrite) := by
  obtain ⟨d,hd,hv,-⟩ := h
  exact ⟨_,World.onEventStage_socketAt hd (by decide),hv,has_and_not_self _ _ _ (by simp)⟩

theorem writeEnabled {x : Exchange} (h : OpenAt p writes x.world) : x.writeEnabled p = writes := by
  obtain ⟨d,hd,-,hw⟩ := h
  simp [Exchange.writeEnabled, hd, hw]

theorem readLoop (h : OpenAt p writes w) (recvs : List (Except Errno Nat)) (received : Int) :
    OpenAt p writes (Exchange.readLoop p recvs w received).1 := by
  induction recvs generalizing w received with
  | nil => exact h.recv _ _
  | cons r recvs ih =>
    unfold Exchange.readLoop
    dsimp only
    split
    · exact ih (h.recv _ _) _
    · exact h.recv _ _

end OpenAt

namespace Exchange
variable (response : Response) {p : Ptr} {writes : Bool}

/-- The first answer without a byte ends the loop. -/
private theorem writeLoop_stop {o : SendOutcome} (sends : List SendOutcome) {x : Exchange} (h : OpenAt p writes x.world)
    {readIdx : Nat} (ho : returned (o.answer (response.bytes.length - readIdx)) ≤ 0) :
    writeLoop response p (o :: sends) readIdx x = ({ x with world :=
      (x.world.send p (response.bytes.length - readIdx) (o.answer (response.bytes.length - readIdx))).1 },readIdx,sends) := by
  have hres := (h.send (response.bytes.length - readIdx) (o.answer (response.bytes.length - readIdx))).2
  simp only [writeLoop, hres, if_neg (not_lt.mpr ho)]

/-- What a run of the loop of OnWrite from a cursor did: the bytes that fit were handed over. -/
structure Wrote (response : Response) (p : Ptr) (writes : Bool) (x : Exchange) (readIdx room : Nat)
    (out : Exchange × Nat × List SendOutcome) : Prop where
  isOpen : OpenAt p writes out.1.world
  slots : out.1.writeSlots = x.writeSlots
  hung : out.1.hung = x.hung
  cursor : out.2.1 = min response.bytes.length (readIdx + room)
  handed : out.1.handed = x.handed ++ (response.bytes.drop readIdx).take room

private theorem wrote_nothing {w : World} {x : Exchange} {readIdx room : Nat} {rest : List SendOutcome}
    (h : OpenAt p writes w) (hle : readIdx ≤ response.bytes.length)
    (hr : room = 0 ∨ readIdx = response.bytes.length) :
    Wrote response p writes x readIdx room ({ x with world := w },readIdx,rest) := by
  refine ⟨h,rfl,rfl,?_,?_⟩
  · change readIdx = min response.bytes.length (readIdx + room)
    omega
  · rcases hr with rfl | rfl
    · rw [List.take_zero, List.append_nil]
    · rw [List.drop_length, List.take_nil, List.append_nil]

theorem writeLoop_spec (sends : List SendOutcome) {x : Exchange} (h : OpenAt p writes x.world) {readIdx : Nat}
    (hle : readIdx ≤ response.bytes.length) :
    Wrote response p writes x readIdx (leadingRoom sends) (writeLoop response p sends readIdx x) := by
  induction sends generalizing x readIdx with
  | nil => exact wrote_nothing response (h.send _ _).1 hle (.inl rfl)
  | cons o sends ih =>
    set cb := response.bytes.length - readIdx with hcb
    cases o with
    | error e =>
      rw [writeLoop_stop response sends h (by simp [SendOutcome.answer, returned])]
      exact wrote_nothing response (h.send _ _).1 hle (.inl rfl)
    | room n =>
      cases n with
      | zero =>
        have ho : returned ((SendOutcome.room 0).answer cb) ≤ 0 := by
          by_cases hz : cb = 0 <;> simp [SendOutcome.answer, returned, hz]
        rw [writeLoop_stop response sends h ho]
        exact wrote_nothing response (h.send _ _).1 hle (.inl rfl)
      | succ n =>
        by_cases hz : cb = 0
        · have ho : returned ((SendOutcome.room (n + 1)).answer cb) ≤ 0 := by simp [SendOutcome.answer, returned, hz]
          rw [writeLoop_stop response sends h ho]
          exact wrote_nothing response (h.send _ _).1 hle (.inr (by omega))
        · set m := min (n + 1) cb with hm
          have hans : (SendOutcome.room (n + 1)).answer cb = .ok m := by simp [SendOutcome.answer, hz, hm]
          obtain ⟨ho,hres⟩ := h.send cb (.ok m)
          have hpos : (0 : Int) < m := by omega
          have heq : writeLoop response p (.room (n + 1) :: sends) readIdx x = writeLoop response p sends (readIdx + m)
              { x with world := (x.world.send p cb (.ok m)).1
                       handed := x.handed ++ (response.bytes.drop readIdx).take m } := by
            simp only [writeLoop, ← hcb, hans, hres, returned, if_pos hpos, Int.toNat_natCast]
          have hle' : readIdx + m ≤ response.bytes.length := by omega
          obtain ⟨ho',hslots,hhung,hcursor,hhanded⟩ :=
            ih (x := { x with world := (x.world.send p cb (.ok m)).1
                              handed := x.handed ++ (response.bytes.drop readIdx).take m }) ho hle'
          rw [heq]
          refine ⟨ho',hslots,hhung,?_,?_⟩
          · rw [hcursor, leadingRoom]
            omega
          · rw [hhanded, List.append_assoc, ← List.drop_drop, ← List.take_add]
            by_cases hn : n + 1 ≤ cb
            · rw [hm, Nat.min_eq_left hn, leadingRoom]
            · have hlen : (response.bytes.drop readIdx).length = cb := List.length_drop
              rw [List.take_of_length_le (by omega), List.take_of_length_le]
              rw [leadingRoom]
              omega

/-- One call of OnWrite hands over what fits from the first byte on, and disconnects if it was anything. -/
theorem onWrite_spec (emitting : Bool) (sends : List SendOutcome) {x : Exchange} (h : OpenAt p writes x.world) :
    ∃ w, OpenAt p writes w ∧ (x.onWrite response p emitting sends).1 =
      if 0 < min response.bytes.length (leadingRoom sends) then
        disconnectWrite { x with world := w, handed := x.handed ++ response.bytes.take (leadingRoom sends) } emitting
      else { x with world := w, handed := x.handed ++ response.bytes.take (leadingRoom sends) } := by
  obtain ⟨ho,hslots,hhung,hcursor,hhanded⟩ := writeLoop_spec response sends h (Nat.zero_le _)
  rw [Nat.zero_add] at hcursor
  rw [List.drop_zero] at hhanded
  refine ⟨_,ho,?_⟩
  simp only [onWrite, hcursor, ← hslots, ← hhung, ← hhanded]

theorem deliver_of_hung {x : Exchange} (h : x.hung = true) (sends : List SendOutcome) : x.deliver response p sends = x := by
  rw [deliver, if_pos h]

/-- The cursor of OnWrite only moves on. -/
private theorem le_cursor (sends : List SendOutcome) (readIdx : Nat) (x : Exchange) :
    readIdx ≤ (writeLoop response p sends readIdx x).2.1 := by
  induction sends generalizing readIdx x with
  | nil => exact Nat.le_refl _
  | cons o sends ih =>
    unfold writeLoop
    dsimp only
    split
    · exact Nat.le_trans (Nat.le_add_right _ _) (ih _ _)
    · exact Nat.le_refl _

/-- A call that finds no room leaves the answers after its first. -/
theorem rest_of_no_room {sends : List SendOutcome} (x : Exchange) (h : ¬0 < (writeLoop response p sends 0 x).2.1) :
    (writeLoop response p sends 0 x).2.2 = sends.tail := by
  cases sends with
  | nil => rfl
  | cons o sends =>
    unfold writeLoop at h ⊢
    dsimp only at h ⊢
    split
    · rename_i hpos
      rw [if_pos hpos] at h
      have hle (readIdx : Nat) (x : Exchange) : readIdx ≤ (writeLoop response p sends readIdx x).2.1 :=
        le_cursor response sends readIdx x
      exact absurd (Nat.lt_of_lt_of_le (by omega) (hle _ _)) h
    · rfl

/-- The calls of one emission: the first that finds room hangs in disconnect, after it has handed over what fits. -/
theorem emitWrite_spec (hne : response.bytes ≠ []) (calls : Nat) (sends : List SendOutcome) {x : Exchange}
    (ho : OpenAt p writes x.world) (hh : x.hung = false) :
    ∃ w, OpenAt p writes w ∧ emitWrite response p calls sends x =
      ⟨w,x.writeSlots,x.handed ++ response.bytes.take (emittedRoom calls sends),decide (0 < emittedRoom calls sends)⟩ := by
  induction calls generalizing sends x with
  | zero => exact ⟨x.world,ho,by simp [emitWrite, emittedRoom, ← hh]⟩
  | succ calls ih =>
    have hpos := List.length_pos_iff.mpr hne
    obtain ⟨w,hw,hx⟩ := onWrite_spec response true sends ho
    unfold emitWrite emittedRoom
    by_cases hroom : 0 < leadingRoom sends
    · rw [if_pos (by omega)] at hx
      exact ⟨w,hw,by simp [hx, disconnectWrite, hroom]⟩
    · have hzero : leadingRoom sends = 0 := Nat.eq_zero_of_not_pos hroom
      have hnone : ¬0 < min response.bytes.length (leadingRoom sends) := by omega
      have hrest : (x.onWrite response p true sends).2 = sends.tail := by
        refine rest_of_no_room response x ?_
        rwa [(writeLoop_spec response sends ho (Nat.zero_le _)).cursor, Nat.zero_add]
      rw [if_neg hnone, hzero, List.take_zero, List.append_nil] at hx
      obtain ⟨w',hw',he⟩ := ih sends.tail (x := { x with world := w }) hw hh
      have hout : x.onWrite response p true sends = ({ x with world := w },sends.tail) := Prod.ext hx hrest
      refine ⟨w',hw',?_⟩
      rw [hout]
      dsimp only
      rw [if_neg (by simp [hh]), if_neg hroom, he]

/-- Of an empty response the calls of an emission hand over nothing. -/
theorem emitWrite_of_empty (hempty : response.bytes = []) (calls : Nat) (sends : List SendOutcome) {x : Exchange}
    (ho : OpenAt p writes x.world) (hh : x.hung = false) :
    ∃ w, OpenAt p writes w ∧ emitWrite response p calls sends x = { x with world := w } := by
  induction calls generalizing sends x with
  | zero => exact ⟨x.world,ho,rfl⟩
  | succ calls ih =>
    obtain ⟨w,hw,hx⟩ := onWrite_spec response true sends ho
    simp only [hempty, List.length_nil, Nat.zero_min, lt_irrefl, if_false, List.take_nil, List.append_nil] at hx
    obtain ⟨w',hw',he⟩ := ih (x.onWrite response p true sends).2 (x := { x with world := w }) hw hh
    refine ⟨w',hw',?_⟩
    unfold emitWrite
    dsimp only
    rw [hx, if_neg (by simp [hh]), he]

/-- A delivery: DE_WRITE is disarmed, and the first of the connected OnWrites that finds room starts over and hangs. -/
theorem deliver_spec (hne : response.bytes ≠ []) {x : Exchange} (ho : OpenAt p writes x.world) (hh : x.hung = false)
    (sends : List SendOutcome) : ∃ w, OpenAt p false w ∧ x.deliver response p sends =
      ⟨w,x.writeSlots,x.handed ++ response.bytes.take (emittedRoom x.writeSlots sends),
        decide (0 < emittedRoom x.writeSlots sends)⟩ := by
  rw [deliver, if_neg (by simp [hh])]
  exact emitWrite_spec response hne x.writeSlots sends
    (x := { x with world := x.world.onEventStage p deWrite deWrite }) ho.stage hh

/-- OnRead that received data: connected to OnWrite once more afterwards unless its own call handed over something. -/
theorem onRead_spec (c : Connection) {recvs : List (Except Errno Nat)} (hr : 0 < (readLoop c.p recvs c.world 0).2)
    (sends : List SendOutcome) : ∃ w, OpenAt c.p (has c.socket.enabledEvents deWrite) w ∧
      onRead response c.p recvs sends ⟨c.world,c.writeSlots,[],false⟩ =
        ⟨w,if 0 < min response.bytes.length (leadingRoom sends) then c.writeSlots else c.writeSlots + 1,
          response.bytes.take (leadingRoom sends),false⟩ := by
  have ho : OpenAt c.p (has c.socket.enabledEvents deWrite) c.world := ⟨c.socket,c.lives,c.isOpen,rfl⟩
  obtain ⟨w,hw,hx⟩ := onWrite_spec response false sends
    (x := ⟨(readLoop c.p recvs c.world 0).1,c.writeSlots + 1,[],false⟩) (ho.readLoop recvs 0)
  refine ⟨w,hw,?_⟩
  simp only [onRead, if_pos hr, hx]
  split <;> simp [disconnectWrite]

theorem handed_of_hung {x : Exchange} (h : x.hung = true) (deliveries : List (List SendOutcome)) :
    (deliveries.foldl (deliver response p) x).handed = x.handed := by
  induction deliveries with
  | nil => rfl
  | cons sends deliveries ih => rwa [List.foldl_cons, deliver_of_hung response h]

/-- Of an empty response nothing is ever handed over. -/
theorem handed_of_empty (hempty : response.bytes = []) {x : Exchange} (ho : OpenAt p writes x.world) (hh : x.hung = false)
    (deliveries : List (List SendOutcome)) : (deliveries.foldl (deliver response p) x).handed = x.handed := by
  induction deliveries generalizing x writes with
  | nil => rfl
  | cons sends deliveries ih =>
    obtain ⟨w,hw,hx⟩ := emitWrite_of_empty response hempty x.writeSlots sends
      (x := { x with world := x.world.onEventStage p deWrite deWrite }) ho.stage hh
    have he : x.deliver response p sends = { x with world := w } := by
      rw [deliver, if_neg (by simp [hh])]
      exact hx
    rw [List.foldl_cons, he]
    exact ih hw hh

/-- Deliveries in which no connected OnWrite finds room. -/
theorem deliveries_of_no_room (hne : response.bytes ≠ []) {x : Exchange} (ho : OpenAt p writes x.world)
    (hh : x.hung = false) {deliveries : List (List SendOutcome)} (hd : ∀ d ∈ deliveries, emittedRoom x.writeSlots d = 0) :
    ∃ w writes, OpenAt p writes w ∧ deliveries.foldl (deliver response p) x = { x with world := w } := by
  induction deliveries generalizing x writes with
  | nil => exact ⟨x.world,writes,ho,rfl⟩
  | cons sends deliveries ih =>
    obtain ⟨hfirst,hd⟩ := List.forall_mem_cons.mp hd
    obtain ⟨w,hw,hx⟩ := deliver_spec response hne ho hh sends
    have he : x.deliver response p sends = { x with world := w } := by simp [hx, hfirst, hh]
    rw [List.foldl_cons, he]
    exact ih (x := { x with world := w }) hw hh hd

end Exchange

theorem Intact.of_handed {response : Response} {p : Ptr} {x : Exchange} (h : x.handed = response.bytes) :
    Intact response p x := ⟨h ▸ List.prefix_refl _,fun _ => h⟩

private theorem le_of_take_eq {α : Type} {l : List α} {n : Nat} (h : l.take n = l) : l.length ≤ n := by
  have hlen := congrArg List.length h
  rw [List.length_take] at hlen
  omega

section Request
variable {response : Response} {p : Ptr} {writes : Bool} {x : Exchange} {deliveries : List (List SendOutcome)}

/-- The whole response is handed over already, and no delivery finds room for more. -/
private theorem intact_of_all (h : response.bytes ≠ []) (ho : OpenAt p writes x.world) (hh : x.hung = false)
    (hall : x.handed = response.bytes) (hd : ∀ d ∈ deliveries, emittedRoom x.writeSlots d = 0)
    {done : List (List SendOutcome)} (hdone : done <+: deliveries) :
    Intact response p (done.foldl (Exchange.deliver response p) x) := by
  obtain ⟨w,writes,-,he⟩ := Exchange.deliveries_of_no_room response h ho hh fun d hm => hd d (hdone.subset hm)
  rw [he]
  exact .of_handed hall

/-- The first delivery hands over what is missing. -/
private theorem intact_of_first (h : response.bytes ≠ []) (ho : OpenAt p true x.world) (hh : x.hung = false)
    (hslots : x.writeSlots ≠ 0) (hpart : x.handed <+: response.bytes) (hless : x.handed ≠ response.bytes)
    (hfirst : ∀ first, deliveries.head? = some first →
      x.handed ++ response.bytes.take (emittedRoom x.writeSlots first) = response.bytes)
    {done : List (List SendOutcome)} (hdone : done <+: deliveries) :
    Intact response p (done.foldl (Exchange.deliver response p) x) := by
  cases done with
  | nil =>
    refine ⟨hpart,fun hsched => ?_⟩
    rcases hsched with hsched | hsched
    · exact absurd hsched hslots
    · cases ho.writeEnabled.symm.trans hsched
  | cons first done =>
    obtain ⟨rest,rfl⟩ := hdone
    have hrest := hfirst first rfl
    obtain ⟨w,-,hx⟩ := Exchange.deliver_spec response h ho hh first
    have hroom : 0 < emittedRoom x.writeSlots first := by
      by_contra hn
      rw [Nat.eq_zero_of_not_pos hn, List.take_zero, List.append_nil] at hrest
      exact hless hrest
    refine .of_handed ?_
    rw [List.foldl_cons, hx, Exchange.handed_of_hung response (decide_eq_true hroom)]
    exact hrest

/-- After the whole response no delivery may find room. -/
private theorem no_room_of_intact (h : response.bytes ≠ []) (ho : OpenAt p writes x.world) (hh : x.hung = false)
    (hwhole : x.handed = response.bytes)
    (hall : ∀ done, done <+: deliveries → Intact response p (done.foldl (Exchange.deliver response p) x)) :
    ∀ d ∈ deliveries, emittedRoom x.writeSlots d = 0 := by
  induction deliveries using List.reverseRecOn with
  | nil => exact fun d hd => absurd hd List.not_mem_nil
  | append_singleton done last ih =>
    have hprev := ih fun done' hd => hall done' (hd.trans (List.prefix_append _ _))
    obtain ⟨w,writes,ho',he⟩ := Exchange.deliveries_of_no_room response h ho hh hprev
    obtain ⟨w',-,hx⟩ := Exchange.deliver_spec response h (x := { x with world := w }) ho' hh last
    have hinit := (hall (done ++ [last]) (List.prefix_refl _)).initial
    rw [List.foldl_append, he, List.foldl_cons, List.foldl_nil, hx] at hinit
    have hlen := hinit.length_le
    rw [List.length_append, hwhole, List.length_take] at hlen
    have hpos := List.length_pos_iff.mpr h
    have hlast : emittedRoom x.writeSlots last = 0 := by
      dsimp only at hlen
      omega
    intro d hd
    rcases List.mem_append.mp hd with hd | hd
    · exact hprev d hd
    · rw [List.mem_singleton.mp hd]
      exact hlast

/-- A part of the response leaves a write scheduled, and the first delivery hands over the rest. -/
private theorem first_of_intact (h : response.bytes ≠ []) (ho : OpenAt p writes x.world) (hh : x.hung = false)
    (hless : x.handed ≠ response.bytes)
    (hall : ∀ done, done <+: deliveries → Intact response p (done.foldl (Exchange.deliver response p) x)) :
    writes = true ∧ x.writeSlots ≠ 0 ∧ ∀ first, deliveries.head? = some first →
      x.handed ++ response.bytes.take (emittedRoom x.writeSlots first) = response.bytes := by
  have hstart := (hall [] List.nil_prefix).complete
  refine ⟨?_,fun hs => hless (hstart (.inl hs)),fun first hhead => ?_⟩
  · by_contra hn
    exact hless (hstart (.inr (ho.writeEnabled.trans (by simpa using hn))))
  · obtain ⟨rest,rfl⟩ := List.head?_eq_some_iff.mp hhead
    obtain ⟨w,hw,hx⟩ := Exchange.deliver_spec response h ho hh first
    have hone := (hall [first] ⟨rest,rfl⟩).complete
    rw [List.foldl_cons, List.foldl_nil, hx] at hone
    exact hone (.inr (OpenAt.writeEnabled (x := ⟨w,_,_,_⟩) hw))

end Request

/-- In every state of one request, whatever requests before it left connected, the bytes handed over are intact if and
only if the response is empty; or OnRead's own call of OnWrite finds room for all of it, and no delivery finds room; or
it finds less while DE_WRITE is enabled and OnWrite stays connected, and the first delivery, if there is one, hands over
the rest. -/
theorem response_intact_iff (response : Response) (c : Connection) (recvs : List (Except Errno Nat))
    (hr : 0 < (Exchange.readLoop c.p recvs c.world 0).2) (sends : List SendOutcome)
    (deliveries : List (List SendOutcome)) :
    (∀ done, done <+: deliveries → Intact response c.p (request response c recvs sends done)) ↔
      response.bytes = [] ∨
        response.bytes.length ≤ leadingRoom sends ∧ (∀ d ∈ deliveries, emittedRoom c.writeSlots d = 0) ∨
          leadingRoom sends < response.bytes.length ∧ has c.socket.enabledEvents deWrite = true ∧ c.slotsLeft sends ≠ 0 ∧
            ∀ first, deliveries.head? = some first → response.bytes.take (leadingRoom sends) ++
              response.bytes.take (emittedRoom (c.slotsLeft sends) first) = response.bytes := by
  obtain ⟨w,ho,hread⟩ := Exchange.onRead_spec response c hr sends
  unfold request
  rw [hread]
  by_cases hempty : response.bytes = []
  · refine ⟨fun _ => .inl hempty,fun _ done _ => .of_handed ?_⟩
    rw [Exchange.handed_of_empty response hempty (x := ⟨w,_,_,false⟩) ho rfl]
    simp [hempty]
  · have hpos := List.length_pos_iff.mpr hempty
    have hslots : (if 0 < min response.bytes.length (leadingRoom sends) then c.writeSlots else c.writeSlots + 1) =
        c.slotsLeft sends := if_congr (by omega) rfl rfl
    rw [hslots, or_iff_right hempty]
    set x : Exchange := ⟨w,c.slotsLeft sends,response.bytes.take (leadingRoom sends),false⟩ with hx
    by_cases hall : response.bytes.length ≤ leadingRoom sends
    · have hwhole : x.handed = response.bytes := List.take_of_length_le hall
      have hsame : x.writeSlots = c.writeSlots := if_pos (by omega)
      rw [or_iff_left fun hn => absurd hall (Nat.not_le.mpr hn.1), and_iff_right hall, ← hsame]
      exact ⟨no_room_of_intact hempty ho rfl hwhole,fun hd done hdone => intact_of_all hempty ho rfl hwhole hd hdone⟩
    · have hless : x.handed ≠ response.bytes := fun he => hall (le_of_take_eq he)
      rw [or_iff_right fun hn => hall hn.1, and_iff_right (Nat.not_le.mp hall)]
      constructor
      · exact first_of_intact hempty ho rfl hless
      · rintro ⟨hwrite,hslots,hfirst⟩ done hdone
        exact intact_of_first hempty (hwrite ▸ ho) rfl hslots (List.take_prefix _ _) hless hfirst hdone

/-- An accepted client on descriptor 5 before its first event. -/
def acceptedClient : Connection where
  world := ((World.start 0 3).openFd 5).construct 1 5 (some .stream)
  p := 1
  writeSlots := 0
  socket := .new 5 (some .stream)
  lives := World.socketAt_setSocket_same _ _ _
  isOpen := by decide

def greeting : Response := ⟨[72, 105],by decide⟩

/-- OnRead finds no room, and neither does the OnWrite that an earlier request left connected. -/
theorem response_intact_iff_sample : 0 < (Exchange.readLoop 1 [.ok 1] acceptedClient.world 0).2 ∧
    ∀ done, done <+: [[.room 0, .room 9]] →
      Intact greeting 1 (request greeting { acceptedClient with writeSlots := 1 } [.ok 1] [.room 0] done) :=
  ⟨by decide,(response_intact_iff greeting { acceptedClient with writeSlots := 1 } [.ok 1] (by decide) [.room 0]
    [[.room 0, .room 9]]).mpr (.inr (.inr ⟨by decide,by decide,by decide,fun first h => by cases h; decide⟩))⟩

/-- The kernel takes one byte of two: OnWrite disconnects and the second is never sent. -/
theorem response_truncated : ¬∀ (response : Response) (c : Connection) (recvs : List (Except Errno Nat)),
    0 < (Exchange.readLoop c.p recvs c.world 0).2 → ∀ (sends : List SendOutcome) (deliveries : List (List SendOutcome)),
      Intact response c.p (request response c recvs sends deliveries) := by
  intro hall
  have h := (hall greeting acceptedClient [.ok 1] (by decide) [.room 1] []).complete
  have hslots : (request greeting acceptedClient [.ok 1] [.room 1] []).writeSlots = 0 := by decide
  exact absurd (h (.inl hslots)) (by decide)

end UServer.Http
