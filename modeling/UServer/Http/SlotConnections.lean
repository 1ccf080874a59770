import UServer.Http.KeptSockets
import UServer.Sigslot.Wiring

/-! What the server is subscribed to are connections of signals to one has_slots object: every run of the server is a
run of signals, their emissions call its handlers, and it hangs where a mutex of theirs is locked twice. -/
namespace UServer.Http
open Library Net

/-- The address of a signal of the socket at an address. -/
def Signal.address : Signal → Ptr → ℕ
  | .read, p => 4 * p
  | .write, p => 4 * p + 1
  | .connect, p => 4 * p + 2
  | .close, p => 4 * p + 3

/-- The signals that are multi_threaded_local. -/
def Signal.locks (signal : Signal) : Bool := signal = .read || signal = .write

/-- The policies of the signals of a Socket, and of HTTPServer with its has_slots<>. -/
def socketPolicy : Sigslot.Object → Sigslot.Policy
  | .signal g => if g % 4 < 2 then .multiThreadedLocal else .singleThreaded
  | .slots _ => .singleThreaded

theorem Signal.address_inj {signal signal' : Signal} {p q : Ptr} :
    signal.address p = signal'.address q ↔ signal = signal' ∧ p = q := by
  cases signal <;> cases signal' <;> simp [address] <;> omega

theorem Signal.locks_iff (signal : Signal) (p : Ptr) :
    socketPolicy (.signal (signal.address p)) ≠ .singleThreaded ↔ signal.locks = true := by
  cases signal <;> simp [socketPolicy, address, locks]

theorem mutex_socketPolicy (o : Sigslot.Object) :
    (socketPolicy o).mutex o = none ∨ (socketPolicy o).mutex o = some (.own o) := by
  cases o with
  | slots h => exact .inl rfl
  | signal g =>
    simp only [socketPolicy]
    split
    · exact .inr rfl
    · exact .inl rfl

/-- No two objects have one mutex. -/
theorem eq_of_shares {g : ℕ} {o : Sigslot.Object} (h : Sigslot.Shares socketPolicy (.signal g) o) : o = .signal g := by
  obtain ⟨hsome,he⟩ := h
  obtain ⟨m,hm⟩ := Option.isSome_iff_exists.mp hsome
  rw [hm] at he
  rcases mutex_socketPolicy (.signal g) with hg | hg
  · cases hg.symm.trans hm
  · rcases mutex_socketPolicy o with ho | ho
    · cases ho.symm.trans he.symm
    · cases (hg.symm.trans hm).trans (he.trans ho)
      rfl

/-- The has_slots object of HTTPServer. -/
def serverObject : ℕ := 0

/-- The numbers of its methods. -/
def Reader.method : Reader → ℕ
  | .onAccept => 0
  | .onRead => 1

def onWriteTarget : ℕ × ℕ := (serverObject,2)

def onCloseTarget : ℕ × ℕ := (serverObject,3)

/-- What the signals of a socket are connected to. -/
def Slots.targets (c : Slots) : Signal → List (ℕ × ℕ)
  | .read => (c.read.map fun reader => (serverObject,reader.method)).toList
  | .write => List.replicate c.write onWriteTarget
  | .connect => []
  | .close => if c.close then [onCloseTarget] else []

section Targets
variable (c : Slots) {signal : Signal}

theorem Slots.targets_setRead (read : Option Reader) (h : signal ≠ .read) :
    ({ c with read } : Slots).targets signal = c.targets signal := by
  cases signal with
  | read => exact absurd rfl h
  | _ => rfl

theorem Slots.targets_setWrite (write : Nat) (h : signal ≠ .write) :
    ({ c with write } : Slots).targets signal = c.targets signal := by
  cases signal with
  | write => exact absurd rfl h
  | _ => rfl

theorem Slots.targets_setClose (close : Bool) (h : signal ≠ .close) :
    ({ c with close } : Slots).targets signal = c.targets signal := by
  cases signal with
  | close => exact absurd rfl h
  | _ => rfl

end Targets

theorem Slots.targets_server (c : Slots) (signal : Signal) : ∀ x ∈ c.targets signal, x.1 = serverObject := by
  cases signal with
  | read =>
    intro x hx
    obtain ⟨reader,-,rfl⟩ := Option.map_eq_some_iff.mp (Option.mem_toList.mp hx)
    rfl
  | write =>
    intro x hx
    rw [List.eq_of_mem_replicate hx]
    rfl
  | connect => exact fun x hx => absurd hx List.not_mem_nil
  | close =>
    intro x hx
    cases hc : c.close with
    | false => simp [targets, hc] at hx
    | true =>
      obtain rfl : x = onCloseTarget := by simpa [targets, hc] using hx
      rfl

/-- The signals of the sockets in existence have the server's connections, the one being emitted fires, and nothing has
reached a destroyed object. -/
structure Carries (w : Sigslot.World) (s : HttpServer) : Prop where
  server : (w.senders serverObject).isSome = true
  wired : ∀ q signal, (w.signals (signal.address q)).map Sigslot.Signal.targets =
    if s.world.live q then some ((s.slots q).targets signal) else none
  firing : w.firing = (s.emitting.map fun x => x.2.address x.1).toList
  fault : w.fault = false

/-- In the emission of one signal, with the targets left to call and those called in all when it ends. -/
structure Emits (w : Sigslot.World) (s : HttpServer) (p : Ptr) (signal : Signal) (left all : List (ℕ × ℕ)) : Prop where
  carries : Carries w s
  live : s.world.live p = true
  emitting : s.emitting = some (p,signal)
  remaining : (w.signals (signal.address p)).map Sigslot.Signal.left = some left
  calls : (w.callsOf (signal.address p)).map Sigslot.Connection.target ++ left = all

/-- The signals have come to that from an earlier state, and the thread is blocked only under a mutex. -/
def Emitted (w₀ : Sigslot.World) (p : Ptr) (signal : Signal) (left all : List (ℕ × ℕ)) (s : HttpServer) : Prop :=
  ∃ w, (Sigslot.machine socketPolicy).Reaches Machine.Free w₀ w ∧ Emits w s p signal left all ∧
    (s.hung = true → signal.locks = true)

namespace Carries
variable {w w' : Sigslot.World} {s t : HttpServer} {q : Ptr} {signal : Signal}

theorem of_same (h : Carries w s) (hl : ∀ q, t.world.live q = s.world.live q) (hs : t.slots = s.slots)
    (he : t.emitting = s.emitting) : Carries w t where
  server := h.server
  wired q signal := by rw [h.wired, hl, hs]
  firing := he ▸ h.firing
  fault := h.fault

/-- A socket's signal is there, with its connections. -/
theorem exists_signal (h : Carries w s) (hl : s.world.live q = true) (signal : Signal) :
    ∃ σ, w.signals (signal.address q) = some σ ∧ σ.targets = (s.slots q).targets signal :=
  Option.map_eq_some_iff.mp ((h.wired q signal).trans (if_pos hl))

theorem sets (h : Carries w s) {σ : Sigslot.Signal} {f : Slots → Slots} (hq : s.world.live q = true)
    (ht : w.Sets w' (signal.address q) σ) (hσ : σ.targets = (f (s.slots q)).targets signal)
    (hf : ∀ k, k ≠ signal → (f (s.slots q)).targets k = (s.slots q).targets k) : Carries w' (s.setSlots q f) := by
  have hself : (s.setSlots q f).slots q = f (s.slots q) := Function.update_self ..
  refine ⟨(ht.alive _).trans h.server,fun r k => ?_,ht.firing.trans h.firing,ht.fault.trans h.fault⟩
  have hw := h.wired r k
  by_cases hr : r = q
  · subst hr
    rw [hself]
    by_cases hk : k = signal
    · subst hk
      rw [ht.signals, Function.update_self, Option.map_some, hσ]
      exact (if_pos hq).symm
    · rw [ht.signals, Function.update_of_ne fun he => hk (Signal.address_inj.mp he).1, hf k hk]
      exact hw
  · have hother : (s.setSlots q f).slots r = s.slots r := Function.update_of_ne hr _ _
    rw [hother, ht.signals, Function.update_of_ne fun he => hr (Signal.address_inj.mp he).2]
    exact hw

/-- A connect or disconnect at a signal that is not being emitted can run, and does what the server takes it to do. -/
theorem edits (h : Carries w s) (q : Ptr) (signal : Signal) (f : Slots → Slots)
    (hne : s.emitting ≠ some (q,signal)) (hq : s.world.live q = true)
    (ha : Sigslot.World.Edits (signal.address q) serverObject ((s.slots q).targets signal)
      ((f (s.slots q)).targets signal))
    (hf : ∀ k, k ≠ signal → (f (s.slots q)).targets k = (s.slots q).targets k) :
    ∃ w' σ, (Sigslot.machine socketPolicy).Reaches Machine.Free w w' ∧ w.Sets w' (signal.address q) σ ∧
      Carries w' (s.setSlots q f) := by
  obtain ⟨σ,hσ,htargets⟩ := h.exists_signal hq signal
  obtain ⟨a,w',σ',hlock,hothers,hexec,hset,htargets'⟩ := ha w σ hσ h.server htargets
  have hadm : w.Admits socketPolicy a := by
    intro o ho
    rw [hlock, List.mem_singleton] at ho
    subst ho
    refine ⟨fun g hg hs => ?_,fun o ho => ?_⟩
    · obtain rfl := Sigslot.Object.signal.inj (eq_of_shares hs)
      rw [h.firing, Option.mem_toList] at hg
      obtain ⟨⟨p,k⟩,he,heq⟩ := Option.map_eq_some_iff.mp hg
      obtain ⟨rfl,rfl⟩ := Signal.address_inj.mp heq
      exact hne he
    · rw [hothers o ho]
      exact ⟨fun hs => absurd (eq_of_shares hs) nofun,fun g _ hs => absurd (eq_of_shares hs) nofun⟩
  exact ⟨w',σ',.single ⟨a,trivial,Sigslot.World.step_eq_some hadm hexec⟩,hset,h.sets hq hset htargets' hf⟩

/-- A new socket brings signals that are connected to nothing. -/
theorem creates (h : Carries w s) (hq : s.world.live q = false)
    (hl : ∀ r, t.world.live r = true ↔ s.world.live r = true ∨ r = q)
    (hs : t.slots = Function.update s.slots q ⟨none,0,false⟩) (he : t.emitting = s.emitting) :
    ∃ w', (Sigslot.machine socketPolicy).Reaches Machine.Free w w' ∧ w'.calls = w.calls ∧
      (∀ r ≠ q, ∀ k : Signal, w'.signals (k.address r) = w.signals (k.address r)) ∧ Carries w' t := by
  have hfree (k : Signal) : w.signals (k.address q) = none := by
    have hw := h.wired q k
    rwa [hq, if_neg Bool.false_ne_true, Option.map_eq_none_iff] at hw
  set gs : List ℕ := [Signal.read.address q,Signal.write.address q,Signal.connect.address q,Signal.close.address q]
  have hmem (r : Ptr) (k : Signal) : k.address r ∈ gs ↔ r = q := by
    simp only [gs, List.mem_cons, List.not_mem_nil, or_false, Signal.address_inj]
    cases k <;> simp
  have hn : gs.Nodup := by simp [gs, Signal.address_inj]
  obtain ⟨w',hw,hsig,hsenders,hfiring,hcalls,hfault⟩ :=
    Sigslot.World.reaches_newSignals socketPolicy hn w (by simp [gs, hfree])
  have hold (r : Ptr) (hr : r ≠ q) (k : Signal) : w'.signals (k.address r) = w.signals (k.address r) :=
    (hsig _).trans (if_neg fun hm => hr ((hmem r k).mp hm))
  refine ⟨w',hw,hcalls,hold,⟨hsenders ▸ h.server,fun r k => ?_,he ▸ hfiring.trans h.firing,hfault.trans h.fault⟩⟩
  by_cases hr : r = q
  · subst hr
    have hlive : t.world.live r = true := (hl r).mpr (.inr rfl)
    rw [hsig, if_pos ((hmem r k).mpr rfl), hlive, if_pos rfl, hs, Function.update_self]
    cases k <;> rfl
  · have hlive : t.world.live r = s.world.live r := Bool.eq_iff_iff.mpr ((hl r).trans (or_iff_left hr))
    rw [hold r hr, h.wired, hlive, hs, Function.update_of_ne hr]

/-- Where nothing is being emitted, the emission begins and has all the targets before it. -/
theorem begins (h : Carries w s) (he : s.emitting = none) (hl : s.world.live q = true) (signal : Signal) :
    ∃ w', (Sigslot.machine socketPolicy).step w (.emit (signal.address q)) = some w' ∧
      Emits w' { s with emitting := some (q,signal) } q signal ((s.slots q).targets signal)
        ((w.callsOf (signal.address q)).map Sigslot.Connection.target ++ (s.slots q).targets signal) := by
  obtain ⟨σ,hσ,htargets⟩ := h.exists_signal hl signal
  have hidle : w.firing = [] := by
    rw [h.firing, he]
    rfl
  have hstep : (Sigslot.machine socketPolicy).step w (.emit (signal.address q)) =
      some { w.setSignal (signal.address q) (some σ.begin) with firing := [signal.address q] } := by
    refine Sigslot.World.step_eq_some (fun o _ => ⟨fun g hg => ?_,fun o ho => ?_⟩) ?_
    · exact absurd (hidle ▸ hg) List.not_mem_nil
    · exact absurd ho List.not_mem_nil
    · simp [Sigslot.World.exec, Sigslot.World.emit, hσ, hidle]
  refine ⟨_,hstep,⟨⟨h.server,fun r k => ?_,rfl,h.fault⟩,hl,rfl,?_,rfl⟩⟩
  · refine Eq.trans ?_ (h.wired r k)
    by_cases hr : k.address r = signal.address q
    · rw [hr, hσ]
      simp [Sigslot.World.setSignal]
    · simp [Sigslot.World.setSignal, hr]
  · simp [Sigslot.World.setSignal, Sigslot.Signal.left_begin, htargets]

end Carries

namespace Emits
variable {w w' : Sigslot.World} {s t : HttpServer} {p q : Ptr} {signal signal' : Signal} {left all : List (ℕ × ℕ)}

theorem of_same (h : Emits w s p signal left all) (hl : ∀ q, t.world.live q = s.world.live q) (hs : t.slots = s.slots)
    (he : t.emitting = s.emitting) : Emits w t p signal left all :=
  ⟨h.carries.of_same hl hs he,(hl p).trans h.live,he.trans h.emitting,h.remaining,h.calls⟩

theorem firing (h : Emits w s p signal left all) : w.firing = [signal.address p] := by
  rw [h.carries.firing, h.emitting]
  rfl

/-- What neither calls nor touches the signal leaves its emission where it is. -/
theorem of_carries (h : Emits w s p signal left all) (hc : Carries w' t) (hl : t.world.live p = true)
    (he : t.emitting = s.emitting) (hs : w'.signals (signal.address p) = w.signals (signal.address p))
    (hcalls : w'.calls = w.calls) : Emits w' t p signal left all := by
  refine ⟨hc,hl,he.trans h.emitting,hs ▸ h.remaining,?_⟩
  rw [Sigslot.World.callsOf, hcalls]
  exact h.calls

theorem edits (h : Emits w s p signal left all) (q : Ptr) (signal' : Signal) (f : Slots → Slots)
    (hne : (q,signal') ≠ (p,signal)) (hq : s.world.live q = true)
    (ha : Sigslot.World.Edits (signal'.address q) serverObject ((s.slots q).targets signal')
      ((f (s.slots q)).targets signal'))
    (hf : ∀ k, k ≠ signal' → (f (s.slots q)).targets k = (s.slots q).targets k) :
    ∃ w', (Sigslot.machine socketPolicy).Reaches Machine.Free w w' ∧ Emits w' (s.setSlots q f) p signal left all := by
  have hother : s.emitting ≠ some (q,signal') := by
    rw [h.emitting]
    exact fun he => hne (Option.some.inj he).symm
  obtain ⟨w',σ,hw,hset,hc⟩ := h.carries.edits q signal' f hother hq ha hf
  refine ⟨w',hw,h.of_carries hc h.live rfl ?_ hset.calls⟩
  rw [hset.signals, Function.update_of_ne]
  intro he
  obtain ⟨rfl,rfl⟩ := Signal.address_inj.mp he
  exact hne rfl

theorem creates (h : Emits w s p signal left all) (hq : s.world.live q = false)
    (hl : ∀ r, t.world.live r = true ↔ s.world.live r = true ∨ r = q)
    (hs : t.slots = Function.update s.slots q ⟨none,0,false⟩) (he : t.emitting = s.emitting) :
    ∃ w', (Sigslot.machine socketPolicy).Reaches Machine.Free w w' ∧ Emits w' t p signal left all := by
  have hne : p ≠ q := by
    rintro rfl
    exact absurd (hq.symm.trans h.live) (by simp)
  obtain ⟨w',hw,hcalls,hold,hc⟩ := h.carries.creates hq hl hs he
  exact ⟨w',hw,h.of_carries hc ((hl p).mpr (.inl h.live)) he (hold p hne signal) hcalls⟩

/-- The next target is called, and its handler begins. -/
theorem calls_next {x : ℕ × ℕ} (h : Emits w s p signal (x :: left) all) (hx : x.1 = serverObject) :
    ∃ w', (Sigslot.machine socketPolicy).Reaches Machine.Free w w' ∧ Emits w' s p signal left all := by
  obtain ⟨σ,hσ,hleft⟩ := Option.map_eq_some_iff.mp h.remaining
  obtain ⟨w',σ',hstep,hsig,htargets,hleft',hsenders,hfiring,hfault,hcalls⟩ :=
    Sigslot.World.next_calls socketPolicy h.firing hσ hleft (hx ▸ h.carries.server)
  refine ⟨w',.single ⟨.next,trivial,hstep⟩,⟨?_,fun r k => ?_,hfiring.trans h.carries.firing,hfault.trans h.carries.fault⟩,
    h.live,h.emitting,?_,?_⟩
  · rw [hsenders]
    exact h.carries.server
  · rw [← h.carries.wired r k, hsig]
    by_cases he : k.address r = signal.address p
    · rw [he, Function.update_self, hσ, Option.map_some, Option.map_some, htargets]
    · rw [Function.update_of_ne he]
  · rw [hsig, Function.update_self, Option.map_some, hleft']
  · rw [hcalls, List.append_assoc]
    exact h.calls

end Emits

namespace Emitted
variable {w₀ : Sigslot.World} {response : Response} {s t : HttpServer} {p q : Ptr} {signal signal' : Signal}
  {left all : List (ℕ × ℕ)}

theorem of_same (h : Emitted w₀ p signal left all s) (hl : ∀ q, t.world.live q = s.world.live q)
    (hs : t.slots = s.slots) (he : t.emitting = s.emitting) (hh : t.hung = s.hung) :
    Emitted w₀ p signal left all t := by
  obtain ⟨w,hw,hemits,hung⟩ := h
  exact ⟨w,hw,hemits.of_same hl hs he,hh ▸ hung⟩

theorem live (h : Emitted w₀ p signal left all s) : s.world.live p = true := by
  obtain ⟨w,-,hemits,-⟩ := h
  exact hemits.live

/-- A connect or disconnect runs, or locks the mutex of the signal being emitted. -/
theorem locked (h : Emitted w₀ p signal left all s) {f : Slots → Slots} (hk : signal'.locks = true)
    (hq : s.world.live q = true) (ha : ∀ c : Slots, Sigslot.World.Edits (signal'.address q) serverObject
      (c.targets signal') ((f c).targets signal'))
    (hf : ∀ (c : Slots) k, k ≠ signal' → (f c).targets k = c.targets k) :
    Emitted w₀ p signal left all (s.locked q signal' f) := by
  obtain ⟨w,hw,hemits,hung⟩ := h
  unfold HttpServer.locked
  split
  · rename_i he
    refine ⟨w,hw,hemits.of_same (fun _ => rfl) rfl rfl,fun _ => ?_⟩
    cases hemits.emitting.symm.trans he
    exact hk
  · rename_i he
    have hne : (q,signal') ≠ (p,signal) := fun heq => he (hemits.emitting.trans (congrArg some heq.symm))
    obtain ⟨w',hw',hemits'⟩ := hemits.edits _ _ _ hne hq (ha _) (hf _)
    exact ⟨w',hw.trans hw',hemits',hung⟩

theorem connectWrite (h : Emitted w₀ p signal left all s) : Emitted w₀ p signal left all (s.connectWrite p) := by
  refine h.locked rfl h.live (fun c => ?_) fun c k hk => c.targets_setWrite _ hk
  have ha := Sigslot.World.connect_edits (Signal.write.address p) serverObject 2 (c.targets .write)
  rwa [show c.targets .write ++ [(serverObject,2)] = List.replicate (c.write + 1) onWriteTarget from
    List.replicate_succ'.symm] at ha

theorem disconnectWrite (h : Emitted w₀ p signal left all s) :
    Emitted w₀ p signal left all (s.disconnectWrite p) := by
  refine h.locked rfl h.live (fun c => ?_) fun c k hk => c.targets_setWrite _ hk
  have ha := Sigslot.World.disconnect_edits (Signal.write.address p) serverObject (c.targets_server .write)
  rwa [show (c.targets .write).tail = List.replicate (c.write - 1) onWriteTarget from List.tail_replicate] at ha

theorem onWrite (h : Emitted w₀ p signal left all s) (sends : List SendOutcome) :
    Emitted w₀ p signal left all (s.onWrite response p sends).1 := by
  unfold HttpServer.onWrite
  dsimp only
  set x := (Exchange.writeLoop response p sends 0 (s.exchange p)).1 with hx
  have hlive (q : Ptr) : x.world.live q = s.world.live q :=
    Exchange.writeLoop_rule (I := fun w => w.live q = s.world.live q) response
      (fun w cb res hw => (World.keeps_send (steady_socketFd q p) cb res).live_eq.trans hw) sends 0 (s.exchange p) rfl
  have hu : Emitted w₀ p signal left all
      { s.setWorld x.world with handed := Function.update s.handed p x.handed } :=
    h.of_same hlive rfl rfl rfl
  split
  · exact hu.disconnectWrite
  · exact hu

theorem onRead (h : Emitted w₀ p signal left all s) (recvs : List (Except Errno Nat)) (sends : List SendOutcome) :
    Emitted w₀ p signal left all (s.onRead response p recvs sends) := by
  refine HttpServer.onRead_steps ?_ (fun u hu => hu.connectWrite) fun u hu => hu.onWrite sends
  refine h.of_same (fun q => ?_) rfl rfl rfl
  exact Exchange.readLoop_rule (I := fun w => w.live q = s.world.live q)
    (fun w res hw => (World.keeps_recv (steady_socketFd q p) _ res).live_eq.trans hw) recvs s.world 0 rfl

/-- The four signals of a client, and the two subscriptions to them. -/
theorem welcome (h : Emitted w₀ p .read left all s) (hh : s.hung = false) (hq : s.world.live q = false)
    {w : World} (hl : ∀ r, w.live r = true ↔ s.world.live r = true ∨ r = q) :
    Emitted w₀ p .read left all ((s.setWorld w).welcome q) ∧ ((s.setWorld w).welcome q).hung = false := by
  have hne : q ≠ p := by
    rintro rfl
    exact absurd (hq.symm.trans h.live) (by simp)
  obtain ⟨w',hw',hemits,hung⟩ := h
  set s₁ : HttpServer := (s.setWorld w).setSlots q fun _ => ⟨none,0,false⟩ with hs₁
  have hlive₁ : s₁.world.live q = true := (hl q).mpr (.inr rfl)
  obtain ⟨w₁,hw₁,h₁⟩ := hemits.creates (t := s₁) hq hl rfl rfl
  have hslots₁ : s₁.slots q = ⟨none,0,false⟩ := Function.update_self ..
  obtain ⟨w₂,hw₂,h₂⟩ := h₁.edits q .read (fun c => { c with read := some .onRead })
    (by simp [hne]) hlive₁ (by
      rw [hslots₁]
      exact Sigslot.World.connect_edits _ _ Reader.onRead.method []) fun k hk => Slots.targets_setRead _ _ hk
  set s₂ : HttpServer := s₁.setSlots q fun c => { c with read := some .onRead } with hs₂
  have hslots₂ : s₂.slots q = ⟨some .onRead,0,false⟩ := by
    have hself : s₂.slots q = { s₁.slots q with read := some .onRead } := Function.update_self ..
    rw [hself, hslots₁]
  obtain ⟨w₃,hw₃,h₃⟩ := h₂.edits q .close (fun c => { c with close := true })
    (by simp) hlive₁ (by
      rw [hslots₂]
      exact Sigslot.World.connect_edits _ _ 3 []) fun k hk => Slots.targets_setClose _ _ hk
  rw [HttpServer.welcome_eq (s := s.setWorld w) hne hemits.emitting hh]
  refine ⟨⟨w₃,((hw'.trans hw₁).trans hw₂).trans hw₃,h₃.of_same (fun _ => rfl) ?_ rfl,hung⟩,hh⟩
  change Function.update s.slots q _ = Function.update s₂.slots q _
  rw [hslots₂]
  simp [hs₂, hs₁, HttpServer.setSlots, HttpServer.setWorld]

theorem onAccept (h : Emitted w₀ p .read left all s) (hh : s.hung = false) {accepts : List AcceptAnswer}
    (ht : s.onAccept p accepts = some t) : Emitted w₀ p .read left all t ∧ t.hung = false := by
  refine HttpServer.acceptLoop_rule_of_result
    (J := fun u => Emitted w₀ p .read left all u ∧ u.hung = false) ?_ _ accepts s ⟨h,hh⟩ ht
  rintro u a ⟨hu,hh⟩ hr
  obtain ⟨hr,-⟩ := Bool.and_eq_true_iff.mp hr
  obtain ⟨-,hn⟩ := Bool.and_eq_true_iff.mp hr
  have hq : u.world.live a.address = false := by
    by_contra hl
    exact World.ne_of_vacant ((Bool.not_eq_false _).mp hl) hn rfl
  have hlive (r : Ptr) : (u.world.accept p a.res a.address a.soType a.linger).1.live r = true ↔
      u.world.live r = true ∨ ((u.world.accept p a.res a.address a.soType a.linger).2 = true ∧ r = a.address) :=
    live_accept hn
  split
  · rename_i hok
    exact hu.welcome hh hq fun r => by rw [hlive r, and_iff_right hok]
  · rename_i hok
    refine ⟨hu.of_same (fun r => Bool.eq_iff_iff.mpr ?_) rfl rfl rfl,hh⟩
    change (u.world.accept p a.res a.address a.soType a.linger).1.live r = true ↔ _
    rw [hlive r]
    simp [hok]

/-- The emission of SignalWriteEvent calls OnWrite once for each of its connections unless the thread hangs. -/
theorem emitWrite (n : ℕ) (sends : List SendOutcome) (h : Emitted w₀ p .write (List.replicate n onWriteTarget) all s) :
    ∃ left, Emitted w₀ p .write left all (HttpServer.emitWrite response p n sends s) ∧
      ((HttpServer.emitWrite response p n sends s).hung = false → left = []) := by
  induction n generalizing sends s with
  | zero => exact ⟨[],h,fun _ => rfl⟩
  | succ n ih =>
    obtain ⟨w,hw,hemits,hung⟩ := h
    rw [List.replicate_succ] at hemits
    obtain ⟨w',hw',hemits'⟩ := hemits.calls_next rfl
    have hone : Emitted w₀ p .write (List.replicate n onWriteTarget) all (s.onWrite response p sends).1 :=
      Emitted.onWrite ⟨w',hw.trans hw',hemits',hung⟩ sends
    unfold HttpServer.emitWrite
    dsimp only
    split
    · rename_i hh
      exact ⟨_,hone,fun hrun => absurd (hh.symm.trans hrun) (by simp)⟩
    · exact ih _ hone

/-- The slots of a signal are called in turn, all of them unless the thread hangs. -/
theorem callSlots {io : Answers} (h : Emitted w₀ p signal ((s.slots p).targets signal) all s) (hh : s.hung = false)
    (ht : HttpServer.callSlots response p signal io s = some t) :
    ∃ left, Emitted w₀ p signal left all t ∧ (t.hung = false → left = []) := by
  have hcall {x : ℕ × ℕ} (hx : x.1 = serverObject) (hs : (s.slots p).targets signal = [x]) :
      Emitted w₀ p signal [] all s := by
    obtain ⟨w,hw,hemits,hung⟩ := h
    rw [hs] at hemits
    obtain ⟨w',hw',hemits'⟩ := hemits.calls_next hx
    exact ⟨w',hw.trans hw',hemits',hung⟩
  unfold HttpServer.callSlots at ht
  cases signal with
  | read =>
    dsimp only at ht
    split at ht
    · rename_i hslot
      cases ht
      refine ⟨_,h,fun _ => ?_⟩
      simp [Slots.targets, hslot]
    · rename_i hslot
      have hone := hcall (x := (serverObject,Reader.onAccept.method)) rfl (by simp [Slots.targets, hslot])
      exact ⟨[],(hone.onAccept hh ht).1,fun _ => rfl⟩
    · rename_i hslot
      cases ht
      have hone := hcall (x := (serverObject,Reader.onRead.method)) rfl (by simp [Slots.targets, hslot])
      exact ⟨[],hone.onRead _ _,fun _ => rfl⟩
  | write =>
    cases ht
    exact Emitted.emitWrite _ _ h
  | connect =>
    cases ht
    exact ⟨_,h,fun _ => rfl⟩
  | close =>
    cases ht
    split
    · rename_i hslot
      have hone := hcall (x := onCloseTarget) rfl (by simp [Slots.targets, hslot])
      exact ⟨[],hone.of_same (fun _ => live_close) rfl rfl rfl,fun _ => rfl⟩
    · rename_i hslot
      refine ⟨_,h,fun _ => ?_⟩
      simp [Slots.targets, hslot]

end Emitted

/-- What is so of the signals between two steps of the server. -/
structure Subscribed (w : Sigslot.World) (s : HttpServer) : Prop where
  carries : Carries w s
  ended : s.hung = false → s.emitting = none
  blocked : s.hung = true → ∃ p signal, s.emitting = some (p,signal) ∧ signal.locks = true

/-- An emission of the server is one of the signal: it calls what the server takes to be connected. -/
theorem emission_subscribed {w : Sigslot.World} {response : Response} {s t : HttpServer} {p : Ptr} {signal : Signal}
    {io : Answers} (h : Carries w s) (he : s.emitting = none) (hh : s.hung = false) (hl : s.world.live p = true)
    (ht : HttpServer.emit response p signal io s = some t) :
    ∃ w', (Sigslot.machine socketPolicy).Reaches Machine.Free w w' ∧ Subscribed w' t ∧
      (t.hung = false → (w'.callsOf (signal.address p)).map Sigslot.Connection.target =
        (w.callsOf (signal.address p)).map Sigslot.Connection.target ++ (s.slots p).targets signal) := by
  obtain ⟨u,hu,rfl⟩ := Option.map_eq_some_iff.mp ht
  obtain ⟨w₁,hemit,hstart⟩ := h.begins he hl signal
  have hbegun : Emitted w₁ p signal ((s.slots p).targets signal)
      ((w.callsOf (signal.address p)).map Sigslot.Connection.target ++ (s.slots p).targets signal)
      { s with emitting := some (p,signal) } := ⟨w₁,.refl,hstart,fun hf => absurd (hh.symm.trans hf) (by simp)⟩
  obtain ⟨left,⟨w₂,hw₂,hemits,hung⟩,hleft⟩ := hbegun.callSlots hh hu
  have hreach := Relation.ReflTransGen.head ⟨_,trivial,hemit⟩ hw₂
  cases hrun : u.hung with
  | true =>
    rw [if_pos rfl]
    refine ⟨w₂,hreach,⟨hemits.carries,fun hf => ?_,fun _ => ⟨p,signal,hemits.emitting,hung hrun⟩⟩,fun hf => ?_⟩
    · exact absurd (hrun.symm.trans hf) (by simp)
    · exact absurd (hrun.symm.trans hf) (by simp)
  | false =>
    obtain rfl := hleft hrun
    rw [if_neg Bool.false_ne_true]
    obtain ⟨σ₂,hσ₂,hnil⟩ := Option.map_eq_some_iff.mp hemits.remaining
    have hend : (Sigslot.machine socketPolicy).step w₂ .next = some { w₂ with firing := [] } :=
      Sigslot.World.next_ends hemits.firing hσ₂ hnil
    refine ⟨{ w₂ with firing := [] },hreach.tail ⟨_,trivial,hend⟩,⟨?_,fun _ => rfl,?_⟩,fun _ => ?_⟩
    · exact ⟨hemits.carries.server,hemits.carries.wired,rfl,hemits.carries.fault⟩
    · exact fun hf => absurd hf Bool.false_ne_true
    · have hcalls := hemits.calls
      rwa [List.append_nil] at hcalls

theorem HttpTurn.subscribed {w : Sigslot.World} {response : Response} {s t : HttpServer} {a : HttpAction}
    (h : HttpTurn response s a t) (hs : loopMachine.Reachable Regular s.loop) (hh : s.hung = false)
    (hi : Subscribed w s) :
    ∃ w', (Sigslot.machine socketPolicy).Reaches Machine.Free w w' ∧ Subscribed w' t := by
  cases h with
  | quiet he hl =>
    have hkeep := keeps_of_quiet hs hl
    exact ⟨w,.refl,hi.carries.of_same (fun q => (hkeep q).live_eq) rfl rfl,hi.ended,hi.blocked⟩
  | @emits _ rest key p ff err handler signal todo io he hc hsig hl ht =>
    have hlive : s.world.live p = true := live_of_onEvent hs hc
    set u : HttpServer := { s with loop := ⟨s.world.onEventStage p ff signal,.onEvent rest key p ff err true todo⟩ }
      with hu
    have hsame (q : Ptr) : u.world.live q = s.world.live q :=
      (World.keeps_onEventStage (steady_socketFd q p) ff signal).live_eq
    obtain ⟨w',hw',hsub,-⟩ := emission_subscribed (s := u) (hi.carries.of_same hsame rfl rfl) (hi.ended hh) hh
      ((hsame p).trans hlive) ht
    exact ⟨w',hw',hsub⟩

/-- Initialize makes the has_slots object and the listener, and connects OnAccept. -/
theorem initialize_subscribed {a : Startup} {w : World} (h : a.initialize = some (w,true)) :
    ∃ v, (Sigslot.machine socketPolicy).Reachable Machine.Free v ∧ Subscribed v (a.server w) := by
  have hlive (q : Ptr) : w.live q = true ↔ q = a.listener := by
    rw [show w = (a.server w).world from rfl, (initialize_keepsAll h).live q, server_clients]
    simp
  set s₀ : HttpServer := { a.server w with
    loop := ⟨World.start a.signaler a.afd,.idle⟩, slots := fun _ => ⟨none,0,false⟩ } with hs₀
  set s₁ : HttpServer := { a.server w with slots := fun _ => ⟨none,0,false⟩ } with hs₁
  set v₀ : Sigslot.World := Sigslot.World.start.setSenders serverObject (some []) with hv₀
  have hstep : (Sigslot.machine socketPolicy).step .start (.newSlots serverObject) = some v₀ :=
    Sigslot.World.step_eq_some (Sigslot.World.admits_of_unlocked rfl) rfl
  have h₀ : Carries v₀ s₀ := by
    refine ⟨?_,fun q k => ?_,rfl,rfl⟩
    · simp [hv₀, Sigslot.World.setSenders]
    · rw [show s₀.world.live q = false from live_start a.signaler q a.afd]
      rfl
  obtain ⟨v₁,hv₁,-,-,h₁⟩ := h₀.creates (t := s₁) (live_start a.signaler a.listener a.afd)
    (fun r => by
      rw [show s₀.world.live r = false from live_start a.signaler r a.afd]
      exact (hlive r).trans (by simp))
    (by simp [hs₀, hs₁]) rfl
  obtain ⟨v₂,-,hv₂,-,h₂⟩ := h₁.edits a.listener .read (fun c => { c with read := some .onAccept })
    (by simp [hs₁, Startup.server]) ((hlive a.listener).mpr rfl)
    (Sigslot.World.connect_edits _ _ Reader.onAccept.method []) fun k hk => Slots.targets_setRead _ _ hk
  refine ⟨v₂,⟨_,rfl,(Relation.ReflTransGen.head ⟨_,trivial,hstep⟩ hv₁).trans hv₂⟩,h₂.of_same (fun _ => rfl) rfl rfl,
    fun _ => rfl,fun hf => absurd hf Bool.false_ne_true⟩

/-- Every run of the server is a run of signals with one has_slots object: they have the connections that the server
takes its sockets to have, nothing reaches a destroyed object, and where the thread hangs no action that locks the
signal being emitted has a step. -/
theorem slots_are_connections {response : Response} {ok : HttpServer → HttpAction → Prop} {s : HttpServer}
    (h : (httpMachine response).Reachable ok s) :
    ∃ w, (Sigslot.machine socketPolicy).Reachable Machine.Free w ∧ Carries w s ∧
      (s.hung = true → ∃ g ∈ w.firing, ∀ a, .signal g ∈ a.locked → (Sigslot.machine socketPolicy).step w a = none) := by
  have hsub : ∃ w, (Sigslot.machine socketPolicy).Reachable Machine.Free w ∧ Subscribed w s := by
    refine (initialized_rule (I := fun s => ∃ w, (Sigslot.machine socketPolicy).Reachable Machine.Free w ∧ Subscribed w s)
      h (fun a w hi => initialize_subscribed hi) ?_).2
    rintro s a t hs hh ⟨w,⟨i,hi,hr⟩,hsub⟩ - ht
    obtain ⟨w',hw',hsub'⟩ := ht.subscribed hs hh hsub
    exact ⟨w',⟨i,hi,hr.trans hw'⟩,hsub'⟩
  obtain ⟨w,hw,hi⟩ := hsub
  refine ⟨w,hw,hi.carries,fun hh => ?_⟩
  obtain ⟨p,signal,he,hlocks⟩ := hi.blocked hh
  have hfiring : signal.address p ∈ w.firing := by
    rw [hi.carries.firing, he]
    exact List.mem_cons_self
  exact ⟨_,hfiring,fun a ha => Sigslot.World.step_firing_eq_none ((signal.locks_iff p).mpr hlocks) hfiring ha⟩

end UServer.Http
