import UServer.Net.NarrowedLengths
import UServer.Net.SockAddrStorage

/-! The peer that RecvFrom reports: the buffer for the address is decoded after every ::recvfrom,
whether or not the kernel has written it. -/
namespace UServer.Net
open Library

/-- What ::recvfrom does: data with the source written into the buffer, data or the end of the stream with
nothing written, or an error. -/
inductive RecvOutcome where
  | data (n : ℕ) (source : SockAddrStorage)
  | noAddress (n : ℕ)
  | failed (e : Errno)

namespace RecvOutcome

def answer : RecvOutcome → Except Errno ℕ
  | .data n _ | .noAddress n => .ok n
  | .failed e => .error e

/-- The source address that the kernel wrote in this call. -/
def source : RecvOutcome → Option SockAddrStorage
  | .data _ source => some source
  | .noAddress _ | .failed _ => none

/-- The buffer after the call; without an address it keeps the bytes it held. -/
def storage (o : RecvOutcome) (stale : SockAddrStorage) : SockAddrStorage := o.source.getD stale

end RecvOutcome

namespace World
variable (w : World) (p : Ptr) (unset : Indeterminate) (o : RecvOutcome) (stale : SockAddrStorage)

/-- What ::recvfrom does on the dispatcher's descriptor. -/
def received : RecvOutcome :=
  match w.answer p o.answer with
  | .ok _ => o
  | .error e => .failed e

/-- RecvFrom with an out parameter: the world and what is returned, and what the out parameter holds. -/
def recvFromAddr (outAddr : Option SocketAddress) : (World × Int) × Option SocketAddress :=
  (w.recvFrom p o.answer,readFromSocketOutAddr unset ((w.received p o).storage stale) outAddr)

/-- The out parameter is unchanged or the source that the kernel wrote, and unchanged after an error. -/
def ReportsRealPeer : Prop :=
  ∀ out : SocketAddress, ∃ b, (w.recvFromAddr p unset o stale (some out)).2 = some b ∧
    (b = out ∨ ∃ s, (w.received p o).source = some s ∧ SockAddrStorage.endpoint s = some b.endpoint) ∧
    ((w.recvFromAddr p unset o stale (some out)).1.2 = -1 → b = out)

/-- The source that was written survives the decoder, or the bytes left in the buffer name no family. -/
def BufferSafe : Prop :=
  match (w.received p o).source with
  | some s => ∀ e, SockAddrStorage.endpoint s = some e → SurvivesDecoding unset e
  | none => SockAddrStorage.endpoint stale = none

end World

section Decode
variable (unset : Indeterminate) {s : SockAddrStorage}

theorem readFromSocketOutAddr_of_none (h : s.endpoint = none) (out : SocketAddress) :
    readFromSocketOutAddr unset s (some out) = some out := by
  have h4 : s.family ≠ AddressFamily.inet.code := by
    intro hf
    rw [SockAddrStorage.endpoint, if_pos hf] at h
    cases h
  have h6 : s.family ≠ AddressFamily.inet6.code := by
    intro hf
    rw [SockAddrStorage.endpoint, if_neg h4, if_pos hf] at h
    cases h
  simp [readFromSocketOutAddr, socketAddressFromSockAddrStorage, h4, h6]

/-- A decoded address has no host text. -/
theorem hostname_readFromSocketOutAddr {e : Endpoint} (h : s.endpoint = some e) (out : SocketAddress) :
    ∃ b, readFromSocketOutAddr unset s (some out) = some b ∧ b.hostname = [] ∧
      (b.endpoint = e ↔ SurvivesDecoding unset e) := by
  obtain ⟨b,hb,he⟩ := fromSockAddrStorage_endpoint unset s out e h
  refine ⟨b,by simp [readFromSocketOutAddr, hb],?_,he⟩
  rw [socketAddressFromSockAddrStorage] at hb
  split at hb
  · cases hb
    rfl
  · split at hb
    · cases hb
      rfl
    · cases hb

end Decode

/-- An address with a host text. -/
def hostSample : SocketAddress := { SocketAddress.clear with hostname := [0] }

namespace World
variable (w : World) (p : Ptr) (unset : Indeterminate) (o : RecvOutcome) (stale : SockAddrStorage)

/-- Minus one is returned exactly after an error, and then nothing was written. -/
theorem source_of_failed (h : returned (w.answer p o.answer) = -1) : (w.received p o).source = none := by
  rw [received]
  cases ha : w.answer p o.answer with
  | ok n =>
    rw [ha] at h
    simp only [returned] at h
    omega
  | error e => rfl

section
variable {w p unset o stale}

/-- A buffer that names no family is not decoded. -/
theorem reports_of_undecoded (he : SockAddrStorage.endpoint ((w.received p o).storage stale) = none) :
    w.ReportsRealPeer p unset o stale := by
  intro out
  have hb := readFromSocketOutAddr_of_none unset he out
  exact ⟨out,by rw [recvFromAddr, hb],.inl rfl,fun _ => rfl⟩

/-- A decoded buffer replaces the host text, so that it must be what the kernel wrote. -/
theorem source_of_decoded (h : w.ReportsRealPeer p unset o stale) {e : Endpoint}
    (he : SockAddrStorage.endpoint ((w.received p o).storage stale) = some e) :
    ∃ s b, (w.received p o).source = some s ∧ s.endpoint = some (SocketAddress.endpoint b) ∧
      (b.endpoint = e ↔ SurvivesDecoding unset e) := by
  obtain ⟨b,hb,hreal,-⟩ := h hostSample
  obtain ⟨b',hb',hn,hsurvives⟩ := hostname_readFromSocketOutAddr unset he hostSample
  rw [recvFromAddr, hb'] at hb
  cases hb
  rcases hreal with rfl | ⟨s,hs,hse⟩
  · cases hn
  · exact ⟨s,_,hs,hse,hsurvives⟩

end

/-- RecvFrom reports real peers only exactly where the buffer it decodes is safe. -/
theorem recvFrom_reports_iff : w.ReportsRealPeer p unset o stale ↔ w.BufferSafe p unset o stale := by
  rw [BufferSafe]
  cases hs : (w.received p o).source with
  | none =>
    have hst : (w.received p o).storage stale = stale := by rw [RecvOutcome.storage, hs, Option.getD_none]
    constructor
    · intro h
      by_contra he
      obtain ⟨e,he⟩ := Option.ne_none_iff_exists'.mp he
      rw [← hst] at he
      obtain ⟨s,b,hs',-⟩ := source_of_decoded h he
      rw [hs] at hs'
      cases hs'
    · intro he
      refine reports_of_undecoded ?_
      rw [hst]
      exact he
  | some s =>
    have hst : (w.received p o).storage stale = s := by rw [RecvOutcome.storage, hs, Option.getD_some]
    constructor
    · intro h e he
      rw [← hst] at he
      obtain ⟨s',b,hs',he',hsurvives⟩ := source_of_decoded h he
      rw [hst] at he
      rw [hs] at hs'
      cases hs'
      rw [he] at he'
      exact hsurvives.mp (Option.some.inj he').symm
    · intro h
      cases he : s.endpoint with
      | none =>
        rw [← hst] at he
        exact reports_of_undecoded he
      | some e =>
        intro out
        have hfailed : (w.recvFromAddr p unset o stale (some out)).1.2 ≠ -1 := by
          intro hr
          rw [recvFromAddr, returned_recvFrom] at hr
          rw [w.source_of_failed p o hr] at hs
          cases hs
        obtain ⟨b,hb,-,hsurvives⟩ := hostname_readFromSocketOutAddr unset he out
        refine ⟨b,by rw [recvFromAddr, hst, hb],.inr ⟨s,hs,?_⟩,fun hr => absurd hr hfailed⟩
        rw [he, hsurvives.mpr (h e he)]

/-- A stream socket that is connected. -/
def streamSample : World :=
  (World.start 0 3).setSocket 1 ⟨5,false,2,0,.connected,deRead ||| deWrite,none⟩

/-- The address 127.0.0.1 at port 80, left in the buffer by an earlier call. -/
def staleSample : SockAddrStorage := (SocketAddress.clear.setIP (.ofHostOrder 0x7f000001)).toSockAddrStorage.1

/-- A RecvFrom that would block reports the peer of an earlier call, with its bytes reversed. -/
theorem recvFrom_reports_stale :
    (streamSample.recvFromAddr 1 ⟨0,false⟩ (.failed ewouldblock) staleSample (some .clear)).1.2 = -1 ∧
      ((streamSample.recvFromAddr 1 ⟨0,false⟩ (.failed ewouldblock) staleSample (some .clear)).2.map
        SocketAddress.endpoint) = some ⟨.inet,[1,0,0,127],0,0⟩ ∧
      ¬ streamSample.ReportsRealPeer 1 ⟨0,false⟩ (.failed ewouldblock) staleSample := by
  refine ⟨by decide +kernel,by decide +kernel,fun h => ?_⟩
  obtain ⟨b,hb,-,hout⟩ := h .clear
  obtain rfl := hout (by decide +kernel)
  have hm := congrArg (Option.map SocketAddress.endpoint) hb
  exact absurd hm (by decide +kernel)

end World
end UServer.Net
