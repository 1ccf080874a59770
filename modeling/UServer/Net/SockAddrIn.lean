import UServer.Net.HostText

/-! The sockaddr_in encoder beside its decoder and beside the encoder for sockaddr_storage. -/
namespace UServer.Net
open Library

/-- ToSockAddr: the family stored for an address that is not IPv4 is overwritten. -/
def SocketAddress.toSockAddr (a : SocketAddress) : SockAddrIn :=
  let saddr : SockAddrIn := ⟨0,0,0⟩
  let saddr := if a.ip.family ≠ .inet then { saddr with family := AddressFamily.unspec.code } else saddr
  let saddr := { saddr with family := AddressFamily.inet.code }
  let saddr := { saddr with port := byteSwap a.port }
  if a.ip.isAny then { saddr with addr := IPAddress.inaddrAny }
  else { saddr with addr := a.ip.ipv4Address }

namespace SocketAddress
variable (a b : SocketAddress)

@[simp] theorem family_toSockAddr : a.toSockAddr.family = AddressFamily.inet.code := by
  simp only [toSockAddr]
  split <;> rfl

@[simp] theorem port_toSockAddr : a.toSockAddr.port = byteSwap a.port := by
  simp only [toSockAddr]
  split <;> rfl

theorem addr_toSockAddr : a.toSockAddr.addr = if a.ip.isAny then 0 else a.ip.ipv4Address := by
  simp only [toSockAddr]
  split <;> rfl

/-- The any address of IPv4 is the one with four zero bytes, so the special case changes nothing for it. -/
theorem addr_toSockAddr_inet (h : a.ip.family = .inet) : a.toSockAddr.addr = a.ip.ipv4Address := by
  rw [addr_toSockAddr]
  split
  · rename_i hany
    have hv : a.ip.v4Bytes = littleEndian (byteSwap IPAddress.inaddrAny) := by
      rw [IPAddress.isAny, h] at hany
      simpa [IPAddress.equal, IPAddress.ofHostOrder, h] using hany
    rw [IPAddress.ipv4Address, hv, Equiv.symm_apply_apply]
    decide
  · rfl

/-- The decoder accepts what the encoder makes of every address, and reads it as IPv4. -/
theorem fromSockAddr_toSockAddr : b.fromSockAddr a.toSockAddr =
    (true,{ b with ip := .ofInAddr a.toSockAddr.addr, port := a.port, literal := false }) := by
  rw [fromSockAddr, if_neg (not_not.mpr a.family_toSockAddr), port_toSockAddr, byteSwap_byteSwap]
  simp [setIP, setPort, IPAddress.ofHostOrder, IPAddress.ofInAddr]

/-- Decoding into b accepts exactly what an IPv4 address was encoded to, with the same address and port,
and both encoders write the same family, port and address for IPv4. -/
structure CodecSound : Prop where
  accepts : (b.fromSockAddr a.toSockAddr).1 = true ↔ a.ip.family = .inet
  decodes : (b.fromSockAddr a.toSockAddr).1 = true →
    (b.fromSockAddr a.toSockAddr).2.ip.equal a.ip = true ∧ (b.fromSockAddr a.toSockAddr).2.port = a.port
  encoders : a.ip.family = .inet →
    a.toSockAddr.family = SockAddrStorage.family a.toSockAddrStorage.1 ∧
      a.toSockAddr.port = SockAddrStorage.port a.toSockAddrStorage.1 ∧
      a.toSockAddr.addr = SockAddrStorage.sinAddr a.toSockAddrStorage.1

/-- The sockaddr_in codec is sound exactly for the IPv4 addresses. -/
theorem codec_sound_iff : a.CodecSound b ↔ a.ip.family = .inet := by
  constructor
  · intro h
    exact h.accepts.mp (by rw [fromSockAddr_toSockAddr])
  · intro hf
    have ha := a.addr_toSockAddr_inet hf
    refine ⟨iff_of_true (by rw [fromSockAddr_toSockAddr]) hf,fun _ => ?_,fun _ => ?_⟩
    · rw [fromSockAddr_toSockAddr, ha]
      simp [IPAddress.equal, IPAddress.ofInAddr, IPAddress.ipv4Address, hf]
    · rw [ha, family_toSockAddr, port_toSockAddr]
      simp [toSockAddrStorage, toSockAddrStorageHelper, hf]

/-- The IPv6 address 2001:db8:: with port 80. -/
def inet6Sample : SocketAddress := ⟨[],.ofIn6Addr fun i => ([0x20,0x01,0x0d,0xb8] : List Byte).getD i 0,80,0,false⟩

/-- It is encoded as IPv4 and accepted by the decoder, which reads 32.1.13.184. -/
theorem codec_unsound_inet6 : inet6Sample.ip.family = .inet6 ∧ ∀ b : SocketAddress,
    (b.fromSockAddr inet6Sample.toSockAddr).1 = true ∧
      (b.fromSockAddr inet6Sample.toSockAddr).2.ip.v4AddressAsHostOrderInteger = 0x20010db8 ∧
      ¬ inet6Sample.CodecSound b := by
  refine ⟨rfl,fun b => ?_⟩
  have hd := inet6Sample.fromSockAddr_toSockAddr b
  rw [hd]
  refine ⟨rfl,?_,fun h => ?_⟩
  · change (IPAddress.ofInAddr inet6Sample.toSockAddr.addr).v4AddressAsHostOrderInteger = 0x20010db8
    decide +kernel
  · have hf := h.accepts.mp (by rw [hd])
    cases hf

end SocketAddress
end UServer.Net
