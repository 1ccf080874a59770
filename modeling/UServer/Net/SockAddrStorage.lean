import UServer.Net.SocketAddress
import UServer.Library.ByteImage

/-! The kernel's sockaddr_storage: the encoder, the decoder, and the endpoint
that the bytes denote. Fields lie where sockaddr_in and sockaddr_in6 put them. -/
namespace UServer.Net
open Library

abbrev SockAddrStorage := ByteImage 128

def AddressFamily.code : AddressFamily → Word 2
  | .unspec => 0
  | .inet => 2
  | .inet6 => 10

namespace SockAddrStorage

def family (s : SockAddrStorage) : Word 2 := s.loadWord 0 2 (by decide)

/-- sin_port and sin6_port share one place. -/
def port (s : SockAddrStorage) : Word 2 := s.loadWord 2 2 (by decide)
def sinAddr (s : SockAddrStorage) : InAddr := s.loadWord 4 4 (by decide)
def sin6Addr (s : SockAddrStorage) : In6Addr := s.load 8 16 (by decide)
def sin6ScopeId (s : SockAddrStorage) : Word 4 := s.loadWord 24 4 (by decide)

end SockAddrStorage

/-- The storage filled in, with the length that bind, connect and sendto get. -/
def toSockAddrStorageHelper (ip : IPAddress) (port : Word 2) (scopedId : Word 4) : SockAddrStorage × Nat :=
  let addr := ByteImage.storeWord (fun _ => 0 : SockAddrStorage) 0 ip.family.code
  match ip.family with
  | .inet => ((addr.storeWord 4 ip.ipv4Address).storeWord 2 (byteSwap port), 16)
  | .inet6 => (((addr.store 8 ip.ipv6Address).storeWord 2 (byteSwap port)).storeWord 24 scopedId, 28)
  | .unspec => (addr, 0)

def SocketAddress.toSockAddrStorage (a : SocketAddress) : SockAddrStorage × Nat :=
  toSockAddrStorageHelper a.ip a.port a.scopedId

/-- The decoder; no output stands for a null pointer. The IPv4 branch passes s_addr
to the constructor that takes a host-order integer. -/
def socketAddressFromSockAddrStorage (unset : Indeterminate) (addr : SockAddrStorage) :
    Option SocketAddress → Bool × Option SocketAddress
  | none => (false, none)
  | some out =>
    if addr.family = AddressFamily.inet.code then
      (true, some (out.assign (.ofIP unset (.ofHostOrder addr.sinAddr) (byteSwap addr.port).val)))
    else if addr.family = AddressFamily.inet6.code then
      (true, some (out.assign (.ofIP unset (.ofIn6Addr addr.sin6Addr) (byteSwap addr.port).val)))
    else (false, some out)

/-- The out parameter of Accept: written once ::accept has returned a socket. -/
def acceptOutAddr (unset : Indeterminate) (accepted : Bool) (addr : SockAddrStorage)
    (outAddr : Option SocketAddress) : Option SocketAddress :=
  if accepted && outAddr.isSome then (socketAddressFromSockAddrStorage unset addr outAddr).2 else outAddr

/-- The out parameter of RecvFrom: written after every ::recvfrom. -/
def readFromSocketOutAddr (unset : Indeterminate) (addr : SockAddrStorage)
    (outAddr : Option SocketAddress) : Option SocketAddress :=
  if outAddr.isSome then (socketAddressFromSockAddrStorage unset addr outAddr).2 else outAddr

/-- What both representations name: a family, the address bytes in network order,
a port and, for IPv6, a scope. -/
structure Endpoint where
  family : AddressFamily
  address : List Byte
  port : Word 2
  scope : Word 4
  deriving DecidableEq

def SocketAddress.endpoint (a : SocketAddress) : Endpoint :=
  match a.ip.family with
  | .unspec => ⟨.unspec, [], a.port, 0⟩
  | .inet => ⟨.inet, List.ofFn a.ip.v4Bytes, a.port, 0⟩
  | .inet6 => ⟨.inet6, List.ofFn a.ip.u, a.port, a.scopedId⟩

def SockAddrStorage.endpoint (s : SockAddrStorage) : Option Endpoint :=
  if s.family = AddressFamily.inet.code then
    some ⟨.inet, List.ofFn (littleEndian s.sinAddr), byteSwap s.port, 0⟩
  else if s.family = AddressFamily.inet6.code then
    some ⟨.inet6, List.ofFn s.sin6Addr, byteSwap s.port, s.sin6ScopeId⟩
  else none

section Fields
variable (s : SockAddrStorage)

@[simp] private theorem family_port (x : Word 2) : SockAddrStorage.family (s.storeWord 2 x) = s.family := by
  simp [SockAddrStorage.family, ByteImage.loadWord, ByteImage.storeWord, ByteImage.load_store_disjoint]

@[simp] private theorem family_addr {n : Nat} (off : Nat) (v : Fin n → Byte) (h : 2 ≤ off) :
    SockAddrStorage.family (s.store off v) = s.family := by
  simp [SockAddrStorage.family, ByteImage.loadWord, ByteImage.load_store_disjoint, h]

@[simp] private theorem family_word {n : Nat} (off : Nat) (x : Word n) (h : 2 ≤ off) :
    SockAddrStorage.family (s.storeWord off x) = s.family := family_addr s off _ h

@[simp] private theorem family_same (x : Word 2) : SockAddrStorage.family (s.storeWord 0 x) = x :=
  ByteImage.loadWord_storeWord_same _ _ _ _

@[simp] private theorem port_same (x : Word 2) : SockAddrStorage.port (s.storeWord 2 x) = x :=
  ByteImage.loadWord_storeWord_same _ _ _ _

@[simp] private theorem port_scope (x : Word 4) : SockAddrStorage.port (s.storeWord 24 x) = s.port := by
  simp [SockAddrStorage.port, ByteImage.loadWord, ByteImage.storeWord, ByteImage.load_store_disjoint]

@[simp] private theorem sinAddr_port (x : Word 2) : SockAddrStorage.sinAddr (s.storeWord 2 x) = s.sinAddr := by
  simp [SockAddrStorage.sinAddr, ByteImage.loadWord, ByteImage.storeWord, ByteImage.load_store_disjoint]

@[simp] private theorem sinAddr_same (x : Word 4) : SockAddrStorage.sinAddr (s.storeWord 4 x) = x :=
  ByteImage.loadWord_storeWord_same _ _ _ _

@[simp] private theorem sin6Addr_scope (x : Word 4) : SockAddrStorage.sin6Addr (s.storeWord 24 x) = s.sin6Addr := by
  simp [SockAddrStorage.sin6Addr, ByteImage.storeWord, ByteImage.load_store_disjoint]

@[simp] private theorem sin6Addr_port (x : Word 2) : SockAddrStorage.sin6Addr (s.storeWord 2 x) = s.sin6Addr := by
  simp [SockAddrStorage.sin6Addr, ByteImage.storeWord, ByteImage.load_store_disjoint]

@[simp] private theorem sin6Addr_same (v : In6Addr) : SockAddrStorage.sin6Addr (s.store 8 v) = v :=
  ByteImage.load_store_same _ _ _ _

@[simp] private theorem scope_same (x : Word 4) : SockAddrStorage.sin6ScopeId (s.storeWord 24 x) = x :=
  ByteImage.loadWord_storeWord_same _ _ _ _

/-- The encoder is right: the storage denotes the endpoint of the address. -/
theorem toSockAddrStorage_endpoint (a : SocketAddress) (h : a.ip.family ≠ .unspec) :
    SockAddrStorage.endpoint a.toSockAddrStorage.1 = some a.endpoint := by
  cases hf : a.ip.family with
  | unspec => exact absurd hf h
  | inet =>
    simp [SocketAddress.toSockAddrStorage, toSockAddrStorageHelper, SockAddrStorage.endpoint,
      SocketAddress.endpoint, hf, IPAddress.ipv4Address]
  | inet6 =>
    simp [SocketAddress.toSockAddrStorage, toSockAddrStorageHelper, SockAddrStorage.endpoint,
      SocketAddress.endpoint, hf, IPAddress.ipv6Address, AddressFamily.code]

end Fields

/-- The endpoints that survive the decoder: an IPv4 address whose bytes read the
same backwards, or an IPv6 scope that the unset member happens to hold. -/
def SurvivesDecoding (unset : Indeterminate) (e : Endpoint) : Prop :=
  match e.family with
  | .inet => e.address.reverse = e.address
  | .inet6 => unset.scopedId = e.scope
  | .unspec => False

/-- The decoder accepts every endpoint, and gives it back on the surviving ones only. -/
theorem fromSockAddrStorage_endpoint (unset : Indeterminate) (addr : SockAddrStorage) (out : SocketAddress)
    (e : Endpoint) (he : addr.endpoint = some e) :
    ∃ b, socketAddressFromSockAddrStorage unset addr (some out) = (true, some b) ∧
      (b.endpoint = e ↔ SurvivesDecoding unset e) := by
  unfold SockAddrStorage.endpoint at he
  split at he
  · rename_i hf
    cases he
    refine ⟨_,if_pos hf,?_⟩
    simp only [SocketAddress.endpoint, SocketAddress.assign, SocketAddress.ofIP, SocketAddress.setIP,
      SocketAddress.setPort, IPAddress.ofHostOrder, IPAddress.v4Bytes_storeV4, SurvivesDecoding,
      SocketAddress.portOfInt_val, reverse_littleEndian_iff, Endpoint.mk.injEq, true_and, and_true, List.ofFn_inj]
    exact littleEndian.injective.eq_iff
  · rename_i hf
    split at he
    · rename_i hs
      cases he
      refine ⟨_,(if_neg hf).trans (if_pos hs),?_⟩
      simp only [SocketAddress.endpoint, SocketAddress.assign, SocketAddress.ofIP, SocketAddress.setIP,
        SocketAddress.setPort, IPAddress.ofIn6Addr, SurvivesDecoding, SocketAddress.portOfInt_val,
        Endpoint.mk.injEq, true_and]
    · cases he

/-- The round trip through the storage, and the peers that Accept and RecvFrom
report: each gives back the endpoint exactly when it survives the decoder. -/
theorem sockaddr_storage_roundtrip_iff (unset : Indeterminate) (out : SocketAddress) :
    (∀ a : SocketAddress, a.ip.family ≠ .unspec →
      ((∃ b, socketAddressFromSockAddrStorage unset a.toSockAddrStorage.1 (some out) = (true, some b) ∧
        b.endpoint = a.endpoint) ↔ SurvivesDecoding unset a.endpoint)) ∧
    (∀ addr e, SockAddrStorage.endpoint addr = some e →
      ((∃ b, acceptOutAddr unset true addr (some out) = some b ∧ b.endpoint = e) ↔ SurvivesDecoding unset e) ∧
      ((∃ b, readFromSocketOutAddr unset addr (some out) = some b ∧ b.endpoint = e) ↔
        SurvivesDecoding unset e)) := by
  have hd (addr : SockAddrStorage) (e : Endpoint) (he : addr.endpoint = some e) :
      (∃ b, socketAddressFromSockAddrStorage unset addr (some out) = (true, some b) ∧ b.endpoint = e) ↔
        SurvivesDecoding unset e := by
    obtain ⟨b,hb,hi⟩ := fromSockAddrStorage_endpoint unset addr out e he
    simp only [hb, Prod.mk.injEq, Option.some.injEq, true_and, exists_eq_left', hi]
  refine ⟨fun a ha => hd _ _ (toSockAddrStorage_endpoint a ha),fun addr e he => ?_⟩
  obtain ⟨b,hb,hi⟩ := fromSockAddrStorage_endpoint unset addr out e he
  simp only [acceptOutAddr, readFromSocketOutAddr, Option.isSome_some, Bool.and_true, if_true, hb,
    Option.some.injEq, exists_eq_left', hi, and_self]

/-- 1.2.3.4 at port 80 and ::1 with scope three. -/
def hostOrderSample : SocketAddress := ⟨[], .ofHostOrder 0x01020304, 80, 0, false⟩
def scopedSample : SocketAddress := ⟨[], .ofIn6Addr fun i => if i = 15 then 1 else 0, 80, 3, false⟩

theorem sockaddr_storage_roundtrip_sample :
    (∃ b, socketAddressFromSockAddrStorage ⟨3, false⟩ scopedSample.toSockAddrStorage.1 (some .clear) =
      (true, some b) ∧ b.endpoint = scopedSample.endpoint) ∧
    ∃ b, acceptOutAddr ⟨0, false⟩ true (SocketAddress.clear.setIP (.ofHostOrder 0)).toSockAddrStorage.1
      (some .clear) = some b ∧ b.endpoint = ⟨.inet, [0,0,0,0], 0, 0⟩ :=
  ⟨((sockaddr_storage_roundtrip_iff ⟨3, false⟩ .clear).1 scopedSample (by decide)).mpr rfl,
    (((sockaddr_storage_roundtrip_iff ⟨0, false⟩ .clear).2 _ _ (by decide)).1).mpr rfl⟩

/-- The IPv4 address comes back with its bytes reversed, the IPv6 one without its scope. -/
theorem sockaddr_storage_roundtrip_fails :
    ((socketAddressFromSockAddrStorage ⟨0, false⟩ hostOrderSample.toSockAddrStorage.1 (some .clear)).2.map
      SocketAddress.endpoint = some ⟨.inet, [4,3,2,1], 80, 0⟩ ∧
      hostOrderSample.endpoint = ⟨.inet, [1,2,3,4], 80, 0⟩) ∧
    (socketAddressFromSockAddrStorage ⟨0, false⟩ scopedSample.toSockAddrStorage.1 (some .clear)).2.map
      SocketAddress.endpoint ≠ some scopedSample.endpoint := by
  decide

end UServer.Net
