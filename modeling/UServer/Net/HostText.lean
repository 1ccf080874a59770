import UServer.Library.Lookup
import UServer.Library.Runs
import UServer.Net.AddressText
import UServer.Net.SockAddrStorage

/-! Host text and address of socket addresses through any sequence of constructors and setters:
the setters that take no text leave the old one behind. -/
namespace UServer.Net
open Library

/-- sockaddr_in. -/
structure SockAddrIn where
  family : Word 2
  port : Word 2
  addr : InAddr

/-- FromSockAddr. -/
def SocketAddress.fromSockAddr (a : SocketAddress) (saddr : SockAddrIn) : Bool × SocketAddress :=
  if saddr.family ≠ AddressFamily.inet.code then (false,a)
  else (true,{ (a.setIP (.ofHostOrder (byteSwap saddr.addr))).setPort (byteSwap saddr.port).val with literal := false })

/-- The copy constructor, which leaves literal_ unset. -/
def SocketAddress.copy (unset : Indeterminate) (addr : SocketAddress) : SocketAddress :=
  (⟨[],.nil,0,unset.scopedId,unset.literal⟩ : SocketAddress).assign addr

/-- Constructors and setters of the object with a name. -/
inductive AddressAction (ι : Type*) where
  | construct (i : ι)
  | constructHostOrder (i : ι) (unset : Indeterminate) (ip : Word 4) (port : ℤ)
  | constructIP (i : ι) (unset : Indeterminate) (ip : IPAddress) (port : ℤ)
  | constructCopy (i : ι) (unset : Indeterminate) (j : ι)
  | assign (i j : ι)
  | clear (i : ι)
  | setIPString (i : ι) (ip : List Byte)
  | setIPHostOrder (i : ι) (ip : Word 4)
  | setIP (i : ι) (ip : IPAddress)
  | setPort (i : ι) (port : ℤ)
  | setScopeID (i : ι) (id : Word 4)
  | fromString (i : ι) (str : List Byte)
  | fromSockAddr (i : ι) (saddr : SockAddrIn)

/-- The objects that exist. -/
abbrev Addresses (ι : Type*) := ι → Option SocketAddress

section Machine
variable {ι : Type*} [DecidableEq ι] (T : InetText) (s : Addresses ι)

/-- A member function runs on an object that exists. -/
def Addresses.modify (s : Addresses ι) (i : ι) (f : SocketAddress → SocketAddress) : Option (Addresses ι) :=
  (s i).map fun a => Function.update s i (some (f a))

/-- A call of FromString that throws leaves the object as it was. -/
def fromStringOr (a : SocketAddress) (str : List Byte) : SocketAddress := ((a.fromString T str).map Prod.snd).getD a

def addressStep : AddressAction ι → Option (Addresses ι)
  | .construct i => some (Function.update s i (some .clear))
  | .constructHostOrder i unset ip port => some (Function.update s i (some (.ofIP unset (.ofHostOrder ip) port)))
  | .constructIP i unset ip port => some (Function.update s i (some (.ofIP unset ip port)))
  | .constructCopy i unset j => (s j).map fun b => Function.update s i (some (.copy unset b))
  | .assign i j => (s j).bind fun b => s.modify i fun a => a.assign b
  | .clear i => s.modify i fun _ => .clear
  | .setIPString i ip => s.modify i fun a => a.setIPString T ip
  | .setIPHostOrder i ip => s.modify i fun a => a.setIP (.ofHostOrder ip)
  | .setIP i ip => s.modify i fun a => a.setIP ip
  | .setPort i port => s.modify i fun a => a.setPort port
  | .setScopeID i id => s.modify i fun a => a.setScopeID id
  | .fromString i str => s.modify i fun a => fromStringOr T a str
  | .fromSockAddr i saddr => s.modify i fun a => (a.fromSockAddr saddr).2

def addressMachine : Machine (Addresses ι) (AddressAction ι) where
  init s := s = fun _ => none
  step := addressStep T

end Machine

variable (T : InetText)

/-- Host text that denotes an address denotes the one stored. -/
def TextAgrees (a : SocketAddress) : Prop :=
  a.hostname ≠ [] → ∀ ip, T.literalOf a.hostname = some ip → ip.equal a.ip = true

/-- An address that the printed host shows, in brackets or not, is the one stored and the one encoded. -/
def PrintsOwnIP (a : SocketAddress) : Prop :=
  ∀ shown ip, (a.hostAsURIString T = shown ∨
      a.hostname = [] ∧ a.hostAsURIString T = ascii '[' :: shown ++ [ascii ']']) →
    T.literalOf shown = some ip →
    ip.equal a.ip = true ∧ (a.setIP ip).toSockAddrStorage = a.toSockAddrStorage

/-- The host text is empty, denotes no address, or denotes the new one. -/
def TextAllows (a : SocketAddress) (ip : IPAddress) : Prop :=
  a.hostname = [] ∨ ∀ old ∈ T.literalOf a.hostname, old.equal ip = true

instance (a : SocketAddress) (ip : IPAddress) : Decidable (TextAllows T a ip) := inferInstanceAs (Decidable (_ ∨ _))

/-- SetIP with an address and FromSockAddr are called only where the host text allows the address. -/
def TextKept {ι : Type*} (s : Addresses ι) : AddressAction ι → Prop
  | .setIPHostOrder i ip => ∀ a ∈ s i, TextAllows T a (.ofHostOrder ip)
  | .setIP i ip => ∀ a ∈ s i, TextAllows T a ip
  | .fromSockAddr i saddr => saddr.family = AddressFamily.inet.code →
      ∀ a ∈ s i, TextAllows T a (.ofHostOrder (byteSwap saddr.addr))
  | _ => True

instance {ι : Type*} (s : Addresses ι) (c : AddressAction ι) : Decidable (TextKept T s c) :=
  match c with
  | .setIPHostOrder i ip => inferInstanceAs (Decidable (∀ a ∈ s i, TextAllows T a (.ofHostOrder ip)))
  | .setIP i ip => inferInstanceAs (Decidable (∀ a ∈ s i, TextAllows T a ip))
  | .fromSockAddr i saddr => inferInstanceAs (Decidable (saddr.family = AddressFamily.inet.code →
      ∀ a ∈ s i, TextAllows T a (.ofHostOrder (byteSwap saddr.addr))))
  | .construct _ | .constructHostOrder .. | .constructIP .. | .constructCopy .. | .assign .. | .clear _
  | .setIPString .. | .setPort .. | .setScopeID .. | .fromString .. => inferInstanceAs (Decidable True)

variable {T}

/-- The new address agrees with the text left behind exactly when the text allows it. -/
theorem textAgrees_setIP_iff {a : SocketAddress} {ip : IPAddress} : TextAgrees T (a.setIP ip) ↔ TextAllows T a ip := by
  by_cases h : a.hostname = []
  · exact iff_of_true (fun hn => absurd h hn) (.inl h)
  · exact ⟨fun ht => .inr (ht h),fun ht _ => ht.resolve_left h⟩

theorem textAgrees_setIPString (a : SocketAddress) (str : List Byte) : TextAgrees T (a.setIPString T str) := by
  intro _ ip hip
  obtain ⟨htrue,he⟩ := Option.ite_none_right_eq_some.mp hip
  cases he
  have hi : (a.setIPString T str).ip = (T.ipFromString str).2 := if_pos htrue
  rw [hi]
  exact (IPAddress.equal_iff_key _ _).mpr rfl

theorem textAgrees_fromString {a b : SocketAddress} {str : List Byte} {r : Bool} (ha : TextAgrees T a)
    (h : a.fromString T str = some (r,b)) : TextAgrees T b := by
  cases str with
  | nil => cases h
  | cons c str =>
    rw [SocketAddress.fromString] at h
    split at h
    · split at h
      · cases h
        exact ha
      · split at h
        · cases h
          exact ha
        · cases h
          exact textAgrees_setIPString _ _
    · split at h
      · cases h
        exact ha
      · cases h
        exact textAgrees_setIPString _ _

theorem textAgrees_fromStringOr {a : SocketAddress} (ha : TextAgrees T a) (str : List Byte) :
    TextAgrees T (fromStringOr T a str) := by
  rw [fromStringOr]
  cases h : a.fromString T str with
  | none => exact ha
  | some r => exact textAgrees_fromString ha h

theorem textAgrees_nil {a : SocketAddress} (h : a.hostname = []) : TextAgrees T a := fun hn => absurd h hn

section Steps
variable {ι : Type*} [DecidableEq ι] {s t : Addresses ι}

theorem agree_update (h : ∀ i a, s i = some a → TextAgrees T a) {i : ι} {b : SocketAddress} (hb : TextAgrees T b) :
    ∀ j a, Function.update s i (some b) j = some a → TextAgrees T a := by
  intro j a ha
  rcases update_some_cases ha with ⟨-,rfl⟩ | ⟨-,ha⟩
  · exact hb
  · exact h j a ha

theorem agree_modify (h : ∀ i a, s i = some a → TextAgrees T a) {i : ι} {f : SocketAddress → SocketAddress}
    (hf : ∀ a, s i = some a → TextAgrees T a → TextAgrees T (f a)) (he : s.modify i f = some t) :
    ∀ j a, t j = some a → TextAgrees T a := by
  obtain ⟨a,ha,rfl⟩ := Option.map_eq_some_iff.mp he
  exact agree_update h (hf a ha (h i a ha))

/-- Constructors and setters keep the agreement where the three setters without text are allowed. -/
theorem agree_step (h : ∀ i a, s i = some a → TextAgrees T a) {c : AddressAction ι} (hc : TextKept T s c)
    (he : addressStep T s c = some t) : ∀ i a, t i = some a → TextAgrees T a := by
  cases c with
  | construct i | constructHostOrder i unset ip port | constructIP i unset ip port =>
    cases he
    exact agree_update h (textAgrees_nil rfl)
  | constructCopy i unset j =>
    obtain ⟨b,hb,rfl⟩ := Option.map_eq_some_iff.mp he
    exact agree_update h (h j b hb)
  | assign i j =>
    obtain ⟨b,hb,he⟩ := Option.bind_eq_some_iff.mp he
    exact agree_modify (f := fun a => a.assign b) h (fun a _ _ => h j b hb) he
  | clear i => exact agree_modify h (fun a _ _ => textAgrees_nil rfl) he
  | setIPString i ip => exact agree_modify h (fun a _ _ => textAgrees_setIPString a ip) he
  | setIPHostOrder i ip => exact agree_modify h (fun a ha _ => textAgrees_setIP_iff.mpr (hc a ha)) he
  | setIP i ip => exact agree_modify h (fun a ha _ => textAgrees_setIP_iff.mpr (hc a ha)) he
  | setPort i port => exact agree_modify (f := fun a => a.setPort port) h (fun a _ ht => ht) he
  | setScopeID i id => exact agree_modify (f := fun a => a.setScopeID id) h (fun a _ ht => ht) he
  | fromString i str => exact agree_modify h (fun a _ ht => textAgrees_fromStringOr ht str) he
  | fromSockAddr i saddr =>
    refine agree_modify h (fun a ha ht => ?_) he
    rw [SocketAddress.fromSockAddr]
    split
    · exact ht
    · rename_i hf
      exact textAgrees_setIP_iff.mpr (hc (not_not.mp hf) a ha)

end Steps

/-- Addresses that are equal are encoded alike. -/
theorem toSockAddrStorage_congr {a : SocketAddress} {ip : IPAddress} (h : ip.equal a.ip = true) :
    (a.setIP ip).toSockAddrStorage = a.toSockAddrStorage := by
  have hf : ip.family = a.ip.family := by
    by_contra hne
    simp [IPAddress.equal, hne] at h
  cases ha : a.ip.family with
  | unspec => simp [SocketAddress.toSockAddrStorage, SocketAddress.setIP, toSockAddrStorageHelper, hf, ha]
  | inet =>
    have hv : ip.ipv4Address = a.ip.ipv4Address := by
      rw [IPAddress.equal, hf, ha] at h
      exact congrArg littleEndian.symm (by simpa using h)
    simp [SocketAddress.toSockAddrStorage, SocketAddress.setIP, toSockAddrStorageHelper, hf, ha, hv]
  | inet6 =>
    have hv : ip.u = a.ip.u := by
      rw [IPAddress.equal, hf, ha] at h
      simpa using h
    simp [SocketAddress.toSockAddrStorage, SocketAddress.setIP, toSockAddrStorageHelper, hf, ha, IPAddress.ipv6Address, hv]

namespace InetText.Lawful
variable (hT : T.Lawful)
include hT

/-- Text that starts with a bracket denotes no address. -/
theorem literalOf_bracket (s : List Byte) : T.literalOf (ascii '[' :: s) = none := by
  have hm : ascii '[' ∈ cStr (ascii '[' :: s) := by
    rw [cStr, List.takeWhile_cons_of_pos (by decide)]
    exact List.mem_cons_self
  rw [literalOf, ipFromString]
  split
  · rename_i a h
    exact absurd hm (hT.not_mem4 h (by decide) (by decide))
  · split
    · rename_i a h
      exact absurd hm (hT.not_mem6 h (by decide) (by decide) (by decide))
    · rfl

theorem literalOf_nil : T.literalOf [] = none := by
  have h4 : T.pton4 [] = none := Option.eq_none_iff_forall_ne_some.mpr fun a h => (hT.text4 _ a h).1 rfl
  have h6 : T.pton6 [] = none :=
    Option.eq_none_iff_forall_ne_some.mpr fun a h => List.not_mem_nil (hT.text6 _ a h).1
  simp [literalOf, ipFromString, cStr, h4, h6]

/-- What inet_ntop prints denotes the address printed. -/
theorem literalOf_toString {x ip : IPAddress} (h : T.literalOf (T.toString x) = some ip) : ip.equal x = true := by
  by_cases hu : x.family = .unspec
  · rw [InetText.toString, hu, hT.literalOf_nil] at h
    cases h
  · obtain ⟨-,he⟩ := Option.ite_none_right_eq_some.mp h
    cases he
    exact (hT.ipFromString_toString x hu).2

theorem bracket_not_mem_toString (x : IPAddress) : ascii '[' ∉ T.toString x := by
  rw [InetText.toString]
  split
  · exact List.not_mem_nil
  · exact hT.not_mem4 (hT.pton4_ntop4 _) (by decide) (by decide)
  · exact hT.not_mem6 (hT.pton6_ntop6 _) (by decide) (by decide) (by decide)

/-- Where the host text agrees with the address, so does what is printed. -/
theorem printsOwnIP {a : SocketAddress} (h : TextAgrees T a) : PrintsOwnIP T a := by
  intro shown ip hs hl
  suffices he : ip.equal a.ip = true from ⟨he,toSockAddrStorage_congr he⟩
  by_cases hn : a.hostname = []
  · rw [SocketAddress.hostAsURIString, if_neg (not_not.mpr hn)] at hs
    by_cases h6 : a.ip.family = .inet6
    · rw [if_pos h6] at hs
      rcases hs with rfl | ⟨-,hs⟩
      · rw [List.cons_append, hT.literalOf_bracket] at hl
        cases hl
      · have hsh : T.toString a.ip = shown := by simpa using hs
        exact hT.literalOf_toString (hsh ▸ hl)
    · rw [if_neg h6] at hs
      rcases hs with rfl | ⟨-,hs⟩
      · exact hT.literalOf_toString hl
      · exact absurd (hs ▸ List.mem_cons_self) (hT.bracket_not_mem_toString a.ip)
  · rw [SocketAddress.hostAsURIString, if_pos hn] at hs
    rcases hs with rfl | ⟨hn',-⟩
    · exact h hn ip hl
    · exact absurd hn' hn

end InetText.Lawful

/-- In every run that sets an address without text only where the text allows it, the host text never
contradicts the address, nor does what is printed. -/
theorem host_text_agrees (hT : T.Lawful) {ι : Type*} [DecidableEq ι] {s : Addresses ι}
    (h : (addressMachine T).Reachable (TextKept T) s) {i : ι} {a : SocketAddress} (ha : s i = some a) :
    TextAgrees T a ∧ PrintsOwnIP T a := by
  have hi : ∀ i a, s i = some a → TextAgrees T a := by
    apply h.rule
    · intro s hs i a ha
      rw [hs] at ha
      cases ha
    · intro s c t hi hc he
      exact agree_step hi hc he
  exact ⟨hi i a ha,hT.printsOwnIP (hi i a ha)⟩

/-- Text for 1.2.3.4, the same address without text, and a copy. -/
theorem host_text_agrees_same : ∃ s : Addresses ℕ, (addressMachine plainInet).Reachable (TextKept plainInet) s ∧
    ∃ a, s 1 = some a ∧ a.hostname = text "1.2.3.4" ∧ TextAgrees plainInet a ∧ PrintsOwnIP plainInet a := by
  have h : ((addressMachine plainInet).run (TextKept plainInet) (fun _ : ℕ => none)
      [.construct 0, .setIPString 0 (text "1.2.3.4"), .setIPHostOrder 0 0x01020304, .constructCopy 1 ⟨0,false⟩ 0]).any
      (fun s => (s 1).any fun a => decide (a.hostname = text "1.2.3.4")) = true := by decide +kernel
  obtain ⟨s,hs,hp⟩ := Machine.exists_reachable_of_run rfl h
  obtain ⟨a,ha,hn⟩ := (Option.any_eq_true _ _).mp hp
  exact ⟨s,hs,a,ha,of_decide_eq_true hn,host_text_agrees plainInet_lawful hs ha⟩

/-- The text says 1.2.3.4 after the address was set to 5.6.7.8. -/
theorem host_text_disagrees : plainInet.Lawful ∧ ∃ s : Addresses ℕ,
    (addressMachine plainInet).Reachable Machine.Free s ∧
    ∃ a, s 0 = some a ∧ a.toString plainInet = text "1.2.3.4:80" ∧ plainInet.toString a.ip = text "5.6.7.8" ∧
      ¬ TextAgrees plainInet a := by
  have h : ((addressMachine plainInet).run Machine.Free (fun _ : ℕ => none)
      [.construct 0, .setPort 0 80, .setIPString 0 (text "1.2.3.4"), .setIPHostOrder 0 0x05060708]).any
      (fun s => (s 0).any fun a => decide (a.toString plainInet = text "1.2.3.4:80" ∧
        plainInet.toString a.ip = text "5.6.7.8" ∧ a.hostname ≠ [] ∧
        (plainInet.literalOf a.hostname).any fun ip => !ip.equal a.ip)) = true := by decide +kernel
  obtain ⟨s,hs,hp⟩ := Machine.exists_reachable_of_run rfl h
  obtain ⟨a,ha,hp⟩ := (Option.any_eq_true _ _).mp hp
  obtain ⟨ht,hi,hn,hl⟩ := of_decide_eq_true hp
  obtain ⟨ip,hip,he⟩ := (Option.any_eq_true _ _).mp hl
  refine ⟨plainInet_lawful,s,hs,a,ha,ht,hi,fun hag => ?_⟩
  rw [hag hn ip hip] at he
  cases he

end UServer.Net
