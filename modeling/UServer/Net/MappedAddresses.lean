import UServer.Net.IPAddressOrder
import Mathlib.Data.List.OfFn

/-! IPv4 addresses written as IPv6 ones, and the address classes. The mapped form keeps the order because both
comparisons read the most significant byte first: the one of a swapped word, the other in memory. -/
namespace UServer.Net.IPAddress
open Library

/-- AsIPv6Address: the prefix, with the four bytes of the IPv4 address copied to its end. -/
def asIPv6Address (ip : IPAddress) : IPAddress :=
  if ip.family = .inet6 then ip
  else ofIn6Addr fun i => if h : 12 ≤ i.val then ip.v4Bytes ⟨i.val - 12,by omega⟩ else kV4MappedPrefix i

/-- Ten zero bytes and two bytes of ones stand in front. -/
def mapped (ip : IPAddress) : Prop := ∀ i : Fin 12, ip.u (i.castAdd 4) = kV4MappedPrefix (i.castAdd 4)

def in6addrLoopback : In6Addr := fun i => if i = 15 then 1 else 0

def isLoopbackV4 (ip : IPAddress) : Bool := ip.v4AddressAsHostOrderInteger.val >>> 24 == 127
def isLoopbackV6 (ip : IPAddress) : Bool := ip.equal (ofIn6Addr in6addrLoopback)

/-- IPIsLoopback. -/
def isLoopback (ip : IPAddress) : Bool :=
  match ip.family with
  | .inet => ip.isLoopbackV4
  | .inet6 => ip.isLoopbackV6
  | .unspec => false

/-- 10.x.x.x, 172.16.0.0 to 172.31.255.255 and 192.168.x.x, by the leading bits. -/
def isPrivateNetworkV4 (ip : IPAddress) : Bool :=
  let ipInHostOrder := ip.v4AddressAsHostOrderInteger.val
  ipInHostOrder >>> 24 == 10 || ipInHostOrder >>> 20 == (172 <<< 4 ||| 1) || ipInHostOrder >>> 16 == (192 <<< 8 ||| 168)

/-- One byte of kPrivateNetworkPrefix is compared. -/
def isPrivateNetworkV6 (ip : IPAddress) : Bool := ip.ipv6Address 0 == 0xFD

/-- IPIsPrivate. -/
def isPrivate (ip : IPAddress) : Bool :=
  match ip.family with
  | .inet => ip.isPrivateNetworkV4
  | .inet6 => ip.isPrivateNetworkV6
  | .unspec => false

variable {a b : IPAddress}

theorem asIPv6Address_inet6 (h : a.family = .inet6) : a.asIPv6Address = a := by simp [asIPv6Address, h]

@[simp] theorem asIPv6Address_family (ip : IPAddress) : ip.asIPv6Address.family = .inet6 := by
  by_cases h : ip.family = .inet6 <;> simp [asIPv6Address, h, ofIn6Addr]

theorem asIPv6Address_front (h : a.family = .inet) (i : Fin 12) :
    a.asIPv6Address.u (i.castAdd 4) = kV4MappedPrefix (i.castAdd 4) := by
  have hi : ¬12 ≤ (i.castAdd 4).val := by simp
  simp only [asIPv6Address, h, reduceCtorEq, if_false, ofIn6Addr, dif_neg hi]

theorem asIPv6Address_back (h : a.family = .inet) (i : Fin 4) : a.asIPv6Address.u (i.natAdd 12) = a.v4Bytes i := by
  simp [asIPv6Address, h, ofIn6Addr]

/-- The sixteen bytes are the first twelve and then the last four. -/
theorem ofFn_u (ip : IPAddress) : List.ofFn ip.u =
    (List.ofFn fun i : Fin 12 => ip.u (i.castAdd 4)) ++ List.ofFn fun i : Fin 4 => ip.u (i.natAdd 12) :=
  List.ofFn_add (n := 12) (m := 4) (f := ip.u)

theorem ofFn_asIPv6Address (h : a.family = .inet) : List.ofFn a.asIPv6Address.u =
    (List.ofFn fun i : Fin 12 => kV4MappedPrefix (i.castAdd 4)) ++ List.ofFn a.v4Bytes := by
  simp only [ofFn_u, asIPv6Address_front h, asIPv6Address_back h]

/-- The host-order integer compares as the stored bytes do. -/
theorem less_iff_v4Bytes (ha : a.family = .inet) (hb : b.family = .inet) :
    a.less b = true ↔ List.ofFn a.v4Bytes < List.ofFn b.v4Bytes := by
  simp only [less, ha, hb, ne_eq, not_true_eq_false, if_false, decide_eq_true_eq, v4AddressAsHostOrderInteger, if_true,
    byteSwap_lt_byteSwap_iff, ipv4Address, Equiv.apply_symm_apply]

theorem less_iff_u (ha : a.family = .inet6) (hb : b.family = .inet6) : a.less b = true ↔ List.ofFn a.u < List.ofFn b.u := by
  simp only [less, ha, hb, ne_eq, not_true_eq_false, if_false, decide_eq_true_eq]

theorem equal_iff_v4Bytes (ha : a.family = .inet) (hb : b.family = .inet) : a.equal b = true ↔ a.v4Bytes = b.v4Bytes := by
  simp [equal, ha, hb]

theorem equal_iff_u (ha : a.family = .inet6) (hb : b.family = .inet6) : a.equal b = true ↔ a.u = b.u := by
  simp [equal, ha, hb]

theorem asIPv6Address_less (ha : a.family = .inet) (hb : b.family = .inet) :
    a.asIPv6Address.less b.asIPv6Address = true ↔ a.less b = true := by
  rw [less_iff_u (asIPv6Address_family a) (asIPv6Address_family b), ofFn_asIPv6Address ha, ofFn_asIPv6Address hb,
    less_iff_v4Bytes ha hb]
  have hm (front : List Byte) : StrictMono fun l => front ++ l := fun _ _ => List.append_left_lt
  exact (hm _).lt_iff_lt

theorem asIPv6Address_equal (ha : a.family = .inet) (hb : b.family = .inet) :
    a.asIPv6Address.equal b.asIPv6Address = true ↔ a.equal b = true := by
  rw [equal_iff_u (asIPv6Address_family a) (asIPv6Address_family b), ← List.ofFn_inj, ofFn_asIPv6Address ha,
    ofFn_asIPv6Address hb, List.append_cancel_left_eq, List.ofFn_inj, equal_iff_v4Bytes ha hb]

/-- Every IPv6 address with the prefix is the mapped form of an IPv4 address. -/
theorem mapped_iff (h : b.family = .inet6) :
    b.mapped ↔ ∃ ip : IPAddress, ip.family = .inet ∧ ip.asIPv6Address.equal b = true := by
  constructor
  · intro hb
    refine ⟨ofInAddr (littleEndian.symm fun i : Fin 4 => b.u (i.natAdd 12)),rfl,?_⟩
    rw [equal_iff_u (asIPv6Address_family _) h, ← List.ofFn_inj, ofFn_asIPv6Address rfl, ofFn_u b]
    simp [ofInAddr, funext hb]
  · rintro ⟨ip,hip,he⟩ i
    rw [equal_iff_u (asIPv6Address_family _) h] at he
    rw [← he, asIPv6Address_front hip]

/-- AsIPv6Address keeps operator< and operator== within each family, IPv4 or IPv6, so an ordered container of mapped
addresses has the order of the IPv4 ones; and its values of IPv4 addresses are the IPv6 addresses with the prefix, each
from one address. -/
theorem asIPv6Address_embeds (hf : a.family = b.family) (hu : a.isUnspec = false) :
    a.asIPv6Address.less b.asIPv6Address = a.less b ∧ a.asIPv6Address.equal b.asIPv6Address = a.equal b ∧
    ∀ ip : IPAddress, ip.family = .inet6 →
      (ip.mapped ↔ ∃ v4 : IPAddress, v4.family = .inet ∧ v4.asIPv6Address.equal ip = true) := by
  rw [← and_assoc]
  refine ⟨?_,fun ip h => mapped_iff h⟩
  cases ha : a.family with
  | unspec => simp [isUnspec, ha] at hu
  | inet =>
    have hb : b.family = .inet := hf ▸ ha
    exact ⟨Bool.eq_iff_iff.mpr (asIPv6Address_less ha hb),Bool.eq_iff_iff.mpr (asIPv6Address_equal ha hb)⟩
  | inet6 => simp [asIPv6Address_inet6 ha, asIPv6Address_inet6 (hf ▸ ha)]

/-- 10.0.1.0 and 10.0.0.1, whose stored integers compare the other way. -/
theorem asIPv6Address_embeds_two : (ofHostOrder 0x0A000001).asIPv6Address.less (ofHostOrder 0x0A000100).asIPv6Address = true :=
  (asIPv6Address_embeds (a := ofHostOrder 0x0A000001) (b := ofHostOrder 0x0A000100) rfl rfl).1.trans (by decide +kernel)

/-- The host-order integer has the stored bytes as its digits, the first one in front. -/
theorem v4AddressAsHostOrderInteger_val (h : a.family = .inet) : a.v4AddressAsHostOrderInteger.val =
    (a.v4Bytes 3).val + (a.v4Bytes 2).val * 256 + (a.v4Bytes 1).val * 65536 + (a.v4Bytes 0).val * 16777216 := by
  have hr : (Fin.rev 0 : Fin 4) = 3 ∧ (Fin.rev 1 : Fin 4) = 2 ∧ (Fin.rev 2 : Fin 4) = 1 ∧ (Fin.rev 3 : Fin 4) = 0 := by decide
  simp only [v4AddressAsHostOrderInteger, h, if_true, val_eq_sum, littleEndian_byteSwap, ipv4Address,
    Equiv.apply_symm_apply, Fin.sum_univ_four, hr]
  norm_num

theorem isAny_iff_of_inet (h : a.family = .inet) : a.isAny = true ↔ ∀ i, a.v4Bytes i = 0 := by
  have hz (i : Fin 4) : (ofHostOrder inaddrAny).v4Bytes i = 0 := by
    simp only [ofHostOrder, v4Bytes_storeV4, littleEndian_byteSwap]
    decide +revert +kernel
  simp only [isAny, h, equal_iff_v4Bytes h (b := ofHostOrder inaddrAny) rfl, funext_iff, hz]

theorem isLoopback_iff_of_inet (h : a.family = .inet) : a.isLoopback = true ↔ a.v4Bytes 0 = 127 := by
  have h1 := (a.v4Bytes 1).isLt
  have h2 := (a.v4Bytes 2).isLt
  have h3 := (a.v4Bytes 3).isLt
  simp only [isLoopback, h, isLoopbackV4, beq_iff_eq, v4AddressAsHostOrderInteger_val h, Nat.shiftRight_eq_div_pow,
    Fin.ext_iff]
  norm_num
  omega

/-- The three shifts test the ranges of the comment. -/
theorem isPrivate_iff_of_inet (h : a.family = .inet) : a.isPrivate = true ↔ a.v4Bytes 0 = 10 ∨
    (a.v4Bytes 0 = 172 ∧ 16 ≤ a.v4Bytes 1 ∧ a.v4Bytes 1 ≤ 31) ∨ (a.v4Bytes 0 = 192 ∧ a.v4Bytes 1 = 168) := by
  have h1 := (a.v4Bytes 1).isLt
  have h2 := (a.v4Bytes 2).isLt
  have h3 := (a.v4Bytes 3).isLt
  have hs : 172 <<< 4 ||| 1 = 2753 ∧ 192 <<< 8 ||| 168 = 49320 := by decide
  simp only [isPrivate, h, isPrivateNetworkV4, Bool.or_eq_true, beq_iff_eq, v4AddressAsHostOrderInteger_val h,
    Nat.shiftRight_eq_div_pow, Fin.ext_iff, Fin.le_def, hs]
  norm_num
  omega

theorem equal_ofIn6Addr_iff (h : a.family = .inet6) (ipv6 : In6Addr) : a.equal (ofIn6Addr ipv6) = true ↔ a.u = ipv6 :=
  equal_iff_u h rfl

theorem isAny_iff_of_inet6 (h : a.family = .inet6) : a.isAny = true ↔ a.u = in6addrAny ∨ a.u = kV4MappedPrefix := by
  simp only [isAny, h, Bool.or_eq_true, equal_ofIn6Addr_iff h]

theorem isLoopback_iff_of_inet6 (h : a.family = .inet6) : a.isLoopback = true ↔ a.u = in6addrLoopback := by
  simp only [isLoopback, h, isLoopbackV6, equal_ofIn6Addr_iff h]

theorem isPrivate_iff_of_inet6 (h : a.family = .inet6) : a.isPrivate = true ↔ a.u 0 = 0xFD := by
  simp only [isPrivate, h, isPrivateNetworkV6, beq_iff_eq, ipv6Address]

/-- The classes that the address is in. -/
def classes (ip : IPAddress) : List Bool := [ip.isAny, ip.isLoopback, ip.isPrivate]

theorem classes_count (ip : IPAddress) : ip.classes.count true ≤ 1 := by
  have hd : (ip.isAny = true → ip.isLoopback = false ∧ ip.isPrivate = false) ∧
      (ip.isLoopback = true → ip.isPrivate = false) := by
    simp only [← Bool.not_eq_true]
    cases h : ip.family with
    | unspec => simp [isAny, isLoopback, h]
    | inet =>
      rw [isAny_iff_of_inet h, isLoopback_iff_of_inet h, isPrivate_iff_of_inet h]
      refine ⟨fun hz => ?_,fun hl => ?_⟩
      · simp [hz]
      · simp [hl]
    | inet6 =>
      rw [isAny_iff_of_inet6 h, isLoopback_iff_of_inet6 h, isPrivate_iff_of_inet6 h]
      refine ⟨?_,fun hl => ?_⟩
      · rintro (hz | hz)
        · rw [hz]
          decide
        · rw [hz]
          decide
      · rw [hl]
        decide
  obtain ⟨ha,hl⟩ := hd
  cases h : ip.isAny <;> cases h' : ip.isLoopback <;> cases h'' : ip.isPrivate <;> simp_all [classes]

theorem classes_congr (h : a.equal b = true) : a.classes = b.classes := by
  obtain ⟨hf,hu⟩ := (equal_iff_usedBytes a b).mp h
  have hk : a.isLoopback = b.isLoopback ∧ a.isPrivate = b.isPrivate := by
    simp only [Bool.eq_iff_iff (b := b.isLoopback), Bool.eq_iff_iff (b := b.isPrivate)]
    cases hb : b.family with
    | unspec => simp [isLoopback, isPrivate, hf, hb]
    | inet =>
      simp only [usedBytes, hf, hb, List.ofFn_inj] at hu
      simp only [isLoopback_iff_of_inet hb, isLoopback_iff_of_inet (hf.trans hb), isPrivate_iff_of_inet hb,
        isPrivate_iff_of_inet (hf.trans hb), hu, and_self]
    | inet6 =>
      simp only [usedBytes, hf, hb, List.ofFn_inj] at hu
      simp only [isLoopback_iff_of_inet6 hb, isLoopback_iff_of_inet6 (hf.trans hb), isPrivate_iff_of_inet6 hb,
        isPrivate_iff_of_inet6 (hf.trans hb), hu, and_self]
  simp only [classes, isAny_congr h, hk]

theorem asIPv6Address_eq_prefix_iff (h : a.family = .inet) :
    a.asIPv6Address.u = kV4MappedPrefix ↔ ∀ i, a.v4Bytes i = 0 := by
  refine ⟨fun hz i => ?_,fun hz => funext fun i => ?_⟩
  · have hi : ¬(i.natAdd 12 = (10 : Fin 16) ∨ i.natAdd 12 = (11 : Fin 16)) := by decide +revert
    rw [← asIPv6Address_back h, hz, kV4MappedPrefix, if_neg hi]
  · refine Fin.addCases (m := 12) (n := 4) (fun i => asIPv6Address_front h i) (fun i => ?_) i
    rw [asIPv6Address_back h, hz]
    decide +revert

/-- The two bytes of ones keep a mapped address out of the other classes. -/
theorem classes_asIPv6Address (h : a.family = .inet) : a.asIPv6Address.classes = [a.isAny,false,false] := by
  have hf := asIPv6Address_family a
  have h0 : a.asIPv6Address.u 0 = 0 := asIPv6Address_front h 0
  have h10 : a.asIPv6Address.u 10 = 0xFF := asIPv6Address_front h 10
  have hany : a.asIPv6Address.isAny = a.isAny := by
    rw [Bool.eq_iff_iff, isAny_iff_of_inet6 hf, isAny_iff_of_inet h, asIPv6Address_eq_prefix_iff h]
    refine or_iff_right fun hz => ?_
    rw [hz] at h10
    revert h10
    decide
  have hloop : a.asIPv6Address.isLoopback = false := by
    rw [← Bool.not_eq_true, isLoopback_iff_of_inet6 hf]
    intro hz
    rw [hz] at h10
    revert h10
    decide
  have hprivate : a.asIPv6Address.isPrivate = false := by
    rw [← Bool.not_eq_true, isPrivate_iff_of_inet6 hf, h0]
    decide
  rw [classes, hany, hloop, hprivate]

/-- An address is in one class at most, equal addresses are in the same ones, and those of an IPv4 address are told by
its leading bytes. Of them the mapped form is only in that of the any address: loopback and private do not go over. -/
theorem classes_by_bytes (a b : IPAddress) :
    a.classes.count true ≤ 1 ∧ (a.equal b = true → a.classes = b.classes) ∧
    (a.family = .inet → (a.isAny = true ↔ ∀ i, a.v4Bytes i = 0) ∧ (a.isLoopback = true ↔ a.v4Bytes 0 = 127) ∧
      (a.isPrivate = true ↔ a.v4Bytes 0 = 10 ∨ (a.v4Bytes 0 = 172 ∧ 16 ≤ a.v4Bytes 1 ∧ a.v4Bytes 1 ≤ 31) ∨
        (a.v4Bytes 0 = 192 ∧ a.v4Bytes 1 = 168)) ∧
      a.asIPv6Address.classes = [a.isAny,false,false]) :=
  ⟨classes_count a,classes_congr,fun h =>
    ⟨isAny_iff_of_inet h,isLoopback_iff_of_inet h,isPrivate_iff_of_inet h,classes_asIPv6Address h⟩⟩

end UServer.Net.IPAddress
