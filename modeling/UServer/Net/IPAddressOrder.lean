import UServer.Net.IPAddress
import UServer.Library.KeyedOrder

/-! The order of IP addresses and their hash against equality. All three look at the family and at the bytes
that it uses, and at no other byte of the union. -/
namespace UServer.Net.IPAddress
open Library

/-- v6_as_ints: the sixteen bytes of the address read as four integers of the host. -/
def v6AsInts (ip : IPAddress) (k : Fin 4) : Word 4 := littleEndian.symm fun i => ip.ipv6Address ⟨4 * k + i,by omega⟩

/-- HashIP: s_addr as it is stored, or the four integers xored. -/
def hashIP (ip : IPAddress) : UInt64 :=
  match ip.family with
  | .inet => UInt64.ofNat ip.ipv4Address.val
  | .inet6 => UInt64.ofNat ((ip.v6AsInts 0).val ^^^ (ip.v6AsInts 1).val ^^^ (ip.v6AsInts 2).val ^^^ (ip.v6AsInts 3).val)
  | .unspec => 0

/-- The bytes of the union that the family uses. -/
def usedBytes (ip : IPAddress) : List Byte :=
  match ip.family with
  | .unspec => []
  | .inet => List.ofFn ip.v4Bytes
  | .inet6 => List.ofFn ip.u

/-- operator== compares the family and the used bytes. -/
theorem equal_iff_usedBytes (a b : IPAddress) : a.equal b = true ↔ a.family = b.family ∧ a.usedBytes = b.usedBytes := by
  by_cases hf : a.family = b.family
  · rw [equal, if_neg (not_not_intro hf)]
    cases hb : b.family with
    | unspec => simp [usedBytes, hf, hb]
    | inet => simp only [usedBytes, hf, hb, List.ofFn_inj, decide_eq_true_eq, true_and]
    | inet6 => simp only [usedBytes, hf, hb, List.ofFn_inj, decide_eq_true_eq, true_and]
  · simp [equal, hf]

theorem hashIP_eq_of_equal {a b : IPAddress} (h : a.equal b = true) : a.hashIP = b.hashIP := by
  obtain ⟨hf,hu⟩ := (equal_iff_usedBytes a b).mp h
  cases hb : b.family with
  | unspec => simp [hashIP, hf, hb]
  | inet =>
    simp only [usedBytes, hf, hb, List.ofFn_inj] at hu
    simp [hashIP, hf, hb, ipv4Address, hu]
  | inet6 =>
    simp only [usedBytes, hf, hb, List.ofFn_inj] at hu
    simp [hashIP, hf, hb, v6AsInts, ipv6Address, hu]

/-- No two IPv4 addresses share a hash. -/
theorem hashIP_eq_iff_of_inet {a b : IPAddress} (ha : a.family = .inet) (hb : b.family = .inet) :
    a.hashIP = b.hashIP ↔ a.equal b = true := by
  refine ⟨fun h => ?_,hashIP_eq_of_equal⟩
  have hlt (ip : IPAddress) : ip.ipv4Address.val < 2^64 := ip.ipv4Address.isLt.trans (by norm_num)
  simp only [hashIP, ha, hb] at h
  have hv := congrArg UInt64.toNat h
  rw [UInt64.toNat_ofNat_of_lt' (hlt a), UInt64.toNat_ofNat_of_lt' (hlt b), Fin.val_inj] at hv
  have hbytes : a.v4Bytes = b.v4Bytes := littleEndian.symm.injective hv
  exact (equal_iff_usedBytes a b).mpr ⟨ha.trans hb.symm,by simp [usedBytes, ha, hb, hbytes]⟩

/-- Over all addresses, whatever their unused bytes: operator< is irreflexive and transitive, of a < b, a == b and b < a
exactly one holds, and equal addresses have one hash. -/
theorem less_strict_total (a b c : IPAddress) :
    a.less a = false ∧ (a.less b = true → b.less c = true → a.less c = true) ∧
    ExactlyOne (a.less b = true) (a.equal b = true) (b.less a = true) ∧
    (a.equal b = true → a.hashIP = b.hashIP) := by
  have ho := KeyedOrder.strictWeakOrder less_iff_key
  have he (a b : IPAddress) : a.equal b = true → a.key = b.key := (equal_iff_key a b).mp
  refine ⟨?_,ho.trans a b c,?_,hashIP_eq_of_equal⟩
  · exact Bool.eq_false_iff.mpr (ho.irrefl a)
  · exact (KeyedOrder.exactlyOne_iff less_iff_key he a b).mpr (equal_iff_key a b).mpr

end UServer.Net.IPAddress
