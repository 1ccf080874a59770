import UServer.Library.ByteOrder
import Mathlib.Data.Prod.Lex
import Mathlib.Data.List.Lex

/-! The address class: a family tag over a sixteen-byte union, read as in_addr
or in6_addr. Constructors take host-order integers or stored bytes. -/
namespace UServer.Net
open Library

/-- AF_UNSPEC, AF_INET and AF_INET6: the only tags a constructor writes. -/
inductive AddressFamily where
  | unspec | inet | inet6
  deriving DecidableEq, Repr

/-- in_addr is one integer field, s_addr, kept in network order. -/
abbrev InAddr := Word 4
abbrev In6Addr := Fin 16 → Byte

structure IPAddress where
  family : AddressFamily
  u : Fin 16 → Byte

namespace IPAddress

/-- The stored bytes of s_addr, then the zeros left by bzero. -/
def storeV4 (addr : InAddr) (i : Fin 16) : Byte :=
  if h : i.val < 4 then littleEndian addr ⟨i.val, h⟩ else 0

/-- The default constructor. -/
def nil : IPAddress := ⟨.unspec, fun _ => 0⟩
def ofInAddr (ipv4 : InAddr) : IPAddress := ⟨.inet, storeV4 ipv4⟩
def ofIn6Addr (ipv6 : In6Addr) : IPAddress := ⟨.inet6, ipv6⟩
def ofHostOrder (ip : Word 4) : IPAddress := ⟨.inet, storeV4 (byteSwap ip)⟩

/-- The first four bytes of the union. -/
def v4Bytes (ip : IPAddress) (i : Fin 4) : Byte := ip.u (i.castLE (by decide))

def ipv4Address (ip : IPAddress) : InAddr := littleEndian.symm ip.v4Bytes
def ipv6Address (ip : IPAddress) : In6Addr := ip.u

def v4AddressAsHostOrderInteger (ip : IPAddress) : Word 4 :=
  if ip.family = .inet then byteSwap ip.ipv4Address else 0

/-- operator==: the family, then the bytes that the family uses. -/
def equal (a b : IPAddress) : Bool :=
  if a.family ≠ b.family then false
  else match a.family with
    | .inet => decide (a.v4Bytes = b.v4Bytes)
    | .inet6 => decide (a.u = b.u)
    | .unspec => true

/-- operator<: IPv4 compares host-order integers, IPv6 compares by memcmp. -/
def less (a b : IPAddress) : Bool :=
  if a.family ≠ b.family then
    if a.family = .unspec then true
    else if a.family = .inet ∧ b.family = .inet6 then true
    else false
  else match a.family with
    | .inet => decide (a.v4AddressAsHostOrderInteger < b.v4AddressAsHostOrderInteger)
    | .inet6 => decide (List.ofFn a.u < List.ofFn b.u)
    | .unspec => false

/-- Ten zero bytes, two bytes of ones and a zero IPv4 address. -/
def kV4MappedPrefix : In6Addr := fun i => if i = 10 ∨ i = 11 then 0xFF else 0
def in6addrAny : In6Addr := fun _ => 0
def inaddrAny : Word 4 := 0

def isUnspec (ip : IPAddress) : Bool := decide (ip.family = .unspec)

/-- IPIsAny: the IPv4 any address, the IPv6 one, or the mapped IPv4 one. -/
def isAny (ip : IPAddress) : Bool :=
  match ip.family with
  | .inet => ip.equal (ofHostOrder inaddrAny)
  | .inet6 => ip.equal (ofIn6Addr in6addrAny) || ip.equal (ofIn6Addr kV4MappedPrefix)
  | .unspec => false

@[simp] theorem v4Bytes_storeV4 (family : AddressFamily) (addr : InAddr) :
    v4Bytes ⟨family, storeV4 addr⟩ = littleEndian addr := by
  funext i
  simp [v4Bytes, storeV4]

/-- What the comparisons look at, as a tuple under the lexicographic order. -/
def key (ip : IPAddress) : ℕ ×ₗ ℕ ×ₗ List Byte :=
  match ip.family with
  | .unspec => toLex (0, toLex (0, []))
  | .inet => toLex (1, toLex (ip.v4AddressAsHostOrderInteger.val, []))
  | .inet6 => toLex (2, toLex (0, List.ofFn ip.u))

private theorem host_order_injective {a b : IPAddress} (ha : a.family = .inet) (hb : b.family = .inet) :
    a.v4AddressAsHostOrderInteger.val = b.v4AddressAsHostOrderInteger.val ↔ a.v4Bytes = b.v4Bytes := by
  simp only [v4AddressAsHostOrderInteger, if_pos ha, if_pos hb, Fin.val_inj, byteSwap_injective.eq_iff,
    ipv4Address, littleEndian.symm.injective.eq_iff]

/-- operator== is equality of keys, so it is an equivalence on every address. -/
theorem equal_iff_key (a b : IPAddress) : a.equal b = true ↔ a.key = b.key := by
  cases ha : a.family <;> cases hb : b.family <;>
    simp only [equal, key, ha, hb, ne_eq, reduceCtorEq, not_false_eq_true, not_true_eq_false,
      if_true, if_false, Bool.false_eq_true, false_iff, toLex_inj, Prod.mk.injEq, decide_eq_true_eq]
  case inet.inet => simp [host_order_injective ha hb]
  case inet6.inet6 => simp only [List.ofFn_inj, true_and]
  all_goals norm_num

/-- operator< is the lexicographic order of keys. -/
theorem less_iff_key (a b : IPAddress) : a.less b = true ↔ a.key < b.key := by
  cases ha : a.family <;> cases hb : b.family <;>
    simp only [less, key, ha, hb, ne_eq, reduceCtorEq, not_false_eq_true, not_true_eq_false, and_true, and_false,
      if_true, if_false, Bool.false_eq_true, false_iff, true_iff, decide_eq_true_eq, Prod.Lex.toLex_lt_toLex]
  case inet.inet => simp only [Fin.lt_def]; simp
  case inet6.inet6 => simp only [lt_self_iff_false, true_and, false_or]
  all_goals norm_num

theorem isAny_congr {a b : IPAddress} (h : a.equal b = true) : a.isAny = b.isAny := by
  have hk := (equal_iff_key a b).mp h
  have he (c : IPAddress) : a.equal c = b.equal c := by
    rw [Bool.eq_iff_iff, equal_iff_key, equal_iff_key, hk]
  have hf : a.family = b.family := by
    by_contra hne
    simp [equal, hne] at h
  cases hb : b.family <;> simp [isAny, hf, hb, he]

theorem isUnspec_congr {a b : IPAddress} (h : a.equal b = true) : a.isUnspec = b.isUnspec := by
  have hf : a.family = b.family := by
    by_contra hne
    simp [equal, hne] at h
  simp [isUnspec, hf]

end IPAddress
end UServer.Net
