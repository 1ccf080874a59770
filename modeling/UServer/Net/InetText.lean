import Mathlib.Data.List.GetD
import Mathlib.Data.List.TakeWhile
import UServer.Library.Numeral
import UServer.Net.IPAddress

/-! Address text: inet_pton and inet_ntop of the C library as parameters with what their
documentation promises, and the two functions of the source that call them. -/
namespace UServer.Net
open Library Library.Numeral

/-- The C string that starts a std::string. -/
def cStr (s : List Byte) : List Byte := s.takeWhile fun c => c ≠ 0

/-- inet_pton and inet_ntop for AF_INET and AF_INET6. The buffer is always large enough. -/
structure InetText where
  pton4 : List Byte → Option InAddr
  pton6 : List Byte → Option In6Addr
  ntop4 : InAddr → List Byte
  ntop6 : In6Addr → List Byte

namespace InetText

/-- Hexadecimal digits of both cases. -/
def isXDigit (c : Byte) : Bool := isHexDigit c ∨ (65 ≤ c.val ∧ c.val ≤ 70)

/-- IPv4 text is dotted decimal, IPv6 text is hexadecimal digits with colons and perhaps an
IPv4 address at its end, and an address printed is read back. -/
structure Lawful (T : InetText) : Prop where
  pton4_ntop4 : ∀ a, T.pton4 (T.ntop4 a) = some a
  pton6_ntop6 : ∀ a, T.pton6 (T.ntop6 a) = some a
  text4 : ∀ s a, T.pton4 s = some a → s ≠ [] ∧ ∀ c ∈ s, isDigit c ∨ c = ascii '.'
  text6 : ∀ s a, T.pton6 s = some a → ascii ':' ∈ s ∧ ∀ c ∈ s, isXDigit c ∨ c = ascii ':' ∨ c = ascii '.'

variable (T : InetText)

/-- IPAddress::ToString. -/
def toString (ip : IPAddress) : List Byte :=
  match ip.family with
  | .unspec => []
  | .inet => T.ntop4 ip.ipv4Address
  | .inet6 => T.ntop6 ip.ipv6Address

/-- IPFromString with an out parameter: what it writes there, and whether it returns true. -/
def ipFromString (str : List Byte) : Bool × IPAddress :=
  match T.pton4 (cStr str) with
  | some addr => (true,.ofInAddr addr)
  | none =>
    match T.pton6 (cStr str) with
    | some addr6 => (true,.ofIn6Addr addr6)
    | none => (false,.nil)

/-- The address that a text denotes. -/
def literalOf (str : List Byte) : Option IPAddress := if (T.ipFromString str).1 then some (T.ipFromString str).2 else none

end InetText

theorem cStr_eq_self {s : List Byte} (h : (0 : Byte) ∉ s) : cStr s = s := by
  apply List.takeWhile_eq_self_iff.mpr
  intro c hc
  simpa using ne_of_mem_of_not_mem hc h

namespace InetText.Lawful
variable {T : InetText} (hT : T.Lawful) {s : List Byte} {a : InAddr} {a6 : In6Addr}
include hT

theorem not_mem4 (h : T.pton4 s = some a) {c : Byte} (hc : isDigit c = false) (hd : c ≠ ascii '.') : c ∉ s := by
  intro hm
  rcases (hT.text4 s a h).2 c hm with hc' | hc'
  · exact Bool.noConfusion (hc'.symm.trans hc)
  · exact hd hc'

theorem not_mem6 (h : T.pton6 s = some a6) {c : Byte} (hx : isXDigit c = false) (hc : c ≠ ascii ':')
    (hd : c ≠ ascii '.') : c ∉ s := by
  intro hm
  rcases (hT.text6 s a6 h).2 c hm with h' | h' | h'
  · exact Bool.noConfusion (h'.symm.trans hx)
  · exact hc h'
  · exact hd h'

/-- No text is an address of both families. -/
theorem pton4_eq_none (h : T.pton6 s = some a6) : T.pton4 s = none := by
  rw [Option.eq_none_iff_forall_ne_some]
  intro b hb
  exact hT.not_mem4 hb (by decide) (by decide) (hT.text6 s a6 h).1

theorem ipFromString_pton4 (h : T.pton4 s = some a) : T.ipFromString s = (true,.ofInAddr a) := by
  have hz : cStr s = s := cStr_eq_self (hT.not_mem4 h (by decide) (by decide))
  simp only [ipFromString, hz, h]

theorem ipFromString_pton6 (h : T.pton6 s = some a6) : T.ipFromString s = (true,.ofIn6Addr a6) := by
  have hz : cStr s = s := cStr_eq_self (hT.not_mem6 h (by decide) (by decide) (by decide))
  simp only [ipFromString, hz, hT.pton4_eq_none h, h]

/-- The text of an address is read back as an equal address of the same family. -/
theorem ipFromString_toString (ip : IPAddress) (h : ip.family ≠ .unspec) :
    (T.ipFromString (T.toString ip)).1 = true ∧ (T.ipFromString (T.toString ip)).2.equal ip = true := by
  cases hf : ip.family with
  | unspec => exact absurd hf h
  | inet =>
    simp only [toString, hf, hT.ipFromString_pton4 (hT.pton4_ntop4 _)]
    simp [IPAddress.equal, IPAddress.ofInAddr, IPAddress.ipv4Address, hf]
  | inet6 =>
    simp only [toString, hf, hT.ipFromString_pton6 (hT.pton6_ntop6 _)]
    simp [IPAddress.equal, IPAddress.ofIn6Addr, IPAddress.ipv6Address, hf]

/-- Only a text with a colon denotes an IPv6 address. -/
theorem family_ipFromString (h : ascii ':' ∉ s) : (T.ipFromString s).2.family ≠ .inet6 := by
  rw [ipFromString]
  split
  · exact nofun
  · split
    · rename_i a6 h6
      exact absurd ((List.takeWhile_sublist _).subset (hT.text6 _ _ h6).1) h
    · exact nofun

end InetText.Lawful

namespace PlainInet

def groups4 (a : InAddr) : List ℕ := List.ofFn fun i => (littleEndian a i).val

def groups6 (a : In6Addr) : List ℕ :=
  List.ofFn fun i : Fin 8 => 256 * (a ⟨2 * i,by omega⟩).val + (a ⟨2 * i + 1,by omega⟩).val

/-- Dotted decimal. -/
def ntop4 (a : InAddr) : List Byte := separated (ascii '.') 10 (groups4 a)

/-- Eight hexadecimal groups, none of them left out. -/
def ntop6 (a : In6Addr) : List Byte := separated (ascii ':') 16 (groups6 a)

def read4 (s : List Byte) : InAddr :=
  littleEndian.symm fun i => Fin.ofNat 256 ((fieldsOf (ascii '.') 10 s).getD i 0)

def read6 (s : List Byte) : In6Addr := fun j =>
  let group := (fieldsOf (ascii ':') 16 s).getD (j / 2) 0
  Fin.ofNat 256 (if j.val % 2 = 0 then group / 256 else group)

theorem read4_ntop4 (a : InAddr) : read4 (ntop4 a) = a := by
  have hf : fieldsOf (ascii '.') 10 (ntop4 a) = groups4 a :=
    fieldsOf_separated (by decide) (by decide) (by decide) (by simp [groups4])
  apply littleEndian.injective
  funext i
  rw [read4, hf, Equiv.apply_symm_apply, groups4, List.getD_eq_getElem _ _ (by simp), List.getElem_ofFn]
  simp

theorem read6_ntop6 (a : In6Addr) : read6 (ntop6 a) = a := by
  have hf : fieldsOf (ascii ':') 16 (ntop6 a) = groups6 a :=
    fieldsOf_separated (by decide) (by decide) (by decide) (by simp [groups6])
  funext j
  apply Fin.ext
  have hj := j.isLt
  rw [read6, hf, groups6, List.getD_eq_getElem _ _ (by simp; omega), List.getElem_ofFn, Fin.val_ofNat]
  split
  · rename_i he
    have hk : (⟨2 * (j.val / 2),by omega⟩ : Fin 16) = j := Fin.ext (by simp; omega)
    simp only [hk]
    omega
  · rename_i ho
    have hk : (⟨2 * (j.val / 2) + 1,by omega⟩ : Fin 16) = j := Fin.ext (by simp; omega)
    simp only [hk]
    omega

end PlainInet

open PlainInet in
/-- Text that is not the text these print for some address is refused. -/
def plainInet : InetText where
  pton4 s := if ntop4 (read4 s) = s then some (read4 s) else none
  pton6 s := if ntop6 (read6 s) = s then some (read6 s) else none
  ntop4 := ntop4
  ntop6 := ntop6

open PlainInet in
theorem plainInet_lawful : plainInet.Lawful where
  pton4_ntop4 a := by simp [plainInet, read4_ntop4]
  pton6_ntop6 a := by simp [plainInet, read6_ntop6]
  text4 s a h := by
    obtain ⟨hs,-⟩ := Option.ite_none_right_eq_some.mp h
    rw [← hs]
    refine ⟨?_,fun c hc => ?_⟩
    · exact List.ne_nil_of_mem (sep_mem_separated _ _ _ _)
    · rcases mem_separated (by decide) hc with rfl | ⟨d,hd,rfl⟩
      · exact .inr rfl
      · exact .inl (isDigit_digit hd)
  text6 s a h := by
    obtain ⟨hs,-⟩ := Option.ite_none_right_eq_some.mp h
    rw [← hs]
    refine ⟨sep_mem_separated _ _ _ _,fun c hc => ?_⟩
    rcases mem_separated (by decide) hc with rfl | ⟨d,hd,rfl⟩
    · exact .inr (.inl rfl)
    · exact .inl (by simp [InetText.isXDigit, isHexDigit_digit hd])

end UServer.Net
