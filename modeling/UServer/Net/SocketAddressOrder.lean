import UServer.Net.SocketAddress
import UServer.Library.KeyedOrder

/-! Coherence of the two comparison operators of socket addresses. The order is
a strict weak order; equality agrees with it on the pairs described here only. -/
namespace UServer.Net.SocketAddress
open Library

/-- The tuple that operator< compares: the address, then host text or port. -/
def orderKey (a : SocketAddress) : (ℕ ×ₗ ℕ ×ₗ List Byte) ×ₗ List Byte ×ₗ ℕ :=
  toLex (a.ip.key,
    if a.ip.isAny then toLex (a.hostname, 0)
    else if a.ip.isUnspec then toLex (a.hostname, a.port.val)
    else toLex ([], a.port.val))

/-- operator< is the lexicographic order of the keys. -/
theorem less_iff_orderKey (a b : SocketAddress) : a.less b = true ↔ a.orderKey < b.orderKey := by
  rw [orderKey, orderKey, Prod.Lex.toLex_lt_toLex]
  cases he : a.ip.equal b.ip with
  | false =>
    have hk : a.ip.key ≠ b.ip.key := fun h => by simp [(IPAddress.equal_iff_key _ _).mpr h] at he
    simp [less, he, hk, IPAddress.less_iff_key]
  | true =>
    have hk := (IPAddress.equal_iff_key _ _).mp he
    have hany := IPAddress.isAny_congr he
    have hunspec := IPAddress.isUnspec_congr he
    cases hb : b.ip.isAny with
    | true => simp [less, he, hk, hany, hb, Prod.Lex.toLex_lt_toLex]
    | false =>
      cases hu : b.ip.isUnspec with
      | false => simp [less, he, hk, hany, hb, hunspec, hu, Prod.Lex.toLex_lt_toLex]
      | true =>
        by_cases hh : a.hostname = b.hostname <;>
          simp [less, he, hk, hany, hb, hunspec, hu, Prod.Lex.toLex_lt_toLex, hh]

/-- The pairs on which the two operators agree: different addresses, or the same
one where the members that operator< skips or operator== rejects do not matter. -/
def Coherent (a b : SocketAddress) : Prop :=
  a.ip.equal b.ip = false ∨
    if a.ip.isAny = true then a.hostname ≠ b.hostname
    else if a.ip.isUnspec = true then a.hostname ≠ b.hostname ∨ a.port ≠ b.port
    else a.hostname = b.hostname ∨ a.port ≠ b.port

theorem equal_iff (a b : SocketAddress) :
    a.equal b = true ↔ a.ip.equal b.ip = true ∧ a.ip.isAny = false ∧ a.ip.isUnspec = false ∧
      a.hostname = b.hostname ∧ a.port = b.port := by
  simp [equal, equalIPs, equalPorts, and_assoc]

theorem equal_orderKey {a b : SocketAddress} (h : a.equal b = true) : a.orderKey = b.orderKey := by
  obtain ⟨hi,ha,hu,_,hp⟩ := (equal_iff a b).mp h
  have hk := (IPAddress.equal_iff_key _ _).mp hi
  have hb := IPAddress.isAny_congr hi
  have hv := IPAddress.isUnspec_congr hi
  simp [orderKey, hk, ha, hu, hp, ← hb, ← hv]

/-- Addresses that operator< cannot tell apart are equal exactly on coherent pairs. -/
theorem equal_of_orderKey_iff (a b : SocketAddress) :
    (a.orderKey = b.orderKey → a.equal b = true) ↔ Coherent a b := by
  rw [equal_iff, orderKey, orderKey, toLex_inj, Prod.mk.injEq, Coherent]
  cases hi : a.ip.equal b.ip with
  | false =>
    have hk : a.ip.key ≠ b.ip.key := fun h => by simp [(IPAddress.equal_iff_key _ _).mpr h] at hi
    simp [hk]
  | true =>
    have hk := (IPAddress.equal_iff_key _ _).mp hi
    rw [← IPAddress.isAny_congr hi, ← IPAddress.isUnspec_congr hi]
    cases ha : a.ip.isAny with
    | true => simp [hk]
    | false =>
      cases hu : a.ip.isUnspec <;> simp [hk, Fin.val_inj] <;> tauto

theorem equal_symm {a b : SocketAddress} (h : a.equal b = true) : b.equal a = true := by
  obtain ⟨hi,ha,hu,hh,hp⟩ := (equal_iff a b).mp h
  have hj : b.ip.equal a.ip = true := by
    rw [IPAddress.equal_iff_key] at hi ⊢
    exact hi.symm
  exact (equal_iff b a).mpr ⟨hj,(IPAddress.isAny_congr hj).trans ha,(IPAddress.isUnspec_congr hj).trans hu,
    hh.symm,hp.symm⟩

theorem equal_trans {a b c : SocketAddress} (h : a.equal b = true) (k : b.equal c = true) :
    a.equal c = true := by
  obtain ⟨hi,ha,hu,hh,hp⟩ := (equal_iff a b).mp h
  obtain ⟨hj,_,_,hh',hp'⟩ := (equal_iff b c).mp k
  have hk : a.ip.equal c.ip = true := by
    rw [IPAddress.equal_iff_key] at hi hj ⊢
    exact hi.trans hj
  exact (equal_iff a c).mpr ⟨hk,ha,hu,hh.trans hh',hp.trans hp'⟩

theorem equal_refl_iff (a : SocketAddress) :
    a.equal a = true ↔ a.ip.isAny = false ∧ a.ip.isUnspec = false := by
  have hi : a.ip.equal a.ip = true := (IPAddress.equal_iff_key _ _).mpr rfl
  simp [equal_iff, hi]

/-- At every pair of addresses the trichotomy and the identification made by an ordered
container hold exactly if the pair is coherent. operator< is a strict weak order, and
operator== is symmetric and transitive, but reflexive on concrete addresses only. -/
theorem comparison_coherent_iff (a b : SocketAddress) :
    (ExactlyOne (a.less b = true) (a.equal b = true) (b.less a = true) ↔ Coherent a b) ∧
    (((¬ a.less b = true ∧ ¬ b.less a = true) ↔ a.equal b = true) ↔ Coherent a b) ∧
    (a.equal a = true ↔ a.ip.isAny = false ∧ a.ip.isUnspec = false) ∧
    (a.equal b = true → b.equal a = true) ∧
    (∀ c : SocketAddress, a.equal b = true → b.equal c = true → a.equal c = true) ∧
    IsStrictWeakOrder SocketAddress (fun a b => a.less b = true) := by
  have he (a b : SocketAddress) (h : a.equal b = true) : a.orderKey = b.orderKey := equal_orderKey h
  refine ⟨?_,?_,equal_refl_iff a,equal_symm,fun _ => equal_trans,KeyedOrder.strictWeakOrder less_iff_orderKey⟩
  · rw [KeyedOrder.exactlyOne_iff less_iff_orderKey he, equal_of_orderKey_iff]
  · rw [KeyedOrder.incomparable_iff_equal_iff less_iff_orderKey he, equal_of_orderKey_iff]

/-- The nil address is not equal to itself, nor is it below itself; two concrete
addresses that differ in host text alone are neither equal nor ordered. -/
theorem comparison_incoherent :
    ¬ ExactlyOne (clear.less clear = true) (clear.equal clear = true) (clear.less clear = true) ∧
    ∃ a b : SocketAddress, a.ip.isAny = false ∧ a.ip.isUnspec = false ∧
      a.less b = false ∧ a.equal b = false ∧ b.less a = false := by
  refine ⟨?_,⟨[97],.ofHostOrder 1,80,0,false⟩,⟨[],.ofHostOrder 1,80,0,false⟩,?_⟩
  · unfold ExactlyOne
    decide
  · decide

end UServer.Net.SocketAddress
