import UServer.Net.InetText
import UServer.Net.SocketAddress

/-! Socket addresses as text: printing through the host text or the address, parsing with
and without brackets, and strtoul for the port. -/
namespace UServer.Net
open Library Library.Numeral

/-- isspace in the C locale. -/
def isSpace (c : Byte) : Bool := c.val = 32 ∨ (9 ≤ c.val ∧ c.val ≤ 13)

/-- strtoul in base ten: blanks, a sign, and the digits up to the first other character. -/
def strtoul (s : List Byte) : ℕ :=
  let rest := s.dropWhile isSpace
  let negated := rest.head? = some (ascii '-')
  let digits := if negated ∨ rest.head? = some (ascii '+') then rest.tail else rest
  let n := value 10 (digits.takeWhile isDigit)
  if 2 ^ 64 ≤ n then 2 ^ 64 - 1 else if negated then (2 ^ 64 - n) % 2 ^ 64 else n

/-- The conversion of an unsigned long to int. -/
def intOfULong (n : ℕ) : ℤ := (n : ℤ).bmod (2 ^ 32)

theorem intOfULong_eq {n : ℕ} (h : n < 65536) : intOfULong n = n := by
  apply Int.bmod_eq_of_le
  · norm_num
  · norm_num
    omega

namespace SocketAddress
variable (T : InetText)

/-- SetIP from text keeps the text as the host. -/
def setIPString (a : SocketAddress) (ip : List Byte) : SocketAddress :=
  let (literal, out) := T.ipFromString ip
  { a with hostname := ip, literal := literal, ip := if literal then out else .nil }

def hostAsURIString (a : SocketAddress) : List Byte :=
  if a.hostname ≠ [] then a.hostname
  else if a.ip.family = .inet6 then ascii '[' :: T.toString a.ip ++ [ascii ']']
  else T.toString a.ip

def toString (a : SocketAddress) : List Byte := a.hostAsURIString T ++ ascii ':' :: numeral 10 a.port.val

/-- FromString; none is the exception that at(0) throws on the empty text. -/
def fromString (a : SocketAddress) (str : List Byte) : Option (Bool × SocketAddress) :=
  match str with
  | [] => none
  | c :: _ =>
    some (if c = ascii '[' then
      match find str (ascii ']') 0 with
      | none => (true,a)
      | some closeBracketPos =>
        match find str (ascii ':') closeBracketPos with
        | none => (false,a)
        | some pos =>
          (true,(a.setPort (intOfULong (strtoul (cStr (str.drop (pos + 1)))))).setIPString T
            ((str.drop 1).take (closeBracketPos - 1)))
    else
      match find str (ascii ':') 0 with
      | none => (false,a)
      | some pos =>
        (true,(a.setPort (intOfULong (strtoul (cStr (str.drop (pos + 1)))))).setIPString T (str.take pos)))

/-- The port that a text after the colon gives. -/
def portOfText (port : List Byte) : Word 2 := portOfInt (intOfULong (strtoul (cStr port)))

/-- Text host:port with neither a bracket at its start nor a colon in the host. -/
theorem fromString_host (a : SocketAddress) {host port : List Byte} (hc : ascii ':' ∉ host)
    (hb : host.head? ≠ some (ascii '[')) :
    a.fromString T (host ++ ascii ':' :: port) = some (true,({ a with port := portOfText port }).setIPString T host) := by
  have hf : find (host ++ ascii ':' :: port) (ascii ':') 0 = some host.length := find_append [] hc
  have hd : (host ++ ascii ':' :: port).drop (host.length + 1) = port := by
    rw [← List.drop_drop, List.drop_left]
    rfl
  have ht : (host ++ ascii ':' :: port).take host.length = host := List.take_left
  have hh : (host ++ ascii ':' :: port).head? ≠ some (ascii '[') := by
    cases host with
    | nil => exact fun h => absurd (Option.some.inj h) (by decide)
    | cons c host => exact hb
  generalize host ++ ascii ':' :: port = str at *
  cases str with
  | nil => cases hf
  | cons c str =>
    have hne : c ≠ ascii '[' := fun h => hh (by rw [h]; rfl)
    simp only [fromString, if_neg hne, hf, hd, ht]
    rfl

/-- Text [host]junk:port, with no closing bracket in the host and no colon in what is skipped. -/
theorem fromString_junk (a : SocketAddress) {host junk port : List Byte} (hb : ascii ']' ∉ host)
    (hc : ascii ':' ∉ junk) :
    a.fromString T (ascii '[' :: host ++ ascii ']' :: (junk ++ ascii ':' :: port)) =
      some (true,({ a with port := portOfText port }).setIPString T host) := by
  have hb' : ascii ']' ∉ ascii '[' :: host := List.not_mem_cons_of_ne_of_not_mem (by decide) hb
  have hc' : ascii ':' ∉ ascii ']' :: junk := List.not_mem_cons_of_ne_of_not_mem (by decide) hc
  have hf : find (ascii '[' :: host ++ ascii ']' :: (junk ++ ascii ':' :: port)) (ascii ']') 0 = some (host.length + 1) :=
    find_append [] hb'
  have hg : find (ascii '[' :: host ++ ascii ']' :: (junk ++ ascii ':' :: port)) (ascii ':') (host.length + 1) =
      some (junk.length + 1 + (host.length + 1)) :=
    find_append (ascii '[' :: host) hc'
  have hd : (ascii '[' :: host ++ ascii ']' :: (junk ++ ascii ':' :: port)).drop
      (junk.length + 1 + (host.length + 1) + 1) = port := by
    rw [show junk.length + 1 + (host.length + 1) + 1 = (ascii '[' :: host).length + ((ascii ']' :: junk).length + 1) by
      simp; omega, ← List.drop_drop, List.drop_left, ← List.drop_drop]
    exact congrArg (List.drop 1) (@List.drop_left _ (ascii ']' :: junk) _)
  have ht : ((ascii '[' :: host ++ ascii ']' :: (junk ++ ascii ':' :: port)).drop 1).take (host.length + 1 - 1) = host :=
    List.take_left
  rw [List.cons_append] at hf hg hd ht ⊢
  simp only [fromString, if_true, hf, hg, hd, ht]
  rfl

/-- Text [host]:port with no closing bracket in the host. -/
theorem fromString_bracket (a : SocketAddress) {host port : List Byte} (hc : ascii ']' ∉ host) :
    a.fromString T (ascii '[' :: host ++ ascii ']' :: ascii ':' :: port) =
      some (true,({ a with port := portOfText port }).setIPString T host) :=
  @fromString_junk T a host [] port hc List.not_mem_nil

/-- What a port looks like: digits that stand for a number below 65536. -/
structure PortText (port : List Byte) : Prop where
  ne_nil : port ≠ []
  digits : ∀ c ∈ port, isDigit c = true
  small : value 10 port < 65536

/-- Such a port is read as the number it stands for. -/
theorem portOfText_val {port : List Byte} (h : PortText port) : (portOfText port).val = value 10 port := by
  have hz : cStr port = port := cStr_eq_self fun hm => absurd (h.digits 0 hm) (by decide)
  have ht : port.takeWhile isDigit = port := List.takeWhile_eq_self_iff.mpr h.digits
  have hlt := h.small
  have hs : strtoul port = value 10 port := by
    obtain ⟨c,cs,hcs⟩ := List.exists_cons_of_ne_nil h.ne_nil
    have hc : isDigit c = true := h.digits c (by rw [hcs]; exact List.mem_cons_self)
    have hsp : isSpace c = false := by
      simp only [isDigit, isSpace, decide_eq_true_eq, decide_eq_false_iff_not] at hc ⊢
      omega
    have hm : c ≠ ascii '-' := fun h => Bool.noConfusion ((congrArg isDigit h).symm.trans hc)
    have hp : c ≠ ascii '+' := fun h => Bool.noConfusion ((congrArg isDigit h).symm.trans hc)
    have hdw : port.dropWhile isSpace = port := by
      rw [hcs, List.dropWhile_cons_of_neg (by simp [hsp])]
    have hh : port.head? = some c := by rw [hcs]; rfl
    simp only [strtoul, hdw, hh, Option.some.injEq, hm, hp, or_self, if_false, ht]
    rw [if_neg (by omega)]
  rw [portOfText, hz, hs, intOfULong_eq hlt]
  simp only [portOfInt]
  omega

/-- Every port is printed as text that gives it back. -/
theorem portOfText_numeral (port : Word 2) : portOfText (numeral 10 port.val) = port := by
  have hv : value 10 (numeral 10 port.val) = port.val := value_numeral (by decide) (by decide) port.val
  have hp : PortText (numeral 10 port.val) :=
    ⟨numeral_ne_nil _,fun c hc => isDigit_numeral hc,hv.trans_lt port.isLt⟩
  exact Fin.ext ((portOfText_val hp).trans hv)

end SocketAddress
end UServer.Net
