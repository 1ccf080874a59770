import UServer.Net.AddressText

/-! Printing a socket address and parsing the text again: every address comes back but those
that were parsed from brackets, whose host text is printed without them. -/
namespace UServer.Net
open Library Library.Numeral

variable (T : InetText)

/-- Text host:port without a colon in the host, and [ipv6]:port. Whatever follows is read as a port. -/
inductive WellFormed : List Byte → Prop
  | host {host port : List Byte} (hne : host ≠ []) (hc : ascii ':' ∉ host) (hb : host.head? ≠ some (ascii '[')) :
    WellFormed (host ++ ascii ':' :: port)
  | bracketed {v6 port : List Byte} {a : In6Addr} (h : T.pton6 v6 = some a) :
    WellFormed (ascii '[' :: v6 ++ ascii ']' :: ascii ':' :: port)

/-- Addresses made from an IPv4 or IPv6 address and a port, or parsed from well-formed text. -/
inductive Obtained : SocketAddress → Prop
  | ofIP (unset : Indeterminate) {ip : IPAddress} (h : ip.family ≠ .unspec) (port : ℤ) : Obtained (.ofIP unset ip port)
  | parsed {str : List Byte} {a b : SocketAddress} (hw : WellFormed T str) (h : a.fromString T str = some (true,b)) :
    Obtained b

/-- FromString of the printed text on a fresh address gives back family, ip, port and a host that is no literal. -/
def RoundTrips (a : SocketAddress) : Prop :=
  ∃ b, SocketAddress.clear.fromString T (a.toString T) = some (true,b) ∧ b.ip.family = a.ip.family ∧
    b.ip.equal a.ip = true ∧ b.port = a.port ∧
    (a.hostname ≠ [] → T.literalOf a.hostname = none → b.hostname = a.hostname)

variable {T}

namespace SocketAddress
variable {a b : SocketAddress} {s : List Byte}

@[simp] theorem hostname_setIPString : (a.setIPString T s).hostname = s := rfl

theorem family_of_equal {x y : IPAddress} (h : x.equal y = true) : x.family = y.family := by
  by_contra hne
  simp [IPAddress.equal, hne] at h

end SocketAddress

open SocketAddress in
/-- An address without host text is printed by inet_ntop, with brackets for IPv6. -/
theorem roundTrips_of_nil (hT : T.Lawful) {a : SocketAddress} (hn : a.hostname = []) (hf : a.ip.family ≠ .unspec) :
    RoundTrips T a := by
  obtain ⟨htrue,heq⟩ := hT.ipFromString_toString a.ip hf
  have hip : ∀ c : SocketAddress, (c.setIPString T (T.toString a.ip)).ip.equal a.ip = true := by
    intro c
    simp only [setIPString, htrue, if_true]
    exact heq
  have hgo : SocketAddress.clear.fromString T (a.toString T) =
      some (true,({ SocketAddress.clear with port := a.port }).setIPString T (T.toString a.ip)) := by
    rw [SocketAddress.toString, hostAsURIString, if_neg (by simp [hn])]
    split
    · rename_i h6
      have hv : T.pton6 (T.toString a.ip) = some a.ip.ipv6Address := by
        rw [InetText.toString, h6]
        exact hT.pton6_ntop6 _
      have hb : ascii ']' ∉ T.toString a.ip := hT.not_mem6 hv (by decide) (by decide) (by decide)
      rw [List.append_assoc, List.singleton_append, fromString_bracket T _ hb, portOfText_numeral]
    · rename_i h6
      have hv : T.pton4 (T.toString a.ip) = some a.ip.ipv4Address := by
        cases hfam : a.ip.family with
        | unspec => exact absurd hfam hf
        | inet6 => exact absurd hfam h6
        | inet =>
          rw [InetText.toString, hfam]
          exact hT.pton4_ntop4 _
      have hc : ascii ':' ∉ T.toString a.ip := hT.not_mem4 hv (by decide) (by decide)
      have hb : (T.toString a.ip).head? ≠ some (ascii '[') := fun h =>
        hT.not_mem4 hv (by decide) (by decide) (List.mem_of_mem_head? h)
      rw [fromString_host T _ hc hb, portOfText_numeral]
  exact ⟨_,hgo,family_of_equal (hip _),hip _,rfl,fun h => absurd hn h⟩

open SocketAddress in
/-- Host text without a colon comes back as it was. -/
theorem roundTrips_of_host {a c : SocketAddress} {host : List Byte} (hne : host ≠ []) (hc : ascii ':' ∉ host)
    (hb : host.head? ≠ some (ascii '[')) (ha : a = c.setIPString T host) : RoundTrips T a := by
  subst ha
  have ht : (c.setIPString T host).toString T = host ++ ascii ':' :: numeral 10 c.port.val := by
    rw [SocketAddress.toString, hostAsURIString, hostname_setIPString, if_pos hne]
    rfl
  have hgo : SocketAddress.clear.fromString T ((c.setIPString T host).toString T) =
      some (true,({ SocketAddress.clear with port := c.port }).setIPString T host) := by
    rw [ht, fromString_host T _ hc hb, portOfText_numeral]
  exact ⟨_,hgo,rfl,(IPAddress.equal_iff_key _ _).mpr rfl,rfl,fun _ _ => rfl⟩

open SocketAddress in
/-- Host text that is an IPv6 address is printed without brackets and cut at its first colon. -/
theorem not_roundTrips_of_pton6 (hT : T.Lawful) {a c : SocketAddress} {v6 : List Byte} {a6 : In6Addr}
    (h : T.pton6 v6 = some a6) (ha : a = c.setIPString T v6) : ¬ RoundTrips T a := by
  rintro ⟨b,hb,hf,-⟩
  subst ha
  obtain ⟨host,rest,rfl,hc⟩ := List.eq_append_cons_of_mem (hT.text6 v6 a6 h).1
  have ht : (c.setIPString T (host ++ ascii ':' :: rest)).toString T =
      host ++ ascii ':' :: (rest ++ ascii ':' :: numeral 10 c.port.val) := by
    rw [SocketAddress.toString, hostAsURIString, hostname_setIPString, if_pos (by simp), List.append_assoc]
    rfl
  have hh : host.head? ≠ some (ascii '[') := fun hm =>
    hT.not_mem6 h (by decide) (by decide) (by decide) (List.mem_append_left _ (List.mem_of_mem_head? hm))
  rw [ht, fromString_host T _ hc hh] at hb
  cases hb
  have h6 : (c.setIPString T (host ++ ascii ':' :: rest)).ip.family = .inet6 := by
    simp only [setIPString, hT.ipFromString_pton6 h, if_true]
    rfl
  rw [h6] at hf
  simp only [setIPString] at hf
  split at hf
  · exact hT.family_ipFromString hc hf
  · cases hf

/-- A round trip holds exactly for the addresses whose host text has no colon: those that were not parsed
from brackets. -/
theorem text_round_trip_iff (hT : T.Lawful) {a : SocketAddress} (h : Obtained T a) :
    RoundTrips T a ↔ ascii ':' ∉ a.hostname := by
  cases h with
  | ofIP unset hf port =>
    exact iff_of_true (roundTrips_of_nil hT rfl hf) List.not_mem_nil
  | @parsed str c b hw h =>
    cases hw with
    | @host host port hne hc hb =>
      rw [SocketAddress.fromString_host T c hc hb] at h
      cases h
      exact iff_of_true (roundTrips_of_host hne hc hb rfl) hc
    | @bracketed v6 port a6 h6 =>
      have hb : ascii ']' ∉ v6 := hT.not_mem6 h6 (by decide) (by decide) (by decide)
      rw [SocketAddress.fromString_bracket T c hb] at h
      cases h
      exact iff_of_false (not_roundTrips_of_pton6 hT h6 rfl) fun hn => hn (hT.text6 v6 a6 h6).1

theorem text_round_trip_loopback : RoundTrips plainInet (.ofIP ⟨0,false⟩ (.ofHostOrder 0x7f000001) 80) :=
  (text_round_trip_iff plainInet_lawful (.ofIP _ (by decide) 80)).mpr List.not_mem_nil

/-- What FromString makes of [2001:db8:1:2:3:4:5:6]:80. -/
def bracketedSample : SocketAddress :=
  ({ SocketAddress.clear with port := 80 }).setIPString plainInet (text "2001:db8:1:2:3:4:5:6")

/-- It is printed as 2001:db8:1:2:3:4:5:6:80, which does not come back. -/
theorem text_round_trip_fails :
    SocketAddress.clear.fromString plainInet (text "[2001:db8:1:2:3:4:5:6]:80") = some (true,bracketedSample) ∧
      bracketedSample.toString plainInet = text "2001:db8:1:2:3:4:5:6:80" ∧ ¬ RoundTrips plainInet bracketedSample := by
  have h6 : plainInet.pton6 (text "2001:db8:1:2:3:4:5:6") = some (PlainInet.read6 (text "2001:db8:1:2:3:4:5:6")) :=
    by decide
  have hport : SocketAddress.portOfText (text "80") = 80 := by decide
  refine ⟨?_,by decide,not_roundTrips_of_pton6 plainInet_lawful h6 rfl⟩
  have hb := @SocketAddress.fromString_bracket plainInet .clear (text "2001:db8:1:2:3:4:5:6") (text "80") (by decide)
  rw [hport] at hb
  exact hb

end UServer.Net
