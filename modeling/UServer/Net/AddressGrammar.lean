import UServer.Net.AddressText

/-! What FromString does with every text, against the grammar of its comment: address:port
and [address]:port. -/
namespace UServer.Net
open Library Library.Numeral

variable (T : InetText)

/-- The host and the port that a text of the grammar gives. -/
inductive Denotes : List Byte → List Byte → ℕ → Prop
  | host {host port : List Byte} (hne : host ≠ []) (hc : ascii ':' ∉ host) (hp : SocketAddress.PortText port) :
    Denotes (host ++ ascii ':' :: port) host (value 10 port)
  | bracketed {v6 port : List Byte} {a : In6Addr} (h : T.pton6 v6 = some a) (hp : SocketAddress.PortText port) :
    Denotes (ascii '[' :: v6 ++ ascii ']' :: ascii ':' :: port) v6 (value 10 port)

/-- FromString returns, true exactly for the texts of the grammar; then the port is the one denoted and SetIP
has received the host, else the object is unchanged. -/
structure FollowsGrammar (str : List Byte) (a : SocketAddress) : Prop where
  returns : ∃ r b, a.fromString T str = some (r,b)
  accepts : ∀ r b, a.fromString T str = some (r,b) → (r = true ↔ ∃ host n, Denotes T str host n)
  decodes : ∀ b, a.fromString T str = some (true,b) → ∀ host n, Denotes T str host n →
    b.port.val = n ∧ b = ({ a with port := b.port }).setIPString T host
  refuses : ∀ b, a.fromString T str = some (false,b) → b = a

/-- The colon is missing where FromString looks for it: behind the first closing bracket of a text that starts
with an opening one, and anywhere in the others. -/
def NoColonFound (str : List Byte) : Prop :=
  if str.head? = some (ascii '[') then ascii ']' ∈ str ∧ ascii ':' ∉ str.dropWhile (· ≠ ascii ']')
  else ascii ':' ∉ str

/-- The ways in which FromString takes a text apart. -/
inductive Scan : List Byte → Prop
  | empty : Scan []
  | unclosed {rest : List Byte} (hb : ascii ']' ∉ rest) : Scan (ascii '[' :: rest)
  | bracketOnly {host rest : List Byte} (hb : ascii ']' ∉ host) (hc : ascii ':' ∉ rest) :
    Scan (ascii '[' :: host ++ ascii ']' :: rest)
  | bracket {host junk port : List Byte} (hb : ascii ']' ∉ host) (hc : ascii ':' ∉ junk) :
    Scan (ascii '[' :: host ++ ascii ']' :: (junk ++ ascii ':' :: port))
  | hostOnly {host : List Byte} (hne : host ≠ []) (hb : host.head? ≠ some (ascii '[')) (hc : ascii ':' ∉ host) :
    Scan host
  | host {host port : List Byte} (hb : host.head? ≠ some (ascii '[')) (hc : ascii ':' ∉ host) :
    Scan (host ++ ascii ':' :: port)

theorem scan (str : List Byte) : Scan str := by
  by_cases hs : str.head? = some (ascii '[')
  · obtain ⟨rest,rfl⟩ : ∃ rest, str = ascii '[' :: rest := by
      cases str with
      | nil => cases hs
      | cons c rest => exact ⟨rest,by rw [Option.some.inj hs]⟩
    by_cases hb : ascii ']' ∈ rest
    · obtain ⟨host,rest,rfl,hb'⟩ := List.eq_append_cons_of_mem hb
      by_cases hc : ascii ':' ∈ rest
      · obtain ⟨junk,port,rfl,hc'⟩ := List.eq_append_cons_of_mem hc
        exact .bracket hb' hc'
      · exact .bracketOnly hb' hc
    · exact .unclosed hb
  · by_cases hc : ascii ':' ∈ str
    · obtain ⟨host,port,rfl,hc'⟩ := List.eq_append_cons_of_mem hc
      refine .host (fun hh => hs ?_) hc'
      rw [List.head?_append, hh]
      rfl
    · by_cases hne : str = []
      · rw [hne]
        exact .empty
      · exact .hostOnly hne hs hc

section Results
variable (a : SocketAddress)

theorem fromString_unclosed {rest : List Byte} (hb : ascii ']' ∉ rest) :
    a.fromString T (ascii '[' :: rest) = some (true,a) := by
  have hb' : ascii ']' ∉ ascii '[' :: rest := List.not_mem_cons_of_ne_of_not_mem (by decide) hb
  have hf : find (ascii '[' :: rest) (ascii ']') 0 = none := find_eq_none (p := []) hb'
  simp only [SocketAddress.fromString, if_true, hf]

theorem fromString_bracketOnly {host rest : List Byte} (hb : ascii ']' ∉ host) (hc : ascii ':' ∉ rest) :
    a.fromString T (ascii '[' :: host ++ ascii ']' :: rest) = some (false,a) := by
  have hb' : ascii ']' ∉ ascii '[' :: host := List.not_mem_cons_of_ne_of_not_mem (by decide) hb
  have hc' : ascii ':' ∉ ascii ']' :: rest := List.not_mem_cons_of_ne_of_not_mem (by decide) hc
  have hf : find (ascii '[' :: host ++ ascii ']' :: rest) (ascii ']') 0 = some (host.length + 1) := find_append [] hb'
  have hg : find (ascii '[' :: host ++ ascii ']' :: rest) (ascii ':') (host.length + 1) = none :=
    find_eq_none (p := ascii '[' :: host) hc'
  rw [List.cons_append] at hf hg ⊢
  simp only [SocketAddress.fromString, if_true, hf, hg]

theorem fromString_hostOnly {host : List Byte} (hne : host ≠ []) (hb : host.head? ≠ some (ascii '['))
    (hc : ascii ':' ∉ host) : a.fromString T host = some (false,a) := by
  have hf : find host (ascii ':') 0 = none := find_eq_none (p := []) hc
  cases host with
  | nil => exact absurd rfl hne
  | cons c rest =>
    have hne : c ≠ ascii '[' := fun h => hb (by rw [h]; rfl)
    simp only [SocketAddress.fromString, if_neg hne, hf]

end Results

section Grammar
variable {T} {str host h junk p rest : List Byte} {n : ℕ}

theorem Denotes.colon_mem (hd : Denotes T str host n) : ascii ':' ∈ str := by
  cases hd with
  | host hne hc hp => exact List.mem_append_right _ List.mem_cons_self
  | bracketed h hp => exact List.mem_append_right _ (List.mem_cons_of_mem _ List.mem_cons_self)

theorem Denotes.host_ne_nil (hT : T.Lawful) (hd : Denotes T str host n) : host ≠ [] := by
  cases hd with
  | host hne hc hp => exact hne
  | bracketed h hp => exact List.ne_nil_of_mem (hT.text6 _ _ h).1

/-- Without a bracket at its start a text has one host and one port. -/
theorem Denotes.eq_host (hd : Denotes T str host n) (hs : str = h ++ ascii ':' :: p)
    (hb : h.head? ≠ some (ascii '[')) (hc : ascii ':' ∉ h) :
    h ≠ [] ∧ host = h ∧ SocketAddress.PortText p ∧ value 10 p = n := by
  cases hd with
  | host hne hc' hp =>
    obtain ⟨rfl,rfl⟩ := cut_unique hc' hc hs
    exact ⟨hne,rfl,hp,rfl⟩
  | bracketed h6 hp =>
    cases h with
    | nil => exact absurd (List.cons.inj hs).1 (by decide)
    | cons c h => exact absurd (congrArg some (List.cons.inj hs).1.symm) hb

/-- A text in brackets has the host between them, unless the brackets are taken as part of the host. -/
theorem Denotes.eq_bracket (hT : T.Lawful) (hd : Denotes T str host n)
    (hs : str = ascii '[' :: h ++ ascii ']' :: (junk ++ ascii ':' :: p)) (hb : ascii ']' ∉ h) (hc : ascii ':' ∉ junk)
    (hh : host.head? ≠ some (ascii '[') ∨ host = h) :
    junk = [] ∧ (∃ a, T.pton6 h = some a) ∧ host = h ∧ SocketAddress.PortText p ∧ value 10 p = n := by
  cases hd with
  | @host _ port hne hc' hp =>
    exfalso
    rcases hh with hh | rfl
    · cases host with
      | nil => exact hne rfl
      | cons c host => exact hh (congrArg some (List.cons.inj hs).1)
    · have he : port = ascii ']' :: (junk ++ ascii ':' :: p) := by
        have hdrop := congrArg (List.drop (host.length + 1)) hs
        rwa [← List.drop_drop, List.drop_left, ← List.length_cons (a := ascii '['), List.drop_left] at hdrop
      exact absurd (hp.digits (ascii ']') (he ▸ List.mem_cons_self)) (by decide)
  | @bracketed _ port a h6 hp =>
    have hb6 : ascii ']' ∉ host := hT.not_mem6 h6 (by decide) (by decide) (by decide)
    obtain ⟨hv,hr⟩ := cut_unique (List.not_mem_cons_of_ne_of_not_mem (by decide) hb6)
      (List.not_mem_cons_of_ne_of_not_mem (by decide) hb) hs
    obtain ⟨hj,rfl⟩ := cut_unique (h := []) List.not_mem_nil hc hr
    obtain rfl := (List.cons.inj hv).2
    exact ⟨hj.symm,⟨a,h6⟩,rfl,hp,rfl⟩

/-- A closing bracket behind the first colon leaves the form with brackets. -/
theorem Denotes.bracketed_of_closing {x w : List Byte} (hd : Denotes T str host n) (hs : str = x ++ ascii ':' :: w)
    (hx : ascii ':' ∉ x) (hw : ascii ']' ∈ w) :
    (∃ a, T.pton6 host = some a) ∧ ∃ port, str = ascii '[' :: host ++ ascii ']' :: ascii ':' :: port := by
  cases hd with
  | host hne hc hp =>
    obtain ⟨-,rfl⟩ := cut_unique hc hx hs
    exact absurd (hp.digits _ hw) (by decide)
  | bracketed h6 hp => exact ⟨⟨_,h6⟩,_,rfl⟩

theorem Denotes.closing_mem (hd : Denotes T str host n) (hs : str.head? = some (ascii '['))
    (hh : host.head? ≠ some (ascii '[')) : ascii ']' ∈ str := by
  cases hd with
  | host hne hc hp =>
    rw [List.head?_append_of_ne_nil _ hne] at hs
    exact absurd hs hh
  | bracketed h6 hp => exact List.mem_append_right _ List.mem_cons_self

/-- The text of an IPv6 address in brackets is read in no other way. -/
theorem Denotes.head_ne (hT : T.Lawful) {a : In6Addr} (h6 : T.pton6 h = some a) (hd : Denotes T str host n)
    (hs : str = ascii '[' :: h ++ ascii ']' :: rest) : host.head? ≠ some (ascii '[') := by
  obtain ⟨u,w,rfl,hu⟩ := List.eq_append_cons_of_mem (hT.text6 _ _ h6).1
  have hs' : str = (ascii '[' :: u) ++ ascii ':' :: (w ++ ascii ']' :: rest) := by simpa using hs
  obtain ⟨⟨a',h6'⟩,-⟩ := hd.bracketed_of_closing hs' (List.not_mem_cons_of_ne_of_not_mem (by decide) hu)
    (List.mem_append_right _ List.mem_cons_self)
  exact fun hm => hT.not_mem6 h6' (by decide) (by decide) (by decide) (List.mem_of_mem_head? hm)

/-- Without a colon behind the closing bracket a text is not in the grammar. -/
theorem not_denotes_bracketOnly (hT : T.Lawful) (hb : ascii ']' ∉ h) (hc : ascii ':' ∉ rest) :
    ¬ Denotes T (ascii '[' :: h ++ ascii ']' :: rest) host n := by
  intro hd
  have hm : ascii ':' ∈ h := by
    rcases List.mem_append.mp hd.colon_mem with hm | hm
    · exact List.mem_of_ne_of_mem (by decide) hm
    · exact absurd (List.mem_of_ne_of_mem (by decide) hm) hc
  obtain ⟨u,w,rfl,hu⟩ := List.eq_append_cons_of_mem hm
  obtain ⟨⟨a,h6⟩,port,he⟩ := hd.bracketed_of_closing (x := ascii '[' :: u) (w := w ++ ascii ']' :: rest) (by simp)
    (List.not_mem_cons_of_ne_of_not_mem (by decide) hu) (List.mem_append_right _ List.mem_cons_self)
  have hb6 : ascii ']' ∉ host := hT.not_mem6 h6 (by decide) (by decide) (by decide)
  obtain ⟨-,rfl⟩ := cut_unique (List.not_mem_cons_of_ne_of_not_mem (by decide) hb)
    (List.not_mem_cons_of_ne_of_not_mem (by decide) hb6) he
  exact hc List.mem_cons_self

end Grammar

section Search
variable {host rest : List Byte}

theorem not_noColonFound_unclosed (hb : ascii ']' ∉ rest) : ¬ NoColonFound (ascii '[' :: rest) := by
  intro hn
  rw [NoColonFound, if_pos List.head?_cons] at hn
  exact List.not_mem_cons_of_ne_of_not_mem (by decide) hb hn.1

theorem noColonFound_bracket_iff (hb : ascii ']' ∉ host) :
    NoColonFound (ascii '[' :: host ++ ascii ']' :: rest) ↔ ascii ':' ∉ rest := by
  have hd : (ascii '[' :: host ++ ascii ']' :: rest).dropWhile (· ≠ ascii ']') = ascii ']' :: rest := by
    rw [List.dropWhile_append_of_pos, List.dropWhile_cons_of_neg (by simp)]
    intro c hc
    rcases List.mem_cons.mp hc with rfl | hc
    · decide
    · exact decide_eq_true (ne_of_mem_of_not_mem hc hb)
  rw [NoColonFound, List.cons_append, if_pos List.head?_cons, ← List.cons_append, hd]
  constructor
  · intro hn hm
    exact hn.2 (List.mem_cons_of_mem _ hm)
  · intro hc
    exact ⟨List.mem_append_right _ List.mem_cons_self,List.not_mem_cons_of_ne_of_not_mem (by decide) hc⟩

theorem noColonFound_of_head_ne {str : List Byte} (hb : str.head? ≠ some (ascii '[')) :
    NoColonFound str ↔ ascii ':' ∉ str := by
  rw [NoColonFound, if_neg hb]

end Search

/-- A text for which nothing is decoded, or one of the grammar whose host does not start with a bracket. -/
def Handled (str : List Byte) : Prop :=
  str ≠ [] ∧ (NoColonFound str ∨ ∃ host n, Denotes T str host n ∧ host.head? ≠ some (ascii '['))

variable {T}

/-- What is left of the grammar when FromString decodes some host and port of a text. -/
theorem followsGrammar_of_decoded {str host port : List Byte} (a : SocketAddress)
    (he : a.fromString T str = some (true,({ a with port := SocketAddress.portOfText port }).setIPString T host))
    (hp : SocketAddress.PortText port) (hd : Denotes T str host (value 10 port))
    (hu : ∀ h n, Denotes T str h n → h = host ∧ n = value 10 port) : FollowsGrammar T str a := by
  refine ⟨⟨_,_,he⟩,fun r b hr => ?_,fun b hr h n hn => ?_,fun b hr => ?_⟩
  · cases he.symm.trans hr
    exact iff_of_true rfl ⟨host,_,hd⟩
  · obtain ⟨rfl,rfl⟩ := hu h n hn
    cases he.symm.trans hr
    exact ⟨SocketAddress.portOfText_val hp,rfl⟩
  · cases he.symm.trans hr

theorem followsGrammar_of_refused {str : List Byte} (a : SocketAddress) (he : a.fromString T str = some (false,a))
    (hd : ∀ host n, ¬ Denotes T str host n) : FollowsGrammar T str a := by
  refine ⟨⟨_,_,he⟩,fun r b hr => ?_,fun b hr => ?_,fun b hr => ?_⟩
  · cases he.symm.trans hr
    exact iff_of_false Bool.false_ne_true fun ⟨host,n,hn⟩ => hd host n hn
  · cases he.symm.trans hr
  · cases he.symm.trans hr
    rfl

theorem followsGrammar_of_handled (hT : T.Lawful) {str : List Byte} (h : Handled T str) (a : SocketAddress) :
    FollowsGrammar T str a := by
  obtain ⟨hne,h⟩ := h
  cases scan str with
  | empty => exact absurd rfl hne
  | unclosed hb =>
    rcases h with h | ⟨host,n,hd,hh⟩
    · exact absurd h (not_noColonFound_unclosed hb)
    · have hm := hd.closing_mem List.head?_cons hh
      exact absurd hm (List.not_mem_cons_of_ne_of_not_mem (by decide) hb)
  | bracketOnly hb hc =>
    exact followsGrammar_of_refused a (fromString_bracketOnly T a hb hc) fun _ _ => not_denotes_bracketOnly hT hb hc
  | bracket hb hc =>
    rcases h with h | ⟨_,_,hd,hh⟩
    · exact absurd (List.mem_append_right _ List.mem_cons_self) ((noColonFound_bracket_iff hb).mp h)
    · obtain ⟨rfl,⟨a6,h6⟩,rfl,hp,rfl⟩ := hd.eq_bracket hT rfl hb hc (.inl hh)
      refine followsGrammar_of_decoded a (SocketAddress.fromString_bracket T a hb) hp (.bracketed h6 hp) fun h n hn => ?_
      obtain ⟨-,-,hh,-,hv⟩ := hn.eq_bracket hT rfl hb hc (.inl (hn.head_ne hT h6 rfl))
      exact ⟨hh,hv.symm⟩
  | hostOnly hne hb hc =>
    exact followsGrammar_of_refused a (fromString_hostOnly T a hne hb hc) fun _ _ hd => hc hd.colon_mem
  | @host host port hb hc =>
    have hh' : (host ++ ascii ':' :: port).head? ≠ some (ascii '[') := by
      cases host with
      | nil => exact fun h => absurd (Option.some.inj h) (by decide)
      | cons c host => exact hb
    rcases h with h | ⟨_,_,hd,hh⟩
    · exact absurd (List.mem_append_right _ List.mem_cons_self) ((noColonFound_of_head_ne hh').mp h)
    · obtain ⟨hne,rfl,hp,rfl⟩ := hd.eq_host rfl hb hc
      refine followsGrammar_of_decoded a (SocketAddress.fromString_host T a hc hb) hp (.host hne hc hp) fun h n hn => ?_
      obtain ⟨-,hh,-,hv⟩ := hn.eq_host rfl hb hc
      exact ⟨hh,hv.symm⟩

/-- Without a closing bracket nothing is parsed and true is returned. -/
theorem not_followsGrammar_unclosed (hT : T.Lawful) {rest : List Byte} (hb : ascii ']' ∉ rest) :
    ¬ FollowsGrammar T (ascii '[' :: rest) .clear := by
  intro h
  have he := fromString_unclosed T .clear hb
  obtain ⟨host,n,hd⟩ := (h.accepts _ _ he).mp rfl
  have hn : [] = host := congrArg SocketAddress.hostname (h.decodes _ he host n hd).2
  exact hd.host_ne_nil hT hn.symm

theorem handled_of_followsGrammar (hT : T.Lawful) {str : List Byte} (h : ∀ a, FollowsGrammar T str a) :
    Handled T str := by
  have ha := h .clear
  cases scan str with
  | empty =>
    obtain ⟨r,b,hr⟩ := ha.returns
    cases hr
  | unclosed hb => exact absurd ha (not_followsGrammar_unclosed hT hb)
  | bracketOnly hb hc => exact ⟨nofun,.inl ((noColonFound_bracket_iff hb).mpr hc)⟩
  | @bracket host junk port hb hc =>
    have he := @SocketAddress.fromString_junk T .clear host junk port hb hc
    obtain ⟨h,n,hd⟩ := (ha.accepts _ _ he).mp rfl
    have hh : host = h := congrArg SocketAddress.hostname (ha.decodes _ he h n hd).2
    obtain ⟨-,⟨a6,h6⟩,rfl,-,-⟩ := hd.eq_bracket hT rfl hb hc (.inr hh.symm)
    exact ⟨nofun,.inr ⟨_,_,hd,fun hm => hT.not_mem6 h6 (by decide) (by decide) (by decide) (List.mem_of_mem_head? hm)⟩⟩
  | hostOnly hne hb hc => exact ⟨hne,.inl ((noColonFound_of_head_ne hb).mpr hc)⟩
  | @host host port hb hc =>
    obtain ⟨h,n,hd⟩ := (ha.accepts _ _ (SocketAddress.fromString_host T .clear hc hb)).mp rfl
    obtain ⟨-,rfl,-,-⟩ := hd.eq_host rfl hb hc
    exact ⟨List.ne_nil_of_mem hd.colon_mem,.inr ⟨_,_,hd,hb⟩⟩

/-- FromString follows its grammar exactly on the texts it handles. -/
theorem fromString_grammar_iff (hT : T.Lawful) (str : List Byte) :
    (∀ a, FollowsGrammar T str a) ↔ Handled T str :=
  ⟨handled_of_followsGrammar hT,followsGrammar_of_handled hT⟩

theorem fromString_grammar_host : FollowsGrammar plainInet (text "host:80") .clear := by
  have he : text "host:80" = text "host" ++ ascii ':' :: text "80" := by decide +kernel
  have hp : SocketAddress.PortText (text "80") := ⟨by decide +kernel,by decide +kernel,by decide +kernel⟩
  have hd : Denotes plainInet (text "host:80") (text "host") (value 10 (text "80")) :=
    he ▸ .host (by decide +kernel) (by decide +kernel) hp
  exact (fromString_grammar_iff plainInet_lawful _).mpr
    ⟨List.ne_nil_of_mem hd.colon_mem,.inr ⟨_,_,hd,by decide +kernel⟩⟩ .clear

/-- An opening bracket without a closing one: true is returned and nothing was parsed. -/
theorem fromString_not_grammar :
    SocketAddress.clear.fromString plainInet (text "[::1") = some (true,.clear) ∧
      ¬ FollowsGrammar plainInet (text "[::1") .clear := by
  have ht : text "[::1" = ascii '[' :: text "::1" := by decide +kernel
  have hb : ascii ']' ∉ text "::1" := by decide +kernel
  rw [ht]
  exact ⟨fromString_unclosed _ _ hb,not_followsGrammar_unclosed plainInet_lawful hb⟩

end UServer.Net
