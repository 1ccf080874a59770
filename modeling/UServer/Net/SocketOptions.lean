import UServer.Net.SocketDispatcher

/-! GetOption and SetOption over the kernel's options, through the switch of TranslateOption, whose
cases for the address and port reuse have no break. -/
namespace UServer.Net
open Library

/-- Socket::Option. -/
inductive SocketOption where
  | dontFragment | rcvBuf | sndBuf | nodelay | ipv6V6Only | reuseAddr | reusePort | dscp | rtpSendtimeExtnId
  deriving DecidableEq, Repr

/-- The level and the name of an option of the kernel. -/
structure KernelOption where
  level : ℤ
  name : ℤ
  deriving DecidableEq, Repr

namespace KernelOption

/-- SOL_SOCKET, IPPROTO_IP, IPPROTO_TCP and IPPROTO_IPV6. -/
def socket (name : ℤ) : KernelOption := ⟨1,name⟩
def ip (name : ℤ) : KernelOption := ⟨0,name⟩
def tcp (name : ℤ) : KernelOption := ⟨6,name⟩
def ipv6 (name : ℤ) : KernelOption := ⟨41,name⟩

def ipMtuDiscover : ℤ := 10
def soReuseAddr : ℤ := 2
def soSndBuf : ℤ := 7
def soRcvBuf : ℤ := 8
def soReusePort : ℤ := 15
def tcpNodelay : ℤ := 1
def ipTos : ℤ := 1
def ipv6V6Only : ℤ := 26
def ipv6TClass : ℤ := 67

end KernelOption

/-- AF_INET6. -/
def afInet6 : ℤ := 10

open KernelOption

/-- What the case of OPT_DSCP stores. -/
def dscpOption (family : ℤ) : KernelOption := if family = afInet6 then ipv6 ipv6TClass else ip ipTos

/-- The stores of TranslateOption from the label of an option on, up to the first break. -/
def optionStores (family : ℤ) : SocketOption → List KernelOption
  | .dontFragment => [ip ipMtuDiscover]
  | .rcvBuf => [socket soRcvBuf]
  | .sndBuf => [socket soSndBuf]
  | .nodelay => [socket tcpNodelay]
  | .reuseAddr => [socket soReuseAddr,socket soReusePort,dscpOption family]
  | .reusePort => [socket soReusePort,dscpOption family]
  | .dscp => [dscpOption family]
  | .rtpSendtimeExtnId => []
  | .ipv6V6Only => []

/-- TranslateOption; the last store is the one that stays, and none is the result -1. -/
def translateOption (family : ℤ) (opt : SocketOption) : Option KernelOption := (optionStores family opt).getLast?

/-- The kernel option that an option is named after. -/
def namedOption (family : ℤ) : SocketOption → Option KernelOption
  | .dontFragment => some (ip ipMtuDiscover)
  | .rcvBuf => some (socket soRcvBuf)
  | .sndBuf => some (socket soSndBuf)
  | .nodelay => some (tcp tcpNodelay)
  | .ipv6V6Only => some (ipv6 ipv6V6Only)
  | .reuseAddr => some (socket soReuseAddr)
  | .reusePort => some (socket soReusePort)
  | .dscp => some (dscpOption family)
  | .rtpSendtimeExtnId => none

/-- The options of one socket in the kernel. -/
abbrev KernelOptions := KernelOption → Int32

/-- A call of SetOption with what ::setsockopt answers. -/
structure SetCall where
  opt : SocketOption
  value : Int32
  answer : Except Errno Unit

section Calls
variable (family : ℤ)

/-- SetOption: the options afterwards, and what is returned. -/
def setOption (k : KernelOptions) (c : SetCall) : KernelOptions × ℤ :=
  match translateOption family c.opt with
  | none => (k,-1)
  | some key => if c.answer.isOk then (Function.update k key c.value,0) else (k,-1)

/-- GetOption: the value it stores, with none where it returns -1. -/
def getOption (k : KernelOptions) (opt : SocketOption) : Option Int32 := (translateOption family opt).map k

/-- A call that returns zero. -/
def Succeeds (c : SetCall) : Bool := (translateOption family c.opt).isSome && c.answer.isOk

def runOptions (k : KernelOptions) (calls : List SetCall) : KernelOptions :=
  calls.foldl (fun k c => (setOption family k c).1) k

/-- The value of the last successful call on an option. -/
def lastSet (opt : SocketOption) (calls : List SetCall) : Option Int32 :=
  ((calls.filter fun c => decide (c.opt = opt) && Succeeds family c).getLast?).map SetCall.value

/-- After any of the calls, GetOption gives what the last successful one on the option set, and each call changes
the option that its own is named after, if it succeeds, and nothing else. -/
structure Independent (calls : List SetCall) : Prop where
  reads : ∀ k opt v, lastSet family opt calls = some v → getOption family (runOptions family k calls) opt = some v
  sets : ∀ k pre c post, calls = pre ++ c :: post → (setOption family (runOptions family k pre) c).2 = 0 →
    ∃ key, namedOption family c.opt = some key ∧
      (setOption family (runOptions family k pre) c).1 = Function.update (runOptions family k pre) key c.value
  fails : ∀ k pre c post, calls = pre ++ c :: post → (setOption family (runOptions family k pre) c).2 ≠ 0 →
    (setOption family (runOptions family k pre) c).1 = runOptions family k pre

end Calls

/-- The options that are translated to another one. -/
def Misnamed (opt : SocketOption) : Prop := opt = .nodelay ∨ opt = .reuseAddr ∨ opt = .reusePort

instance (opt : SocketOption) : Decidable (Misnamed opt) := inferInstanceAs (Decidable (_ ∨ _))

section Translate
variable {family : ℤ} {opt opt' : SocketOption} {key : KernelOption}

theorem named_of_translate (h : ¬ Misnamed opt) (ht : translateOption family opt = some key) :
    namedOption family opt = some key := by
  cases opt with
  | dontFragment | rcvBuf | sndBuf | dscp => exact ht
  | nodelay | reuseAddr | reusePort => exact absurd (by simp [Misnamed]) h
  | ipv6V6Only | rtpSendtimeExtnId => cases ht

theorem dscpOption_cases (family : ℤ) : dscpOption family = ipv6 ipv6TClass ∨ dscpOption family = ip ipTos := by
  rw [dscpOption]
  split
  · exact .inl rfl
  · exact .inr rfl

/-- No two options are named after the same one of the kernel. -/
theorem named_injective (h : namedOption family opt = some key) (h' : namedOption family opt' = some key) :
    opt = opt' := by
  have he := h.trans h'.symm
  rcases dscpOption_cases family with hd | hd <;>
    cases opt <;> cases opt' <;> first | rfl | exact absurd he (by simp only [namedOption, hd]; decide)

/-- The option of the kernel that a misnamed one should reach is reached by none. -/
theorem not_translate_of_misnamed (h : Misnamed opt) (hn : namedOption family opt = some key) (o : SocketOption) :
    translateOption family o ≠ some key := by
  rcases dscpOption_cases family with hd | hd <;> rcases h with rfl | rfl | rfl <;> cases hn <;> cases o <;>
    simp only [translateOption, optionStores, hd] <;> decide

end Translate

section Run
variable {family : ℤ} {calls : List SetCall} {c : SetCall} {opt : SocketOption} {key : KernelOption} {k : KernelOptions}

/-- A successful call stores its value where its option is translated to. -/
theorem setOption_of_succeeds (h : Succeeds family c = true) :
    ∃ key, translateOption family c.opt = some key ∧ setOption family k c = (Function.update k key c.value,0) := by
  obtain ⟨ht,ha⟩ := Bool.and_eq_true_iff.mp h
  obtain ⟨key,ht⟩ := Option.isSome_iff_exists.mp ht
  exact ⟨key,ht,by simp only [setOption, ht, ha, if_true]⟩

/-- The others return -1 and change nothing. -/
theorem setOption_of_fails (h : Succeeds family c = false) : setOption family k c = (k,-1) := by
  rw [setOption]
  cases ht : translateOption family c.opt with
  | none => rfl
  | some key =>
    have ha : c.answer.isOk = false := by simpa [Succeeds, ht] using h
    simp only [ha, Bool.false_eq_true, if_false]

theorem returns_zero_iff : (setOption family k c).2 = 0 ↔ Succeeds family c = true := by
  cases h : Succeeds family c with
  | true =>
    obtain ⟨key,-,he⟩ := setOption_of_succeeds (k := k) h
    rw [he]
    exact iff_of_true rfl rfl
  | false =>
    rw [setOption_of_fails h]
    exact iff_of_false (show (-1 : ℤ) ≠ 0 by decide) Bool.false_ne_true

/-- On a dispatcher of the world the call returns the same for the answer it gets there. -/
theorem setOption_world {w : World} {p : Ptr} (h : translateOption family c.opt = some key) :
    (setOption family k { c with answer := w.answer p c.answer }).2 = (w.setOption p c.answer).2 := by
  simp only [setOption, h, World.setOption]
  cases w.answer p c.answer with
  | ok _ => rfl
  | error e => rfl

/-- One call keeps every option of the kernel that its own is not translated to. -/
theorem setOption_ne (h : translateOption family c.opt ≠ some key) : (setOption family k c).1 key = k key := by
  cases hs : Succeeds family c with
  | true =>
    obtain ⟨key',ht,he⟩ := setOption_of_succeeds (k := k) hs
    rw [he]
    exact Function.update_of_ne (fun hk => h (ht.trans (congrArg some hk.symm))) _ _
  | false => rw [setOption_of_fails hs]

theorem runOptions_append (k : KernelOptions) (calls : List SetCall) (c : SetCall) :
    runOptions family k (calls ++ [c]) = (setOption family (runOptions family k calls) c).1 := by
  rw [runOptions, List.foldl_append]
  rfl

/-- So do all calls of a run. -/
theorem runOptions_ne (h : ∀ opt, translateOption family opt ≠ some key) (k : KernelOptions) (calls : List SetCall) :
    runOptions family k calls key = k key := by
  induction calls using List.reverseRecOn with
  | nil => rfl
  | append_singleton calls c ih => rw [runOptions_append, setOption_ne (h c.opt), ih]

theorem lastSet_append (calls : List SetCall) (c : SetCall) (opt : SocketOption) :
    lastSet family opt (calls ++ [c]) =
      if c.opt = opt ∧ Succeeds family c = true then some c.value else lastSet family opt calls := by
  rw [lastSet, List.filter_append]
  split
  · rename_i h
    rw [List.filter_cons_of_pos (by simp [h]), List.filter_nil, List.getLast?_concat]
    rfl
  · rename_i h
    rw [List.filter_cons_of_neg (by simpa using h), List.filter_nil, List.append_nil]
    rfl

/-- Without misnamed options every option keeps the value of its last successful call. -/
theorem runOptions_lastSet (hc : ∀ c ∈ calls, Succeeds family c = true → ¬ Misnamed c.opt) {v : Int32}
    (hv : lastSet family opt calls = some v) :
    ∃ key, translateOption family opt = some key ∧ namedOption family opt = some key ∧
      runOptions family k calls key = v := by
  induction calls using List.reverseRecOn with
  | nil => cases hv
  | append_singleton calls c ih =>
    rw [lastSet_append] at hv
    split at hv
    · rename_i h
      cases hv
      obtain ⟨rfl,hs⟩ := h
      obtain ⟨key,ht,he⟩ := setOption_of_succeeds (k := runOptions family k calls) hs
      have hn := named_of_translate (hc c (by simp) hs) ht
      refine ⟨key,ht,hn,?_⟩
      rw [runOptions_append, he]
      exact Function.update_self ..
    · rename_i h
      obtain ⟨key,ht,hn,hk⟩ := ih (fun c hm => hc c (List.mem_append_left _ hm)) hv
      refine ⟨key,ht,hn,?_⟩
      rw [runOptions_append]
      cases hs : Succeeds family c with
      | false =>
        rw [setOption_of_fails hs]
        exact hk
      | true =>
        have hne : translateOption family c.opt ≠ some key := fun hc' =>
          h ⟨named_injective (named_of_translate (hc c (by simp) hs) hc') hn,hs⟩
        rw [setOption_ne hne, hk]

end Run

theorem exists_other (v : Int32) : ∃ u : Int32, u ≠ v := by
  by_cases h : v = 0
  · exact ⟨1,by rw [h]; decide⟩
  · exact ⟨0,fun h' => h h'.symm⟩

/-- The options of a socket are independent exactly in the sequences of calls in which none succeeds on
OPT_NODELAY, OPT_REUSEADDR or OPT_REUSEPORT. -/
theorem options_independent_iff (family : ℤ) (calls : List SetCall) :
    Independent family calls ↔ ∀ c ∈ calls, Succeeds family c = true → ¬ Misnamed c.opt := by
  constructor
  · intro h c hc hs hm
    obtain ⟨pre,post,rfl⟩ := List.append_of_mem hc
    obtain ⟨v,hv⟩ := exists_other c.value
    obtain ⟨key,hn,he⟩ := h.sets (fun _ => v) pre c post rfl (returns_zero_iff.mpr hs)
    have hkey := not_translate_of_misnamed hm hn
    have hk := congrFun he key
    rw [setOption_ne (hkey c.opt), runOptions_ne hkey, Function.update_self] at hk
    exact hv hk
  · intro hc
    refine ⟨fun k opt v hv => ?_,fun k pre c post he hz => ?_,fun k pre c post he hz => ?_⟩
    · obtain ⟨key,ht,-,hk⟩ := runOptions_lastSet hc hv
      rw [getOption, ht, Option.map_some, hk]
    · have hs := returns_zero_iff.mp hz
      obtain ⟨key,ht,hset⟩ := setOption_of_succeeds (k := runOptions family k pre) hs
      refine ⟨key,named_of_translate (hc c ?_ hs) ht,congrArg Prod.fst hset⟩
      rw [he]
      exact List.mem_append_right _ List.mem_cons_self
    · rw [setOption_of_fails (Bool.eq_false_iff.mpr fun hs => hz (returns_zero_iff.mpr hs))]

/-- On an IPv4 socket OPT_DSCP reads 1 after it was set to 46 and OPT_REUSEADDR to 1. -/
theorem options_interfere :
    getOption 2 (runOptions 2 (fun _ => 0) [⟨.dscp,46,.ok ()⟩,⟨.reuseAddr,1,.ok ()⟩]) .dscp = some 1 ∧
      ¬ Independent 2 [⟨.dscp,46,.ok ()⟩,⟨.reuseAddr,1,.ok ()⟩] := by
  have hd : getOption 2 (runOptions 2 (fun _ => 0) [⟨.dscp,46,.ok ()⟩,⟨.reuseAddr,1,.ok ()⟩]) .dscp = some 1 := by decide
  refine ⟨hd,fun h => ?_⟩
  have hr := h.reads (fun _ => 0) .dscp 46 rfl
  rw [hd] at hr
  exact absurd (Option.some.inj hr) (by decide)

end UServer.Net
