import UServer.Concurrency.Signaler
import UServer.Library.Monitor
import UServer.Library.Runs

/-! Any number of threads in Signal and OnEvent of one Signaler, statement by statement: the byte in the pipe
and f_signaled_, which the mutex guards. -/
namespace UServer.Concurrency
open Library

/-- The read of up to four bytes, which waits for one, and how many were found. -/
def Signaler.read {ι : Type*} (g : Signaler ι) : Option (Signaler ι × ℕ) :=
  if g.pipe = 0 then none else some ({ g with pipe := g.pipe - min 4 g.pipe },min 4 g.pipe)

/-- The pipe holds one byte when f_signaled_ is set and none when it is not. -/
def Signaler.Exact {ι : Type*} (g : Signaler ι) : Prop := g.pipe = if g.fSignaled then 1 else 0

theorem Signaler.Exact.le_one {ι : Type*} {g : Signaler ι} (h : g.Exact) : g.pipe ≤ 1 := by
  rw [h]
  split <;> decide

/-- OnEvent in one step is the test, the read and the store of f_signaled_. -/
theorem Signaler.onEvent_eq {ι : Type*} {g : Signaler ι} (h : g.holder = none) :
    g.onEvent = if g.fSignaled then g.read.map fun r => { r.1 with fSignaled := false } else some g := by
  simp only [onEvent, h, read]
  split
  · split
    · rfl
    · simp only [Option.map_some, Option.some.injEq, Signaler.mk.injEq, true_and, and_true]
      omega
  · rfl

/-- Where a thread is. In Signal and in OnEvent: before the mutex, before the test of f_signaled_, before the
system call, and behind it with its result, before the assertion and the store. Then, in OnEvent, before
flag_to_clear_ is cleared, and before the end of the guard. -/
inductive PipePc
  | idle
  | signalEntered
  | signalTesting
  | writing
  | wrote (res : ℕ)
  | eventEntered
  | eventTesting
  | reading
  | didRead (res : ℕ)
  | clearing
  | leaving
  deriving DecidableEq

namespace PipePc

/-- Without the mutex. -/
def Outside (pc : PipePc) : Prop := pc = idle ∨ pc = signalEntered ∨ pc = eventEntered

/-- With the mutex held. -/
def Inside (pc : PipePc) : Prop := ¬ pc.Outside

/-- Between a system call and the store of f_signaled_. -/
def Between : PipePc → Prop
  | wrote _ | didRead _ => True
  | _ => False

instance : DecidablePred Outside := fun _ => inferInstanceAs (Decidable (_ ∨ _ ∨ _))

instance : DecidablePred Inside := fun _ => inferInstanceAs (Decidable (¬ _))

instance : DecidablePred Between
  | wrote _ | didRead _ => .isTrue trivial
  | idle | signalEntered | signalTesting | writing | eventEntered | eventTesting | reading | clearing | leaving =>
    .isFalse not_false

theorem Between.inside {pc : PipePc} (h : pc.Between) : pc.Inside := by
  rintro (rfl | rfl | rfl) <;> exact h

end PipePc

/-- A Signaler, the flag_wait_ that it clears, its threads, and whether an assertion has failed. -/
structure SharedSignaler (ι : Type*) where
  signaler : Signaler ι
  flagToClear : Bool
  threads : ι → PipePc
  failed : Bool

/-- A thread calls Signal or OnEvent or goes on with its call; the server sets flag_wait_. -/
inductive PipeAction (ι : Type*)
  | signal (i : ι)
  | onEvent (i : ι)
  | step (i : ι)
  | wait
  deriving DecidableEq

namespace SharedSignaler
variable {ι : Type*}

def start (flag : Bool) : SharedSignaler ι := ⟨.fresh,flag,fun _ => .idle,false⟩

section
variable [DecidableEq ι]

def goto (s : SharedSignaler ι) (i : ι) (pc : PipePc) : SharedSignaler ι :=
  { s with threads := Function.update s.threads i pc }

def lock (s : SharedSignaler ι) (i : ι) (pc : PipePc) : Option (SharedSignaler ι) :=
  if s.signaler.holder = none then some { s.goto i pc with signaler := { s.signaler with holder := some i } } else none

def unlock (s : SharedSignaler ι) (i : ι) : SharedSignaler ι :=
  { s.goto i .idle with signaler := { s.signaler with holder := none } }

/-- The assertion on the result of a system call, which only logs, and the store of f_signaled_. -/
def store (s : SharedSignaler ι) (i : ι) (res : ℕ) (fSignaled : Bool) (pc : PipePc) : SharedSignaler ι :=
  { s.goto i pc with signaler := { s.signaler with fSignaled := fSignaled }, failed := s.failed || decide (res ≠ 1) }

def stepThread (s : SharedSignaler ι) (i : ι) : Option (SharedSignaler ι) :=
  match s.threads i with
  | .idle => none
  | .signalEntered => s.lock i .signalTesting
  | .signalTesting => some (s.goto i (if s.signaler.fSignaled then .leaving else .writing))
  | .writing => s.signaler.write.map fun g => { s.goto i (.wrote 1) with signaler := g }
  | .wrote res => some (s.store i res true .leaving)
  | .eventEntered => s.lock i .eventTesting
  | .eventTesting => some (s.goto i (if s.signaler.fSignaled then .reading else .clearing))
  | .reading => s.signaler.read.map fun r => { s.goto i (.didRead r.2) with signaler := r.1 }
  | .didRead res => some (s.store i res false .clearing)
  | .clearing => some { s.goto i .leaving with flagToClear := false }
  | .leaving => some (s.unlock i)

def step (s : SharedSignaler ι) : PipeAction ι → Option (SharedSignaler ι)
  | .signal i => if s.threads i = .idle then some (s.goto i .signalEntered) else none
  | .onEvent i => if s.threads i = .idle then some (s.goto i .eventEntered) else none
  | .step i => s.stepThread i
  | .wait => some { s with flagToClear := true }

end

/-- The pipe and f_signaled_ agree unless a thread is between its system call and its store, and so whenever the
mutex is free; the write finds the pipe empty, the read finds one byte, neither blocks, and no assertion fails. -/
structure Balanced [DecidableEq ι] (s : SharedSignaler ι) : Prop where
  exact : (∀ i, ¬ (s.threads i).Between) → s.signaler.Exact
  free : s.signaler.holder = none → s.signaler.Exact
  bounded : s.signaler.pipe ≤ 1
  write : ∀ i, s.threads i = .writing → s.signaler.pipe = 0 ∧ (s.stepThread i).isSome = true
  read : ∀ i, s.threads i = .reading → s.signaler.pipe = 1 ∧ (s.stepThread i).isSome = true
  results : ∀ i res, s.threads i = .wrote res ∨ s.threads i = .didRead res → res = 1
  asserts : s.failed = false

end SharedSignaler

/-- What a thread that holds the mutex knows at its place. -/
def PipePc.Knows {ι : Type*} (g : Signaler ι) : PipePc → Prop
  | .writing => g.fSignaled = false ∧ g.pipe = 0
  | .wrote res => res = 1 ∧ g.fSignaled = false ∧ g.pipe = 1
  | .reading => g.fSignaled = true ∧ g.pipe = 1
  | .didRead res => res = 1 ∧ g.fSignaled = true ∧ g.pipe = 0
  | _ => g.Exact

namespace PipePc.Knows
variable {ι : Type*} {g : Signaler ι} {pc : PipePc}

theorem exact (h : pc.Knows g) (hb : ¬ pc.Between) : g.Exact := by
  cases pc with
  | writing | reading => exact h.2.trans (by rw [h.1]; rfl)
  | wrote res | didRead res => exact absurd trivial hb
  | idle | signalEntered | signalTesting | eventEntered | eventTesting | clearing | leaving => exact h

theorem le_one (h : pc.Knows g) : g.pipe ≤ 1 := by
  by_cases hb : pc.Between
  · cases pc with
    | wrote res | didRead res => exact h.2.2.le.trans (by decide)
    | _ => exact absurd hb not_false
  · exact (h.exact hb).le_one

end PipePc.Knows

namespace SharedSignaler
variable {ι : Type*}

structure Invariant (s : SharedSignaler ι) : Prop where
  agrees : Monitor.Agrees PipePc.Inside (fun _ => False) ⟨s.signaler.holder,[]⟩ s.threads
  free : s.signaler.holder = none → s.signaler.Exact
  knows : ∀ i, (s.threads i).Inside → (s.threads i).Knows s.signaler
  asserts : s.failed = false

namespace Invariant
variable {s t : SharedSignaler ι} {i : ι} {here pc : PipePc}

theorem start (flag : Bool) : Invariant (.start flag : SharedSignaler ι) where
  agrees :=
    ⟨fun _ => iff_of_false nofun (by simp [SharedSignaler.start, PipePc.Inside, PipePc.Outside]),nofun,List.nodup_nil⟩
  free _ := rfl
  knows i hi := absurd (.inl rfl) hi
  asserts := rfl

theorem holder (h : s.Invariant) (hi : s.threads i = here) (hin : here.Inside) : s.signaler.holder = some i :=
  (h.agrees.holder i).mpr (hi ▸ hin)

theorem knows_here (h : s.Invariant) (hi : s.threads i = here) (hin : here.Inside) : here.Knows s.signaler :=
  hi ▸ h.knows i (hi ▸ hin)

variable [DecidableEq ι]

/-- A call begins, which takes nothing. -/
theorem call (h : s.Invariant) (hi : s.threads i = .idle) (hpc : pc.Outside) : (s.goto i pc).Invariant where
  agrees := h.agrees.move (iff_of_false (not_not.mpr hpc) (by rw [hi]; decide)) nofun
  free := h.free
  knows := (Function.forall_update_iff s.threads fun _ p => p.Inside → p.Knows s.signaler).mpr
    ⟨fun hin => absurd hpc hin,fun j _ => h.knows j⟩
  asserts := h.asserts

theorem lock (h : s.Invariant) (he : s.lock i pc = some t) (hin : pc.Inside)
    (hk : s.signaler.Exact → pc.Knows { s.signaler with holder := some i }) : t.Invariant := by
  obtain ⟨hn,he⟩ := Option.ite_none_right_eq_some.mp he
  cases he
  refine ⟨h.agrees.lock (if_pos hn) hin List.not_mem_nil,nofun,?_,h.asserts⟩
  refine (Function.forall_update_iff s.threads fun _ p =>
    p.Inside → p.Knows { s.signaler with holder := some i }).mpr ?_
  refine ⟨fun _ => hk (h.free hn),fun j _ hj => ?_⟩
  have hj' := (h.agrees.holder j).mpr hj
  rw [hn] at hj'
  cases hj'

/-- The thread that holds the mutex goes on, and may write the pipe and f_signaled_. -/
theorem move (h : s.Invariant) (g : Signaler ι) (pc : PipePc) (hi : s.threads i = here) (hin : here.Inside)
    (hpc : pc.Inside) (hg : g.holder = s.signaler.holder) (hk : pc.Knows g) (flag : Bool) :
    Invariant { s.goto i pc with signaler := g, flagToClear := flag } where
  agrees := by
    have ha : Monitor.Agrees PipePc.Inside (fun _ => False) ⟨s.signaler.holder,[]⟩ (Function.update s.threads i pc) :=
      h.agrees.move (iff_of_true hpc (hi ▸ hin)) nofun
    rw [← hg] at ha
    exact ha
  free hn := by
    rw [hg, h.holder hi hin] at hn
    cases hn
  knows := (Function.forall_update_iff s.threads fun _ p => p.Inside → p.Knows g).mpr
    ⟨fun _ => hk,fun j hji hj => absurd (h.agrees.only hj (hi ▸ hin)) hji⟩
  asserts := h.asserts

theorem unlock (h : s.Invariant) (hi : s.threads i = .leaving) : (s.unlock i).Invariant where
  agrees := h.agrees.unlock (by rw [hi]; decide) (by decide) not_false
  free _ := h.knows_here hi (by decide)
  knows := (Function.forall_update_iff s.threads fun _ p =>
      p.Inside → p.Knows { s.signaler with holder := none }).mpr
    ⟨fun hin => absurd (.inl rfl) hin,fun j hji hj => absurd (h.agrees.only hj (by rw [hi]; decide)) hji⟩
  asserts := h.asserts

/-- Behind a system call that returned one the assertion holds, and the store makes the flag agree with the pipe. -/
theorem store (h : s.Invariant) {res : ℕ} {fSignaled : Bool} (hi : s.threads i = here) (hin : here.Inside)
    (hpc : pc.Inside) (hr : res = 1) (hk : pc.Knows { s.signaler with fSignaled := fSignaled }) :
    (s.store i res fSignaled pc).Invariant := by
  have hm := h.move { s.signaler with fSignaled := fSignaled } pc hi hin hpc rfl hk s.flagToClear
  refine { hm with asserts := ?_ }
  simp [SharedSignaler.store, h.asserts, hr]

/-- The write finds the pipe empty. -/
theorem write (h : s.Invariant) {g : Signaler ι} (hi : s.threads i = .writing) (hg : s.signaler.write = some g) :
    Invariant { s.goto i (.wrote 1) with signaler := g } := by
  obtain ⟨-,hg⟩ := Option.ite_none_right_eq_some.mp hg
  cases hg
  obtain ⟨hf,hp⟩ : s.signaler.fSignaled = false ∧ s.signaler.pipe = 0 := h.knows_here hi (by decide)
  have hk : PipePc.Knows { s.signaler with pipe := s.signaler.pipe + 1 } (.wrote 1) := ⟨rfl,hf,congrArg (· + 1) hp⟩
  exact h.move { s.signaler with pipe := s.signaler.pipe + 1 } (.wrote 1) hi (by decide) (by decide) rfl hk
    s.flagToClear

/-- The read finds one byte. -/
theorem read (h : s.Invariant) {r : Signaler ι × ℕ} (hi : s.threads i = .reading) (hr : s.signaler.read = some r) :
    Invariant { s.goto i (.didRead r.2) with signaler := r.1 } := by
  obtain ⟨-,hr⟩ := Option.ite_none_left_eq_some.mp hr
  cases hr
  obtain ⟨hf,hp⟩ : s.signaler.fSignaled = true ∧ s.signaler.pipe = 1 := h.knows_here hi (by decide)
  have hin : (PipePc.didRead (min 4 s.signaler.pipe)).Inside := PipePc.Between.inside trivial
  have hk : PipePc.Knows { s.signaler with pipe := s.signaler.pipe - min 4 s.signaler.pipe }
      (.didRead (min 4 s.signaler.pipe)) := by
    rw [hp]
    exact ⟨rfl,hf,rfl⟩
  exact h.move { s.signaler with pipe := s.signaler.pipe - min 4 s.signaler.pipe } _ hi (by decide) hin rfl hk
    s.flagToClear

theorem stepThread (h : s.Invariant) (he : s.stepThread i = some t) : t.Invariant := by
  cases hi : s.threads i with
  | idle => simp [SharedSignaler.stepThread, hi] at he
  | signalEntered | eventEntered =>
    simp only [SharedSignaler.stepThread, hi] at he
    exact h.lock he (by decide) fun hx => hx
  | signalTesting =>
    simp only [SharedSignaler.stepThread, hi, Option.some_inj] at he
    subst he
    have hx : s.signaler.Exact := h.knows_here hi (by decide)
    split
    · exact h.move s.signaler .leaving hi (by decide) (by decide) rfl hx s.flagToClear
    · rename_i hf
      have hk : PipePc.Knows s.signaler .writing := ⟨Bool.eq_false_iff.mpr hf,hx.trans (if_neg hf)⟩
      exact h.move s.signaler .writing hi (by decide) (by decide) rfl hk s.flagToClear
  | writing =>
    simp only [SharedSignaler.stepThread, hi] at he
    obtain ⟨g,hg,rfl⟩ := Option.map_eq_some_iff.mp he
    exact h.write hi hg
  | wrote res =>
    simp only [SharedSignaler.stepThread, hi, Option.some_inj] at he
    subst he
    have hin : (PipePc.wrote res).Inside := PipePc.Between.inside trivial
    obtain ⟨hr,-,hp⟩ : res = 1 ∧ s.signaler.fSignaled = false ∧ s.signaler.pipe = 1 := h.knows_here hi hin
    exact h.store hi hin (by decide) hr hp
  | eventTesting =>
    simp only [SharedSignaler.stepThread, hi, Option.some_inj] at he
    subst he
    have hx : s.signaler.Exact := h.knows_here hi (by decide)
    split
    · rename_i hf
      have hk : PipePc.Knows s.signaler .reading := ⟨hf,hx.trans (if_pos hf)⟩
      exact h.move s.signaler .reading hi (by decide) (by decide) rfl hk s.flagToClear
    · exact h.move s.signaler .clearing hi (by decide) (by decide) rfl hx s.flagToClear
  | reading =>
    simp only [SharedSignaler.stepThread, hi] at he
    obtain ⟨r,hr,rfl⟩ := Option.map_eq_some_iff.mp he
    exact h.read hi hr
  | didRead res =>
    simp only [SharedSignaler.stepThread, hi, Option.some_inj] at he
    subst he
    have hin : (PipePc.didRead res).Inside := PipePc.Between.inside trivial
    obtain ⟨hr,-,hp⟩ : res = 1 ∧ s.signaler.fSignaled = true ∧ s.signaler.pipe = 0 := h.knows_here hi hin
    exact h.store hi hin (by decide) hr hp
  | clearing =>
    simp only [SharedSignaler.stepThread, hi, Option.some_inj] at he
    subst he
    have hx : s.signaler.Exact := h.knows_here hi (by decide)
    exact h.move s.signaler .leaving hi (by decide) (by decide) rfl hx false
  | leaving =>
    simp only [SharedSignaler.stepThread, hi, Option.some_inj] at he
    exact he ▸ h.unlock hi

theorem step (h : s.Invariant) {a : PipeAction ι} (he : s.step a = some t) : t.Invariant := by
  cases a with
  | signal i | onEvent i =>
    obtain ⟨hi,he⟩ := Option.ite_none_right_eq_some.mp he
    cases he
    exact h.call hi (by decide)
  | step i => exact h.stepThread he
  | wait =>
    cases he
    exact { h with }

theorem balanced (h : s.Invariant) : s.Balanced where
  exact hb := by
    cases hn : s.signaler.holder with
    | none => exact h.free hn
    | some i => exact (h.knows i ((h.agrees.holder i).mp hn)).exact (hb i)
  free := h.free
  bounded := by
    cases hn : s.signaler.holder with
    | none => exact (h.free hn).le_one
    | some i => exact (h.knows i ((h.agrees.holder i).mp hn)).le_one
  write i hi := by
    have hp : s.signaler.pipe = 0 := (h.knows_here hi (by decide)).2
    refine ⟨hp,?_⟩
    simp [SharedSignaler.stepThread, hi, Signaler.write, hp, pipeCapacity]
  read i hi := by
    have hp : s.signaler.pipe = 1 := (h.knows_here hi (by decide)).2
    refine ⟨hp,?_⟩
    simp [SharedSignaler.stepThread, hi, Signaler.read, hp]
  results i res hi := by
    rcases hi with hi | hi
    · exact (h.knows_here hi (PipePc.Between.inside trivial)).1
    · exact (h.knows_here hi (PipePc.Between.inside trivial)).1
  asserts := h.asserts

end Invariant
end SharedSignaler

def sharedSignalerMachine (ι : Type*) [DecidableEq ι] : Machine (SharedSignaler ι) (PipeAction ι) where
  init s := ∃ flag, s = .start flag
  step := SharedSignaler.step

namespace SharedSignaler

/-- In every run the byte in the pipe and f_signaled_ are balanced. -/
theorem self_pipe_balanced {ι : Type*} [DecidableEq ι] {s : SharedSignaler ι}
    (h : (sharedSignalerMachine ι).Reachable Machine.Free s) : s.Balanced := by
  have hi : s.Invariant := by
    refine h.rule ?_ fun u a v hu _ he => hu.step he
    rintro u ⟨flag,rfl⟩
    exact .start flag
  exact hi.balanced

/-- Two threads signal and a third handles the event, with the second signal between its read and its store. -/
theorem self_pipe_balanced_three : ∃ s : SharedSignaler (Fin 3),
    s.threads 2 = .didRead 1 ∧ s.threads 1 = .signalEntered ∧ s.Balanced := by
  have h : ((sharedSignalerMachine (Fin 3)).run Machine.Free (.start true) [.signal 0, .step 0, .step 0, .step 0,
      .step 0, .step 0, .onEvent 2, .step 2, .signal 1, .step 2, .step 2]).any
      (fun s => decide (s.threads 2 = .didRead 1 ∧ s.threads 1 = .signalEntered)) = true := by
    decide +kernel
  have hstart : (sharedSignalerMachine (Fin 3)).init (.start true) := ⟨true,rfl⟩
  obtain ⟨s,hs,hp⟩ := Machine.exists_reachable_of_run hstart h
  obtain ⟨h2,h1⟩ := of_decide_eq_true hp
  exact ⟨s,h2,h1,self_pipe_balanced hs⟩

end SharedSignaler
end UServer.Concurrency
