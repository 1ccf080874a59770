import UServer.Net.OperationWrites

/-! The lengths that Send, SendTo, Recv and RecvFrom hand to the kernel: a size_t narrowed to int and
widened again, and the count that comes back. -/
namespace UServer.Net
open Library

/-- static_cast of a size_t to int. -/
def intOfSize (length : UInt64) : Int32 := length.toUInt32.toInt32

/-- An int passed where a size_t is expected. -/
def sizeOfInt (len : Int32) : UInt64 := len.toInt64.toUInt64

/-- What a system call answers for the length it is given: a count, or minus one. -/
abbrev Transfer := UInt64 → Int64

/-- No more bytes are reported than were asked for. -/
def Honest (sys : Transfer) : Prop := ∀ n, -1 ≤ (sys n).toInt ∧ (sys n).toInt ≤ n.toNat

theorem honest_zero : Honest fun _ => 0 := fun _ => ⟨show (-1 : ℤ) ≤ 0 by decide,Int.natCast_nonneg _⟩

/-- The length the kernel saw and the value returned to the caller. -/
structure Transferred where
  seen : UInt64
  returned : Int32

section Calls
variable (sys : Transfer)

/-- DoSend, and DoSendTo, which differs in the system call alone. -/
def doSend (len : Int32) : Transferred := ⟨sizeOfInt len,(sys (sizeOfInt len)).toInt32⟩

def doSendTo (len : Int32) : Transferred := doSend sys len

def doReadFromSocket (length : UInt64) : Transferred :=
  ⟨sizeOfInt (intOfSize length),(sys (sizeOfInt (intOfSize length))).toInt32⟩

/-- The four calls of a PhysicalSocket that move bytes. -/
inductive TransferCall where
  | send | sendTo | recv | recvFrom
  deriving DecidableEq

/-- Send and SendTo narrow before their helper, Recv and RecvFrom inside it; Recv turns the end of the
stream into an error. -/
def TransferCall.run (length : UInt64) : TransferCall → Transferred
  | .send => doSend sys (intOfSize length)
  | .sendTo => doSendTo sys (intOfSize length)
  | .recv =>
    let t := doReadFromSocket sys length
    if t.returned = 0 ∧ length ≠ 0 then { t with returned := -1 } else t
  | .recvFrom => doReadFromSocket sys length

end Calls

/-- The kernel sees no more than the caller's length, and no more is returned. -/
def Survives (c : TransferCall) (length : UInt64) : Prop :=
  ∀ sys, Honest sys → (c.run sys length).seen ≤ length ∧
    (0 ≤ (c.run sys length).returned.toInt → (c.run sys length).returned.toInt ≤ length.toNat)

/-- Bit 31 is clear, or it and all bits above it are set. -/
def Keeps32 (length : UInt64) : Prop := length.toNat % 2 ^ 32 < 2 ^ 31 ∨ 2 ^ 64 - 2 ^ 31 ≤ length.toNat

instance (length : UInt64) : Decidable (Keeps32 length) := inferInstanceAs (Decidable (_ ∨ _))

variable {sys : Transfer} {length : UInt64}

theorem toNat_sizeOfInt_intOfSize (length : UInt64) : (sizeOfInt (intOfSize length)).toNat =
    if length.toNat % 2 ^ 32 < 2 ^ 31 then length.toNat % 2 ^ 32
    else 2 ^ 64 - 2 ^ 32 + length.toNat % 2 ^ 32 := by
  have h : (sizeOfInt (intOfSize length)).toNat =
      (BitVec.signExtend 64 (BitVec.setWidth 32 length.toBitVec)).toNat := rfl
  rw [h, BitVec.toNat_signExtend, BitVec.msb_eq_decide]
  simp only [BitVec.toNat_setWidth, decide_eq_true_eq, UInt64.toNat_toBitVec]
  split <;> split <;> omega

/-- The kernel sees no more than the caller's length exactly where 32 bits keep it. -/
theorem seen_le_iff (length : UInt64) : sizeOfInt (intOfSize length) ≤ length ↔ Keeps32 length := by
  rw [UInt64.le_iff_toNat_le, toNat_sizeOfInt_intOfSize, Keeps32]
  have hlt := length.toNat_lt
  split <;> omega

theorem seen_run (sys : Transfer) (length : UInt64) (c : TransferCall) :
    (c.run sys length).seen = sizeOfInt (intOfSize length) := by
  cases c with
  | send | sendTo | recvFrom => rfl
  | recv =>
    rw [TransferCall.run]
    split <;> rfl

/-- What is returned is the kernel's count cut to an int, or minus one. -/
theorem returned_run (sys : Transfer) (length : UInt64) (c : TransferCall) :
    (c.run sys length).returned = -1 ∨
      (c.run sys length).returned = (sys (sizeOfInt (intOfSize length))).toInt32 := by
  cases c with
  | send | sendTo | recvFrom => exact .inr rfl
  | recv =>
    rw [TransferCall.run]
    split
    · exact .inl rfl
    · exact .inr rfl

/-- A count within a length that 32 bits keep is within the caller's length as an int too. -/
theorem toInt32_le {n : Int64} (hk : Keeps32 length) (h1 : -1 ≤ n.toInt)
    (hn : n.toInt ≤ (sizeOfInt (intOfSize length)).toNat) : n.toInt32.toInt ≤ length.toNat := by
  rw [toNat_sizeOfInt_intOfSize] at hn
  rcases hk with hk | hk
  · rw [if_pos hk] at hn
    rw [Int64.toInt_toInt32, Int.bmod_eq_of_le (by omega) (by omega)]
    omega
  · have := n.toInt32.toInt_lt
    omega

/-- Lengths survive narrowing exactly where 32 bits keep them. -/
theorem lengths_survive_iff (c : TransferCall) (length : UInt64) : Survives c length ↔ Keeps32 length := by
  constructor
  · intro h
    have hs := (h _ honest_zero).1
    rw [seen_run] at hs
    exact (seen_le_iff length).mp hs
  · intro hk sys hsys
    refine ⟨?_,fun h0 => ?_⟩
    · rw [seen_run]
      exact (seen_le_iff length).mpr hk
    · rcases returned_run sys length c with hr | hr
      · rw [hr] at h0
        exact absurd h0 (by decide)
      · rw [hr]
        obtain ⟨h1,hn⟩ := hsys (sizeOfInt (intOfSize length))
        exact toInt32_le hk h1 hn

section World
variable (w : World) (p : Ptr) (length : UInt64) (res : Except Errno ℕ)

/-- The same calls on a dispatcher of the world. -/
def TransferCall.onWorld : TransferCall → World × Int
  | .send => w.send p length.toNat res
  | .sendTo => w.sendTo p length.toNat res
  | .recv => w.recv p length.toNat res
  | .recvFrom => w.recvFrom p res

/-- What the system call answers there. -/
def answerOf : Transfer := fun _ => Int64.ofInt (returned (w.answer p res))

theorem toInt_answerOf (hn : ∀ n, w.answer p res = .ok n → n < 2 ^ 31) (k : UInt64) :
    (answerOf w p res k).toInt32.toInt = returned (w.answer p res) := by
  have hr : -1 ≤ returned (w.answer p res) ∧ returned (w.answer p res) < 2 ^ 31 := by
    cases h : w.answer p res with
    | ok n =>
      have := hn n h
      simp only [returned]
      omega
    | error e => exact ⟨le_rfl,show (-1 : ℤ) < 2 ^ 31 by decide⟩
  have hi : (Int64.ofInt (returned (w.answer p res))).toInt = returned (w.answer p res) :=
    Int64.toInt_ofInt_of_le (by omega) (by omega)
  rw [answerOf, Int64.toInt_toInt32, hi, Int.bmod_eq_of_le (by omega) (by omega)]

theorem returned_recvFrom : (w.recvFrom p res).2 = returned (w.answer p res) := by
  cases hd : w.socketAt p with
  | none =>
    have ha : w.answer p res = .error ebadf := by rw [World.answer, hd]
    rw [World.recvFrom]
    dsimp only
    split
    · rw [ha]
      rfl
    · rfl
  | some d =>
    have hu : (w.noteErrno (w.answer p res)).socketAt p = some d := by
      rw [World.socketAt, World.noteErrno_dispatchers]
      exact hd
    have hs := World.socketAt_modifySocket hu fun d => { d with error := (w.noteErrno (w.answer p res)).errno }
    rw [World.recvFrom]
    dsimp only
    rw [World.updateLastError, World.setError, hs]

/-- Where an int holds the count, the calls return what they return on the world. -/
theorem returned_onWorld (hn : ∀ n, w.answer p res = .ok n → n < 2 ^ 31) (c : TransferCall) :
    (c.run (answerOf w p res) length).returned.toInt = (c.onWorld w p length res).2 := by
  have ha := toInt_answerOf w p res hn (sizeOfInt (intOfSize length))
  cases c with
  | send | sendTo => exact ha
  | recvFrom => exact ha.trans (returned_recvFrom w p res).symm
  | recv =>
    have hz : (doReadFromSocket (answerOf w p res) length).returned = 0 ↔ returned (w.answer p res) = 0 := by
      rw [← ha, ← Int32.toInt_inj]
      rfl
    have hl : length ≠ 0 ↔ length.toNat ≠ 0 := not_congr UInt64.toNat_inj.symm
    simp only [TransferCall.run, TransferCall.onWorld, World.recv, hz, hl]
    split
    · rfl
    · exact ha.trans (returned_recvFrom w p res).symm

end World

/-- For a length of two gigabytes the kernel is told of almost all of memory. -/
theorem length_widened : (TransferCall.send.run (fun _ => -1) 0x80000000).seen = 0xffffffff80000000 ∧
    ∀ c, ¬ Survives c 0x80000000 := by
  refine ⟨by decide,fun c h => ?_⟩
  have hs := (h _ honest_zero).1
  rw [seen_run] at hs
  exact absurd hs (by decide)

end UServer.Net
