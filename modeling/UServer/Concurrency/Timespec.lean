import UServer.Concurrency.TaskQueue

/-! The deadline that Event::Wait(give_up_after) makes from its duration, and gives to pthread_cond_timedwait. -/
namespace UServer.Concurrency

structure Timespec where
  tvSec : ℤ
  tvNsec : ℤ
  deriving DecidableEq

namespace Timespec

/-- The deadline of Wait, by / and % of C++. -/
def ofMillis (giveUpAfter : ℤ) : Timespec := ⟨giveUpAfter.tdiv 1000,giveUpAfter.tmod 1000 * 1000000⟩

/-- pthread_cond_timedwait returns EINVAL otherwise. -/
def Valid (ts : Timespec) : Prop := 0 ≤ ts.tvNsec ∧ ts.tvNsec < 1000000000

def Passed (ts : Timespec) (nanos : ℕ) : Prop := ts.tvSec * 1000000000 + ts.tvNsec ≤ nanos

instance : DecidablePred Valid := fun _ => inferInstanceAs (Decidable (_ ∧ _))

instance (ts : Timespec) (nanos : ℕ) : Decidable (ts.Passed nanos) := inferInstanceAs (Decidable (_ ≤ _))

theorem valid_ofMillis {d : ℤ} (h : 0 ≤ d) : (ofMillis d).Valid := by
  rw [Valid, ofMillis, Int.tmod_eq_emod_of_nonneg h]
  dsimp only
  omega

/-- The deadline is that many milliseconds after the epoch. -/
theorem passed_ofMillis_iff {d : ℤ} (h : 0 ≤ d) (nanos : ℕ) : (ofMillis d).Passed nanos ↔ d * 1000000 ≤ nanos := by
  rw [Passed, ofMillis, Int.tmod_eq_emod_of_nonneg h, Int.tdiv_eq_ediv_of_nonneg h]
  dsimp only
  omega

/-- For ever is no deadline at all, but an error. -/
theorem not_valid_forever : ¬ (ofMillis kForever).Valid := by decide

/-- Every deadline passes. -/
theorem exists_passed (ts : Timespec) (nanos : ℕ) : ∃ later, ts.Passed (nanos + later) := by
  refine ⟨(ts.tvSec * 1000000000 + ts.tvNsec).toNat,?_⟩
  rw [Passed]
  omega

end Timespec
end UServer.Concurrency
