import UServer.Library.ByteOrder

/-! Fixed-size byte buffers with fields at known offsets, as a C structure lies
in memory. Loads and stores of disjoint fields commute by the frame lemma. -/
namespace UServer.Library

abbrev ByteImage (size : Nat) := Fin size → Byte

namespace ByteImage
variable {size n m : Nat}

/-- The n bytes from an offset on; the caller keeps the field inside the buffer. -/
def load (s : ByteImage size) (off n : Nat) (h : off + n ≤ size) : Fin n → Byte :=
  fun i => s ⟨off + i, by omega⟩

def store (s : ByteImage size) (off : Nat) (v : Fin n → Byte) : ByteImage size :=
  fun i => if h : off ≤ i.val ∧ i.val < off + n then v ⟨i.val - off, by omega⟩ else s i

@[simp] theorem load_store_same (s : ByteImage size) (off : Nat) (v : Fin n → Byte) (h : off + n ≤ size) :
    (s.store off v).load off n h = v := by
  funext i
  have hi : off ≤ off + i.val ∧ off + i.val < off + n := ⟨by omega, by omega⟩
  simp only [load, store, dif_pos hi, Nat.add_sub_cancel_left]

/-- A store leaves every field that ends before it or starts after it alone. -/
theorem load_store_disjoint (s : ByteImage size) (off off' : Nat) (v : Fin n → Byte) (h : off' + m ≤ size)
    (hd : off' + m ≤ off ∨ off + n ≤ off') : (s.store off v).load off' m h = s.load off' m h := by
  funext i
  have hi : ¬ (off ≤ off' + i.val ∧ off' + i.val < off + n) := by omega
  simp only [load, store, dif_neg hi]

/-- A field held as a little-endian word. -/
def loadWord (s : ByteImage size) (off n : Nat) (h : off + n ≤ size) : Word n :=
  littleEndian.symm (s.load off n h)

def storeWord (s : ByteImage size) (off : Nat) (x : Word n) : ByteImage size :=
  s.store off (littleEndian x)

@[simp] theorem loadWord_storeWord_same (s : ByteImage size) (off : Nat) (x : Word n) (h : off + n ≤ size) :
    (s.storeWord off x).loadWord off n h = x := by
  simp [loadWord, storeWord]

end ByteImage
end UServer.Library
