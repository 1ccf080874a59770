import Mathlib.Data.Nat.Digits.Lemmas
import UServer.Library.ByteOrder

/-! Text as bytes: numerals in a base up to sixteen, lists of numerals with a separator,
and the search for a character. -/
namespace UServer.Library

/-- A character of the ASCII set. -/
def ascii (c : Char) : Byte := Fin.ofNat 256 c.toNat

/-- The text of a string of ASCII characters. -/
def text (s : String) : List Byte := s.toList.map ascii

namespace Numeral

/-- 0 to 9, then a to f. -/
def digit (d : ℕ) : Byte := Fin.ofNat 256 (if d < 10 then 48 + d else 87 + d)

def digitValue (c : Byte) : ℕ := if c.val < 58 then c.val - 48 else c.val - 87

/-- What the digits of base ten look like. -/
def isDigit (c : Byte) : Bool := 48 ≤ c.val ∧ c.val ≤ 57

/-- What the lower-case digits of base sixteen look like. -/
def isHexDigit (c : Byte) : Bool := isDigit c ∨ (97 ≤ c.val ∧ c.val ≤ 102)

/-- The shortest numeral of a number, most significant digit first. -/
def numeral (b n : ℕ) : List Byte := if n = 0 then [digit 0] else ((Nat.digits b n).map digit).reverse

/-- The number a string of digits stands for. -/
def value (b : ℕ) (s : List Byte) : ℕ := s.foldl (fun n c => b * n + digitValue c) 0

theorem digit_val {d : ℕ} (h : d < 16) : (digit d).val = if d < 10 then 48 + d else 87 + d := by
  rw [digit, Fin.val_ofNat]
  split <;> omega

theorem digitValue_digit {d : ℕ} (h : d < 16) : digitValue (digit d) = d := by
  rw [digitValue, digit_val h]
  split <;> split <;> omega

theorem isHexDigit_digit {d : ℕ} (h : d < 16) : isHexDigit (digit d) = true := by
  simp only [isHexDigit, isDigit, digit_val h, decide_eq_true_eq]
  split <;> omega

theorem isDigit_digit {d : ℕ} (h : d < 10) : isDigit (digit d) = true := by
  simp only [isDigit, digit_val (by omega : d < 16), if_pos h, decide_eq_true_eq]
  omega

variable {b : ℕ}

theorem numeral_ne_nil (n : ℕ) : numeral b n ≠ [] := by
  rw [numeral]
  split
  · exact List.cons_ne_nil _ _
  · rename_i h
    simpa using Nat.digits_ne_nil_iff_ne_zero.mpr h

/-- Every character of a numeral is the digit of a number below the base. -/
theorem mem_numeral (hb : 1 < b) {n : ℕ} {c : Byte} (hc : c ∈ numeral b n) : ∃ d < b, c = digit d := by
  rw [numeral] at hc
  split at hc
  · exact ⟨0,by omega,List.mem_singleton.mp hc⟩
  · obtain ⟨d,hd,rfl⟩ := List.mem_map.mp (List.mem_reverse.mp hc)
    exact ⟨d,Nat.digits_lt_base hb hd,rfl⟩

theorem isDigit_numeral {n : ℕ} {c : Byte} (hc : c ∈ numeral 10 n) : isDigit c = true := by
  obtain ⟨d,hd,rfl⟩ := mem_numeral (by decide) hc
  exact isDigit_digit hd

/-- A numeral has at most k digits exactly for the numbers below the k-th power of the base. -/
theorem length_numeral_le_iff (hb : 1 < b) {k : ℕ} (hk : 0 < k) (n : ℕ) : (numeral b n).length ≤ k ↔ n < b ^ k := by
  rw [numeral]
  split
  · rename_i h
    rw [h]
    exact iff_of_true hk (Nat.pow_pos (by omega))
  · rw [List.length_reverse, List.length_map]
    exact Nat.digits_length_le_iff hb n

/-- A numeral stands for the number it was made from. -/
theorem value_numeral (hb : 1 < b) (hb' : b ≤ 16) (n : ℕ) : value b (numeral b n) = n := by
  have hd : ∀ ds : List ℕ, (∀ d ∈ ds, d < b) → value b (ds.map digit).reverse = Nat.ofDigits b ds := by
    intro ds hds
    rw [value, List.foldl_reverse, Nat.ofDigits_eq_foldr]
    induction ds with
    | nil => rfl
    | cons d ds ih =>
      rw [List.map_cons, List.foldr_cons, List.foldr_cons, ih fun e he => hds e (List.mem_cons_of_mem d he),
        digitValue_digit ((hds d List.mem_cons_self).trans_le hb')]
      exact Nat.add_comm _ _
  rw [numeral]
  split
  · rename_i h
    rw [h]
    exact hd [0] (by simp; omega)
  · rw [hd _ fun d h => Nat.digits_lt_base hb h, Nat.ofDigits_digits]

/-- Numerals with a separator between them. -/
def separated (sep : Byte) (b : ℕ) (fields : List ℕ) : List Byte := [sep].intercalate (fields.map (numeral b))

/-- The numbers between the separators. -/
def fieldsOf (sep : Byte) (b : ℕ) (s : List Byte) : List ℕ := (s.splitOn sep).map (value b)

theorem fieldsOf_separated (hb : 1 < b) (hb' : b ≤ 16) {sep : Byte} (hs : isHexDigit sep = false) {fields : List ℕ}
    (hf : fields ≠ []) : fieldsOf sep b (separated sep b fields) = fields := by
  have hsep : ∀ l ∈ fields.map (numeral b), sep ∉ l := by
    intro l hl hm
    obtain ⟨n,-,rfl⟩ := List.mem_map.mp hl
    obtain ⟨d,hd,rfl⟩ := mem_numeral hb hm
    rw [isHexDigit_digit (by omega)] at hs
    cases hs
  rw [fieldsOf, separated, List.splitOn_intercalate sep hsep (by simpa using hf), List.map_map]
  exact (List.map_congr_left fun n _ => value_numeral hb hb' n).trans (List.map_id _)

/-- The characters of separated numerals are separators and digits below the base. -/
theorem mem_separated (hb : 1 < b) {sep c : Byte} {fields : List ℕ} (hc : c ∈ separated sep b fields) :
    c = sep ∨ ∃ d < b, c = digit d := by
  rw [separated] at hc
  induction fields with
  | nil => cases hc
  | cons n fields ih =>
    cases fields with
    | nil =>
      rw [List.map_singleton, List.intercalate_singleton] at hc
      exact .inr (mem_numeral hb hc)
    | cons m fields =>
      rw [List.map_cons, List.map_cons, List.intercalate_cons_cons, List.append_assoc] at hc
      rcases List.mem_append.mp hc with hc | hc
      · exact .inr (mem_numeral hb hc)
      · rcases List.mem_append.mp hc with hc | hc
        · exact .inl (List.mem_singleton.mp hc)
        · exact ih hc

/-- With two fields or more the separator occurs. -/
theorem sep_mem_separated (sep : Byte) (m n : ℕ) (fields : List ℕ) :
    sep ∈ separated sep b (m :: n :: fields) := by
  rw [separated, List.map_cons, List.map_cons, List.intercalate_cons_cons]
  simp

end Numeral

/-- The position of a character at or after another position. -/
def find (s : List Byte) (c : Byte) (pos : ℕ) : Option ℕ := ((s.drop pos).idxOf? c).map (· + pos)

/-- The first occurrence, when what stands before it is free of the character. -/
theorem find_append (p : List Byte) {h t : List Byte} {c : Byte} (hc : c ∉ h) :
    find (p ++ (h ++ c :: t)) c p.length = some (h.length + p.length) := by
  have hi : (h ++ c :: t).idxOf? c = some h.length := by
    rw [List.idxOf?_eq_some_iff]
    refine ⟨by simp,by simp,fun j hj he => hc ?_⟩
    rw [List.getElem_append_left hj] at he
    exact he ▸ List.getElem_mem hj
  rw [find, List.drop_left, hi]
  rfl

theorem find_eq_none {p s : List Byte} {c : Byte} (h : c ∉ s) : find (p ++ s) c p.length = none := by
  rw [find, List.drop_left, List.idxOf?_eq_none_iff.mpr h]
  rfl

/-- A text is cut in one way at the first occurrence of a character. -/
theorem cut_unique {h h' t t' : List Byte} {c : Byte} (hc : c ∉ h) (hc' : c ∉ h')
    (he : h ++ c :: t = h' ++ c :: t') : h = h' ∧ t = t' := by
  have hl : some h.length = some h'.length := by
    rw [← Nat.add_zero h.length, ← Nat.add_zero h'.length, ← List.length_nil (α := Byte), ← find_append [] hc,
      ← find_append [] hc', he]
  obtain ⟨hh,ht⟩ := List.append_inj he (Option.some.inj hl)
  exact ⟨hh,(List.cons.inj ht).2⟩

end UServer.Library
