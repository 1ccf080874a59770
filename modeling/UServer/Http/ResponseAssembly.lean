import UServer.Http.HttpServer
import UServer.Net.InetText

/-! The start-up code that reads index.html into one buffer and puts the response together in another. -/
namespace UServer.Http
open Library Library.Numeral Net

/-- sizeof index_html_buffer and of response_buffer. -/
def bufferSize : ℕ := 4096

/-- Bytes written into a buffer at an offset. -/
def overwrite (buf : List Byte) (off : ℕ) (bytes : List Byte) : List Byte :=
  buf.take off ++ bytes ++ buf.drop (off + bytes.length)

/-- The loop of fread, which fills the buffer from its start each time; the length is a size_t. -/
def readLoop (buf : List Byte) (indexHtmlLength : UInt64) (file : List Byte) : List Byte × UInt64 :=
  match file with
  | [] => (buf,indexHtmlLength)
  | c :: cs =>
    let chunk := (c :: cs).take bufferSize
    readLoop (overwrite buf 0 chunk) (indexHtmlLength + UInt64.ofNat chunk.length) ((c :: cs).drop bufferSize)
  termination_by file.length
  decreasing_by simp [bufferSize]

/-- The format with its argument. -/
def formatHeader (length : List Byte) : List Byte :=
  text "HTTP/1.1 200 OK\r\nContent-Type: text/html\r\nContent-Length: " ++ length ++ text "\r\n\r\n"

/-- A size_t printed by %ld. -/
def printLd (n : UInt64) : List Byte :=
  if n.toNat < 2 ^ 63 then numeral 10 n.toNat else ascii '-' :: numeral 10 (2 ^ 64 - n.toNat)

/-- snprintf into a buffer from its start, cut to the size with its terminator. -/
def snprintf (buf : List Byte) (size : ℕ) (out : List Byte) : List Byte := overwrite buf 0 (out.take (size - 1) ++ [0])

def strlen (buf : List Byte) : ℕ := (cStr buf).length

/-- How the start-up code ends: main returns, response_buffer is filled up to response_length, or memcpy
writes past its end. -/
inductive StartUp where
  | refused
  | ready (response : List Byte)
  | overran
  deriving DecidableEq

/-- Both buffers are zero at first. -/
def startUp : Option (List Byte) → StartUp
  | none => .refused
  | some file =>
    let read := readLoop (List.replicate bufferSize 0) 0 file
    let responseBuffer := snprintf (List.replicate bufferSize 0) bufferSize (formatHeader (printLd read.2))
    let len := strlen responseBuffer
    let n := read.2.toNat
    if len + n ≤ bufferSize then .ready ((overwrite responseBuffer len (read.1.take n)).take (len + n)) else .overran

/-- The header with a content length, and the content. -/
def responseTo (file : List Byte) : List Byte := formatHeader (numeral 10 file.length) ++ file

/-- The file is refused or answered in full, with no write outside the buffers: one outside the first would
make it longer, and one outside the second is an overrun. -/
structure Assembled (file : List Byte) : Prop where
  read : (readLoop (List.replicate bufferSize 0) 0 file).1.length = bufferSize
  response : startUp (some file) = .refused ∨ startUp (some file) = .ready (responseTo file)

section Buffers
variable {buf bytes : List Byte}

theorem length_overwrite {off : ℕ} (h : off + bytes.length ≤ buf.length) :
    (overwrite buf off bytes).length = buf.length := by
  simp only [overwrite, List.length_append, List.length_take, List.length_drop]
  omega

/-- Every fread stays inside its buffer. -/
theorem length_readLoop (file : List Byte) (n : UInt64) (h : buf.length = bufferSize) :
    (readLoop buf n file).1.length = bufferSize := by
  induction buf, n, file using readLoop.induct with
  | case1 buf n =>
    rw [readLoop]
    exact h
  | case2 buf n c cs chunk ih =>
    rw [readLoop]
    refine ih ((length_overwrite ?_).trans h)
    rw [Nat.zero_add, h]
    exact List.length_take_le ..

/-- A file that fits is read by one fread. -/
theorem readLoop_of_fits {file : List Byte} (h : file.length ≤ bufferSize) :
    readLoop (List.replicate bufferSize 0) 0 file =
      (file ++ List.replicate (bufferSize - file.length) 0,UInt64.ofNat file.length) := by
  cases file with
  | nil =>
    rw [readLoop]
    rfl
  | cons c cs =>
    rw [readLoop, List.take_of_length_le h, List.drop_of_length_le h, readLoop]
    simp [overwrite]

/-- What is printed into the zeros is the string that strlen measures. -/
theorem strlen_snprintf (out : List Byte) (h : out.length < bufferSize) (hz : (0 : Byte) ∉ out) :
    strlen (snprintf (List.replicate bufferSize 0) bufferSize out) = out.length ∧
      (snprintf (List.replicate bufferSize 0) bufferSize out).take out.length = out := by
  have ht : out.take (bufferSize - 1) = out := List.take_of_length_le (by omega)
  have he : snprintf (List.replicate bufferSize 0) bufferSize out =
      out ++ 0 :: (List.replicate bufferSize 0).drop (0 + (out ++ [0]).length) := by
    rw [snprintf, ht, overwrite]
    simp
  rw [he, List.take_left]
  refine ⟨?_,rfl⟩
  rw [strlen, cStr, List.takeWhile_append_of_pos fun c hc => decide_eq_true (ne_of_mem_of_not_mem hc hz)]
  simp

end Buffers

section Header
variable {digits : List Byte}

theorem length_formatHeader (digits : List Byte) : (formatHeader digits).length = 62 + digits.length := by
  have h : (text "HTTP/1.1 200 OK\r\nContent-Type: text/html\r\nContent-Length: ").length = 58 := by decide +kernel
  have h' : (text "\r\n\r\n").length = 4 := by decide +kernel
  rw [formatHeader, List.length_append, List.length_append, h, h']
  omega

theorem zero_not_mem_formatHeader (h : (0 : Byte) ∉ digits) : (0 : Byte) ∉ formatHeader digits := by
  have hs : (0 : Byte) ∉ text "HTTP/1.1 200 OK\r\nContent-Type: text/html\r\nContent-Length: " := by decide +kernel
  have he : (0 : Byte) ∉ text "\r\n\r\n" := by decide +kernel
  simp only [formatHeader, List.mem_append, hs, he, h, or_self, not_false_eq_true]

/-- A numeral has no terminator inside it. -/
theorem zero_not_mem_numeral (n : ℕ) : (0 : Byte) ∉ numeral 10 n := fun h =>
  absurd (isDigit_numeral h) (by decide)

end Header

/-- What is left in response_buffer never exceeds it. -/
theorem length_of_ready {index : Option (List Byte)} {response : List Byte} (h : startUp index = .ready response) :
    response.length ≤ bufferSize := by
  cases index with
  | none => cases h
  | some file =>
    simp only [startUp] at h
    split at h
    · rename_i hfits
      cases h
      exact (List.length_take_le ..).trans hfits
    · cases h

/-- A file that one fread reads is answered in full or written past the end of the buffer. -/
theorem startUp_of_fits (file : List Byte) (h : file.length ≤ bufferSize) :
    startUp (some file) = if (responseTo file).length ≤ bufferSize then .ready (responseTo file) else .overran := by
  have hn : (UInt64.ofNat file.length).toNat = file.length :=
    UInt64.toNat_ofNat_of_lt' (h.trans_lt (by decide))
  have hp : printLd (UInt64.ofNat file.length) = numeral 10 file.length := by
    rw [printLd, hn, if_pos (h.trans_lt (by decide))]
  have hd : (numeral 10 file.length).length ≤ 4 :=
    (length_numeral_le_iff (by decide) (by decide) _).mpr (h.trans_lt (by decide))
  have hl := length_formatHeader (numeral 10 file.length)
  obtain ⟨hlen,htake⟩ := strlen_snprintf (formatHeader (numeral 10 file.length))
    (show _ < 4096 by omega) (zero_not_mem_formatHeader (zero_not_mem_numeral _))
  have ht : (file ++ List.replicate (bufferSize - file.length) (0 : Byte)).take file.length = file := List.take_left
  simp only [startUp, readLoop_of_fits h, hn, hp, hlen, ht]
  rw [responseTo, List.length_append]
  have hbody : ((overwrite (snprintf (List.replicate bufferSize 0) bufferSize (formatHeader (numeral 10 file.length)))
      (formatHeader (numeral 10 file.length)).length file).take
        ((formatHeader (numeral 10 file.length)).length + file.length)) =
      formatHeader (numeral 10 file.length) ++ file := by
    rw [overwrite, htake]
    exact List.take_left' List.length_append
  rw [hbody]

theorem startUp_ready {file : List Byte} (h : file.length ≤ 4030) : startUp (some file) = .ready (responseTo file) := by
  have hd := (length_numeral_le_iff (b := 10) (k := 4) (by decide) (by decide) file.length).mpr (by omega)
  refine (startUp_of_fits file (h.trans (by decide))).trans (if_pos ?_)
  rw [responseTo, List.length_append, length_formatHeader, bufferSize]
  omega

/-- Files of up to 4030 bytes are answered in full, and no others. -/
theorem assembled_iff (file : List Byte) : Assembled file ↔ file.length ≤ 4030 := by
  constructor
  · intro h
    have hr : startUp (some file) = .ready (responseTo file) := by
      rcases h.response with h | h
      · simp only [startUp] at h
        split at h <;> cases h
      · exact h
    have hl := length_of_ready hr
    rw [responseTo, List.length_append, length_formatHeader] at hl
    by_contra hgt
    have hd := (length_numeral_le_iff (b := 10) (k := 3) (by decide) (by decide) file.length).not.mpr (by omega)
    simp only [bufferSize] at hl
    omega
  · intro h
    have hd := (length_numeral_le_iff (b := 10) (k := 4) (by decide) (by decide) file.length).mpr (by omega)
    refine ⟨length_readLoop file 0 List.length_replicate,.inr ?_⟩
    refine (startUp_of_fits file (h.trans (by decide))).trans (if_pos ?_)
    rw [responseTo, List.length_append, length_formatHeader, bufferSize]
    omega

/-- One byte more, and memcpy writes behind the buffer. -/
theorem assembly_overruns : startUp (some (List.replicate 4031 120)) = .overran ∧
    ¬ Assembled (List.replicate 4031 120) := by
  have hl : (List.replicate 4031 (120 : Byte)).length = 4031 := List.length_replicate
  have hn : ¬ Assembled (List.replicate 4031 120) := fun h => absurd ((assembled_iff _).mp h) (by rw [hl]; decide)
  have hs := startUp_of_fits (List.replicate 4031 120) (by rw [hl]; decide)
  refine ⟨hs.trans (if_neg fun h => hn ⟨length_readLoop _ 0 List.length_replicate,.inr ?_⟩),hn⟩
  exact hs.trans (if_pos h)

/-- What the server answers with, once its start-up code is past the assembly. -/
def responseOf {index : Option (List Byte)} {response : List Byte} (h : startUp index = .ready response) : Response where
  bytes := response.map UInt8.ofFin
  fits := by
    rw [List.length_map]
    exact length_of_ready h

/-- It is the header and the file. -/
theorem bytes_responseOf {file response : List Byte} (h : startUp (some file) = .ready response)
    (hl : file.length ≤ 4030) : (responseOf h).bytes = (responseTo file).map UInt8.ofFin := by
  cases h.symm.trans (startUp_ready hl)
  rfl

end UServer.Http
