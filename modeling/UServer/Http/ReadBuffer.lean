import UServer.Http.ResponseWrites

/-! Is the string that OnRead builds what the socket delivered? Each Recv writes its bytes over
those of the one before, while received adds up the lengths of all of them. -/
namespace UServer.Http
open Library Net

/-- What one ::recv into the buffer delivers. -/
structure Chunk where
  bytes : List UInt8
  nonempty : 0 < bytes.length
  fits : bytes.length ≤ Exchange.readBufferSize

inductive RecvOutcome where
  | data (chunk : Chunk)
  | eof
  | error (e : Errno)

/-- The answer to ::recv. -/
def RecvOutcome.answer : RecvOutcome → Except Errno Nat
  | .data chunk => .ok chunk.bytes.length
  | .eof => .ok 0
  | .error e => .error e

/-- The static buffer of OnRead, with whatever an earlier call left in it. -/
structure ReadBuffer where
  bytes : List UInt8
  size : bytes.length = Exchange.readBufferSize

namespace ReadBuffer

/-- ::recv writes from the start of the buffer. -/
def fill (b : ReadBuffer) (chunk : Chunk) : ReadBuffer where
  bytes := chunk.bytes ++ b.bytes.drop chunk.bytes.length
  size := by
    have hfits := chunk.fits
    have hsize := b.size
    simp only [List.length_append, List.length_drop]
    omega

def put (b : ReadBuffer) : RecvOutcome → ReadBuffer
  | .data chunk => b.fill chunk
  | _ => b

/-- std::string(buffer, buffer + received), or none where that reads past the end of the buffer. -/
def text (b : ReadBuffer) (received : Int) : Option (List UInt8) :=
  if received ≤ Exchange.readBufferSize then some (b.bytes.take received.toNat) else none

end ReadBuffer

/-- The loop of OnRead with its buffer; past the list nothing is left to read. -/
def fillLoop (p : Ptr) : List RecvOutcome → World → ReadBuffer → Int → ReadBuffer × Int
  | [], _, b, received => (b, received)
  | r :: recvs, w, b, received =>
    let (w, ret) := w.recv p Exchange.readBufferSize r.answer
    if 0 < ret then fillLoop p recvs w (b.put r) (received + ret) else (b, received)

/-- The string of OnRead, which builds none when it received nothing. -/
def onReadText (p : Ptr) (recvs : List RecvOutcome) (w : World) (b : ReadBuffer) : Option (List UInt8) :=
  let (b, received) := fillLoop p recvs w b 0
  if 0 < received then b.text received else some []

/-- What is received before the first ::recv without data. -/
def received : List RecvOutcome → List Chunk
  | .data chunk :: recvs => chunk :: received recvs
  | _ => []

def Chunk.size (chunk : Chunk) : Nat := chunk.bytes.length

/-- The loop with its buffer runs as the one that only counts. -/
theorem fillLoop_count (p : Ptr) (recvs : List RecvOutcome) (w : World) (b : ReadBuffer) (n : Int) :
    (fillLoop p recvs w b n).2 = (Exchange.readLoop p (recvs.map RecvOutcome.answer) w n).2 := by
  induction recvs generalizing w b n with
  | nil => rfl
  | cons r recvs ih =>
    simp only [fillLoop, Exchange.readLoop, List.map_cons]
    split
    · exact ih _ _ _
    · rfl

/-- What Recv returns on an open socket. -/
theorem OpenAt.recv_ret {p : Ptr} {writes : Bool} {w : World} (h : OpenAt p writes w) (r : RecvOutcome) :
    (w.recv p Exchange.readBufferSize r.answer).2 =
      match r with
      | .data chunk => (chunk.size : Int)
      | _ => -1 := by
  have hfrom (res : Except Errno Nat) : (w.recvFrom p res).2 = returned res := by
    obtain ⟨d,hd,-⟩ := (h.noteErrno res).setError (w.noteErrno res).errno
    simp only [World.recvFrom, h.answer, World.updateLastError, hd]
  unfold World.recv
  rw [h.answer]
  cases r with
  | data chunk =>
    have hne : ¬(returned (RecvOutcome.data chunk).answer = 0 ∧ Exchange.readBufferSize ≠ 0) := by
      rintro ⟨hz,-⟩
      have hpos := chunk.nonempty
      simp only [RecvOutcome.answer, returned] at hz
      omega
    rw [if_neg hne, hfrom]
    rfl
  | eof => rw [if_pos ⟨rfl,by decide⟩]
  | error e =>
    have hne : ¬(returned (RecvOutcome.error e).answer = 0 ∧ Exchange.readBufferSize ≠ 0) := by
      simp [RecvOutcome.answer, returned]
    rw [if_neg hne, hfrom]
    rfl

/-- Every chunk goes to the start of the buffer, and all of them are counted. -/
theorem fillLoop_eq {p : Ptr} {writes : Bool} {w : World} (h : OpenAt p writes w) (recvs : List RecvOutcome)
    (b : ReadBuffer) (n : Int) : fillLoop p recvs w b n =
      ((received recvs).foldl ReadBuffer.fill b,n + ((received recvs).map Chunk.size).sum) := by
  induction recvs generalizing w b n with
  | nil => simp [fillLoop, received]
  | cons r recvs ih =>
    have hret := h.recv_ret r
    unfold fillLoop
    dsimp only
    rw [hret]
    cases r with
    | data chunk =>
      have hpos : (0 : Int) < chunk.size := Int.natCast_pos.mpr chunk.nonempty
      dsimp only
      rw [if_pos hpos, ih (h.recv _ _)]
      simp [received, ReadBuffer.put, Int.add_assoc]
    | eof => simp [received]
    | error e => simp [received]

/-- What the calls return says how much each chunk holds. -/
theorem received_sizes {recvs recvs' : List RecvOutcome}
    (h : recvs'.map RecvOutcome.answer = recvs.map RecvOutcome.answer) :
    (received recvs').map Chunk.size = (received recvs).map Chunk.size := by
  induction recvs generalizing recvs' with
  | nil =>
    obtain rfl := List.map_eq_nil_iff.mp h
    rfl
  | cons r recvs ih =>
    cases recvs' with
    | nil => cases h
    | cons r' recvs' =>
      obtain ⟨hr,hrest⟩ := List.cons_eq_cons.mp h
      cases r with
      | data chunk =>
        cases r' with
        | data chunk' =>
          have hsize : chunk'.size = chunk.size := Except.ok.inj hr
          rw [received, received, List.map_cons, List.map_cons, hsize, ih hrest]
        | eof => exact absurd (Except.ok.inj hr) chunk.nonempty.ne
        | error e => cases hr
      | eof =>
        cases r' with
        | data chunk' => exact absurd (Except.ok.inj hr) chunk'.nonempty.ne'
        | eof => rfl
        | error e => rfl
      | error e =>
        cases r' with
        | data chunk' => cases hr
        | eof => rfl
        | error e => rfl

theorem Connection.openAt (c : Connection) : OpenAt c.p (has c.socket.enabledEvents deWrite) c.world :=
  ⟨c.socket,c.lives,c.isOpen,rfl⟩

/-- What was received, taken together. -/
def concatenation (recvs : List RecvOutcome) : List UInt8 := (received recvs).flatMap Chunk.bytes

theorem concatenation_length (recvs : List RecvOutcome) :
    (concatenation recvs).length = ((received recvs).map Chunk.size).sum := List.length_flatMap

/-- Where OnRead builds a string inside its buffer, it has the bytes of the buffer's start. -/
theorem onReadText_eq (c : Connection) (recvs : List RecvOutcome) (b : ReadBuffer) :
    onReadText c.p recvs c.world b = if (concatenation recvs).length ≤ Exchange.readBufferSize then
      some (((received recvs).foldl ReadBuffer.fill b).bytes.take (concatenation recvs).length) else none := by
  unfold onReadText
  rw [fillLoop_eq c.openAt, concatenation_length, Int.zero_add]
  dsimp only
  split
  · simp only [ReadBuffer.text, Nat.cast_le, Int.toNat_natCast]
  · rename_i hz
    have hz' : ((received recvs).map Chunk.size).sum = 0 := by omega
    rw [hz', if_pos (Nat.zero_le _), List.take_zero]

/-- One chunk leaves itself at the start of the buffer. -/
theorem onReadText_of_one (c : Connection) {recvs : List RecvOutcome} (h : (received recvs).length ≤ 1)
    (b : ReadBuffer) : onReadText c.p recvs c.world b = some (concatenation recvs) := by
  rw [onReadText_eq]
  unfold concatenation
  match hr : received recvs with
  | [] => simp
  | [chunk] => simp [ReadBuffer.fill, chunk.fits]
  | chunk :: chunk' :: rest => simp [hr] at h

/-- The same answers with every byte replaced. -/
def RecvOutcome.filled (x : UInt8) : RecvOutcome → RecvOutcome
  | .data chunk => .data
      { bytes := List.replicate chunk.size x
        nonempty := by simpa [Chunk.size] using chunk.nonempty
        fits := by simpa [Chunk.size] using chunk.fits }
  | r => r

theorem RecvOutcome.answer_filled (x : UInt8) (r : RecvOutcome) : (r.filled x).answer = r.answer := by
  cases r with
  | data chunk => simp [filled, answer, Chunk.size]
  | _ => rfl

theorem RecvOutcome.map_answer_filled (x : UInt8) (recvs : List RecvOutcome) :
    (recvs.map (RecvOutcome.filled x)).map RecvOutcome.answer = recvs.map RecvOutcome.answer := by
  rw [List.map_map]
  exact List.map_congr_left fun r _ => r.answer_filled x

theorem received_filled_head (x : UInt8) (recvs : List RecvOutcome) :
    ∀ chunk ∈ received (recvs.map (RecvOutcome.filled x)), chunk.bytes.head? = some x := by
  induction recvs with
  | nil => simp [received]
  | cons r recvs ih =>
    cases r with
    | data chunk =>
      have hne : chunk.size ≠ 0 := chunk.nonempty.ne'
      rintro chunk' (_ | ⟨_,hc⟩)
      · simp [List.head?_replicate, hne]
      · exact ih chunk' hc
    | eof => simp [received, RecvOutcome.filled]
    | error e => simp [received, RecvOutcome.filled]

namespace ReadBuffer

theorem head_fill (b : ReadBuffer) (chunk : Chunk) : (b.fill chunk).bytes.head? = chunk.bytes.head? :=
  List.head?_append_of_ne_nil _ (List.ne_nil_of_length_pos chunk.nonempty)

/-- The buffer starts with the first byte of the last chunk. -/
theorem head_foldl_fill {x : UInt8} (chunks : List Chunk) (h : ∀ chunk ∈ chunks, chunk.bytes.head? = some x)
    (b : ReadBuffer) (hb : b.bytes.head? = some x) : (chunks.foldl fill b).bytes.head? = some x := by
  induction chunks generalizing b with
  | nil => exact hb
  | cons chunk chunks ih =>
    refine ih (fun c hc => h c (List.mem_cons_of_mem _ hc)) _ ?_
    rw [head_fill]
    exact h chunk (List.mem_cons_self ..)

end ReadBuffer

/-- With two chunks the second overwrites the start of the first. -/
theorem onReadText_of_two (c : Connection) {recvs : List RecvOutcome} (h : 1 < (received recvs).length)
    (b : ReadBuffer) : ∃ recvs', recvs'.map RecvOutcome.answer = recvs.map RecvOutcome.answer ∧
      onReadText c.p recvs' c.world b ≠ some (concatenation recvs') := by
  cases recvs with
  | nil => simp [received] at h
  | cons r rest =>
    refine ⟨r.filled 1 :: rest.map (RecvOutcome.filled 0),?_,?_⟩
    · rw [List.map_cons, List.map_cons, r.answer_filled, RecvOutcome.map_answer_filled]
    · cases r with
      | data chunk =>
        have hsizes := congrArg List.length (received_sizes (RecvOutcome.map_answer_filled 0 rest))
        rw [List.length_map, List.length_map] at hsizes
        rw [onReadText_eq]
        split
        · obtain ⟨chunk',chunks,hrest⟩ := List.exists_cons_of_length_pos
            (l := received (rest.map (RecvOutcome.filled 0))) (by simp [received] at h; omega)
          have hzero := received_filled_head 0 rest
          rw [hrest] at hzero
          set all := concatenation ((RecvOutcome.data chunk).filled 1 :: rest.map (RecvOutcome.filled 0)) with hall
          have hone : all.head? = some 1 := by
            have hne : chunk.size ≠ 0 := chunk.nonempty.ne'
            rw [hall, concatenation, RecvOutcome.filled, received, List.flatMap_cons,
              List.head?_append_of_ne_nil _ (by simp [hne])]
            simp [List.head?_replicate, hne]
          have hlen : all.length ≠ 0 := by
            intro hz
            rw [List.length_eq_zero_iff.mp hz] at hone
            cases hone
          intro htext
          have hhead := congrArg List.head? (Option.some_inj.mp htext)
          rw [List.head?_take, if_neg hlen, hone, RecvOutcome.filled, received, hrest, List.foldl_cons, List.foldl_cons,
            ReadBuffer.head_foldl_fill chunks (fun c hc => hzero c (List.mem_cons_of_mem _ hc)) _
              ((ReadBuffer.head_fill _ _).trans (hzero chunk' (List.mem_cons_self ..)))] at hhead
          cases hhead
        · simp
      | eof => simp [received] at h
      | error e => simp [received] at h

/-- For all bytes that the same answers can bring, OnRead builds the string of what it received inside its buffer
if and only if at most one ::recv brought any; and it reads past the buffer once more bytes came than it holds. -/
theorem onRead_text_iff (c : Connection) (recvs : List RecvOutcome) (b : ReadBuffer) :
    ((∀ recvs', recvs'.map RecvOutcome.answer = recvs.map RecvOutcome.answer →
        onReadText c.p recvs' c.world b = some (concatenation recvs')) ↔ (received recvs).length ≤ 1) ∧
      (onReadText c.p recvs c.world b = none ↔ Exchange.readBufferSize < (concatenation recvs).length) := by
  refine ⟨⟨fun h => ?_,fun h recvs' hr => ?_⟩,?_⟩
  · by_contra hmany
    obtain ⟨recvs',hr,hne⟩ := onReadText_of_two c (not_le.mp hmany) b
    exact hne (h recvs' hr)
  · have hlen := congrArg List.length (received_sizes hr)
    rw [List.length_map, List.length_map] at hlen
    exact onReadText_of_one c (hlen.trans_le h) b
  · rw [onReadText_eq]
    split
    · rename_i hle
      exact iff_of_false (Option.some_ne_none _) (by omega)
    · rename_i hgt
      exact iff_of_true rfl (by omega)

/-- Static storage starts as zeros. -/
def ReadBuffer.blank : ReadBuffer := ⟨List.replicate Exchange.readBufferSize 0,List.length_replicate⟩

/-- A request of one byte, in a chunk of its own. -/
private def oneByte (x : UInt8) : RecvOutcome := .data ⟨[x],Nat.one_pos,Nat.one_le_two_pow (n := 12)⟩

/-- Two bytes come one after the other; the string has the second one and a zero. -/
theorem onRead_text_overwritten : ¬∀ (c : Connection) (recvs : List RecvOutcome) (b : ReadBuffer),
    onReadText c.p recvs c.world b = some (concatenation recvs) := by
  intro hall
  have htext : onReadText 1 [oneByte 65, oneByte 66] acceptedClient.world .blank = some [66, 0] := by
    decide +kernel
  have hbytes : concatenation [oneByte 65, oneByte 66] = [65, 66] := rfl
  have h := htext.symm.trans (hall acceptedClient [oneByte 65, oneByte 66] .blank)
  rw [hbytes] at h
  exact absurd h (by decide)

end UServer.Http
