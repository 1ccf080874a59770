import UServer.Memory.TrackedAllocator

/-! The objects that MakeUniqueN constructs and its deleter destroys, beside the block it asks for. -/
namespace UServer.Memory

/-- A UniquePtr that is not null. -/
structure UniquePtr where
  ptr : Address
  deleter : Deleter
  deriving DecidableEq

/-- What a call of MakeUniqueN did: the requests it made, the objects it constructed, and what it
returned, with none when it threw. -/
structure MakeRun where
  requests : List Request
  constructed : List Address
  result : Option (Option UniquePtr)
  deriving DecidableEq

/-- What a Deleter does. -/
inductive DeleterEvent where
  | destroyed (object : Address)
  | freed (f : FreeCall)

/-- MakeUniqueN over what Allocate answers (none when it throws) and whether the constructor throws. -/
def Allocator.makeUniqueN (this : Address) (T : ElementType) (count : Size) (allocate : Request → Option Address)
    (throws : Bool) : MakeRun :=
  if count = 0 then ⟨[],[],some none⟩
  else
    let request := makeUniqueNRequest T count
    match allocate request with
    | none => ⟨[request],[],none⟩
    | some ptr => if throws then ⟨[request],[],none⟩ else ⟨[request],[ptr],some (some ⟨ptr,⟨this,count⟩⟩)⟩

def Allocator.makeUnique (this : Address) (T : ElementType) (allocate : Request → Option Address) (throws : Bool) :
    MakeRun :=
  makeUniqueN this T 1 allocate throws

/-- The call operator of Deleter. -/
def Deleter.run (d : Deleter) (T : ElementType) (object : Address) : List DeleterEvent :=
  [.destroyed object,.freed (d.call T object)]

/-- An object lies in the block at an address. -/
def InBlock (T : ElementType) (p : Address) (r : Request) (object : Address) : Prop :=
  p.toNat ≤ object.toNat ∧ object.toNat + T.sizeof.toNat ≤ p.toNat + r.bytes

/-- One block large enough for all elements, that many objects constructed in it, and a deleter that destroys
each of them once before its only Free. -/
structure MakesAll (T : ElementType) (count : Size) (run : MakeRun) (made : UniquePtr) : Prop where
  request : ∃ r, run.requests = [r] ∧ T.sizeof.toNat * count.toNat ≤ r.bytes ∧
    ∀ object ∈ run.constructed, InBlock T made.ptr r object
  constructed : run.constructed.Nodup ∧ run.constructed.length = count.toNat
  destroyed : ∃ (order : List Address) (f : FreeCall),
    made.deleter.run T made.ptr = order.map DeleterEvent.destroyed ++ [.freed f] ∧ order.Perm run.constructed

namespace Allocator
variable {this : Address} {T : ElementType} {count : Size} {allocate : Request → Option Address} {throws : Bool}

/-- The request has the bytes of all elements exactly where the product is below 2 to the 64. -/
theorem bytes_makeUniqueNRequest_iff :
    T.sizeof.toNat * count.toNat ≤ (makeUniqueNRequest T count).bytes ↔ T.sizeof.toNat * count.toNat < 2 ^ 64 := by
  have hb : (makeUniqueNRequest T count).bytes = T.sizeof.toNat * count.toNat % 2 ^ 64 := UInt64.toNat_mul ..
  rw [hb]
  constructor
  · intro h
    exact h.trans_lt (Nat.mod_lt _ (by decide))
  · intro h
    rw [Nat.mod_eq_of_lt h]

example : (makeUniqueNRequest ⟨16,8⟩ 0x1000000000000001).bytes = 16 := by decide +kernel

/-- The call fails where Allocate or the constructor throws. -/
theorem makeUniqueN_failed (hc : count ≠ 0) (h : allocate (makeUniqueNRequest T count) = none ∨ throws = true) :
    (makeUniqueN this T count allocate throws).result = none := by
  rw [makeUniqueN, if_neg hc]
  cases ha : allocate (makeUniqueNRequest T count) with
  | none => simp only [ha]
  | some p =>
    have ht : throws = true := h.resolve_left (by rw [ha]; exact nofun)
    simp only [ha, if_pos ht]

/-- Else it makes one object, whatever the count. -/
theorem makeUniqueN_made (hc : count ≠ 0) {p : Address} (ha : allocate (makeUniqueNRequest T count) = some p)
    (ht : throws = false) : makeUniqueN this T count allocate throws =
      ⟨[makeUniqueNRequest T count],[p],some (some ⟨p,⟨this,count⟩⟩)⟩ := by
  simp only [makeUniqueN, if_neg hc, ha, ht, Bool.false_eq_true, if_false]

/-- The tracked call makes the same request and leaves the pointer to the same deleter. -/
theorem makeUniqueN_tracked (s : State) (frame : Address) (hc : count ≠ 0) {p : Address}
    (ha : allocate (makeUniqueNRequest T count) = some p) (ht : throws = false) :
    ∃ r made, makeUniqueN this T count allocate throws = ⟨[r],[p],some (some made)⟩ ∧
      Memory.makeUniqueN this s frame T count = s.allocate frame r (.uniquePtr T made.deleter) :=
  ⟨_,_,makeUniqueN_made hc ha ht,if_neg hc⟩

/-- One object is constructed and one destroyed, so all of them only where the count is one. -/
theorem makesAll_made_iff {p : Address} :
    MakesAll T count ⟨[makeUniqueNRequest T count],[p],some (some ⟨p,⟨this,count⟩⟩)⟩ ⟨p,⟨this,count⟩⟩ ↔ count = 1 := by
  constructor
  · intro h
    exact UInt64.toNat.inj h.constructed.2.symm
  · rintro rfl
    have hb : (makeUniqueNRequest T 1).bytes = T.sizeof.toNat := by simp [makeUniqueNRequest, Request.bytes]
    refine ⟨⟨_,rfl,?_,fun object ho => ?_⟩,⟨List.nodup_singleton p,rfl⟩,⟨[p],_,rfl,.refl _⟩⟩
    · rw [hb]
      exact (Nat.mul_one _).le
    · obtain rfl := List.mem_singleton.mp ho
      exact ⟨le_rfl,by rw [hb]⟩

section Calls
variable (this T count allocate throws)

/-- MakeUnique fails or makes its one object. -/
theorem makeUnique_makes : (makeUnique this T allocate throws).result = none ∨
    ∃ made, (makeUnique this T allocate throws).result = some (some made) ∧
      MakesAll T 1 (makeUnique this T allocate throws) made := by
  by_cases hf : allocate (makeUniqueNRequest T 1) = none ∨ throws = true
  · exact .inl (makeUniqueN_failed (by decide) hf)
  · obtain ⟨ha,ht⟩ := not_or.mp hf
    obtain ⟨p,ha⟩ := Option.ne_none_iff_exists'.mp ha
    rw [makeUnique, makeUniqueN_made (by decide) ha (Bool.not_eq_true _ ▸ ht)]
    exact .inr ⟨_,rfl,makesAll_made_iff.mpr rfl⟩

/-- A call for one element or more fails or makes all of them exactly where it fails or the count is one. -/
theorem makeUniqueN_makes_iff (hc : 0 < count) :
    ((makeUniqueN this T count allocate throws).result = none ∨
      ∃ made, (makeUniqueN this T count allocate throws).result = some (some made) ∧
        MakesAll T count (makeUniqueN this T count allocate throws) made) ↔
    allocate (makeUniqueNRequest T count) = none ∨ throws = true ∨ count = 1 := by
  have hne : count ≠ 0 := fun h => absurd (h ▸ hc) (by decide)
  by_cases hf : allocate (makeUniqueNRequest T count) = none ∨ throws = true
  · exact iff_of_true (.inl (makeUniqueN_failed hne hf)) (hf.imp_right .inl)
  · rw [not_or] at hf
    obtain ⟨p,ha⟩ := Option.ne_none_iff_exists'.mp hf.1
    rw [makeUniqueN_made hne ha (Bool.not_eq_true _ ▸ hf.2), ← or_assoc, or_iff_right (not_or.mpr hf),
      ← @makesAll_made_iff this T count p, or_iff_right nofun]
    constructor
    · rintro ⟨made,hm,h⟩
      cases hm
      exact h
    · exact fun h => ⟨_,rfl,h⟩

end Calls

theorem makeUniqueN_makes_one : ∃ made,
    (makeUniqueN 0x1000 ⟨4,4⟩ 1 (fun _ => some 0x2000) false).result = some (some made) ∧
      MakesAll ⟨4,4⟩ 1 (makeUniqueN 0x1000 ⟨4,4⟩ 1 (fun _ => some 0x2000) false) made :=
  ((makeUniqueN_makes_iff 0x1000 ⟨4,4⟩ 1 (fun _ => some 0x2000) false (by decide)).mpr
    (.inr (.inr rfl))).resolve_left (by decide)

/-- Two elements of four bytes: one is constructed and one destroyed. -/
theorem makeUniqueN_misses_second :
    makeUniqueN 0x1000 ⟨4,4⟩ 2 (fun _ => some 0x2000) false =
      ⟨[makeUniqueNRequest ⟨4,4⟩ 2],[0x2000],some (some ⟨0x2000,⟨0x1000,2⟩⟩)⟩ ∧
    ¬ MakesAll ⟨4,4⟩ 2 (makeUniqueN 0x1000 ⟨4,4⟩ 2 (fun _ => some 0x2000) false) ⟨0x2000,⟨0x1000,2⟩⟩ := by
  refine ⟨rfl,fun h => ?_⟩
  exact absurd (makesAll_made_iff.mp h) (by decide)

end Allocator
end UServer.Memory
