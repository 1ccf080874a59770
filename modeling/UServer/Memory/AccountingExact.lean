import UServer.Library.Tally
import UServer.Memory.TrackedAllocator

/-! The statistics of a TrackedAllocator are exact: each Free meets the Allocate it undoes, and
counts and bytes are those of the allocations outstanding. -/
namespace UServer.Memory
open Library Library.Tally

section Fields

theorem mem_all (u : Usage) : u ∈ Usage.all := by
  cases u <;> decide

theorem nodup_all : Usage.all.Nodup := by decide

end Fields

/-- The statistics are those of a list of requests, up to overflow of the words that hold them. -/
def Tracks (st : Stats) (l : List Request) : Prop :=
  ∀ u, (st.byUsage u).count = UInt64.ofNat (total Request.usage (fun _ => 1) u l) ∧
    (st.byUsage u).bytes = UInt64.ofNat (total Request.usage Request.bytes u l)

namespace Tracks
variable {st : Stats} {l m : List Request} {r : Request}

theorem perm (h : Tracks st l) (hp : l.Perm m) : Tracks st m := by
  intro u
  rw [← total_perm _ _ u hp, ← total_perm _ _ u hp]
  exact h u

theorem allocate (h : Tracks st l) (r : Request) : Tracks (st.allocate r) (r :: l) := by
  intro u
  rw [total_cons, total_cons]
  by_cases hu : r.usage = u
  · subst hu
    simp [Stats.allocate, h r.usage, Request.bytes, UInt64.add_comm]
  · simp [Stats.allocate, Function.update_of_ne (Ne.symm hu), h u, hu]

theorem free {a : Allocation} (h : Tracks st (a.request :: l)) : Tracks (st.free a) l := by
  intro u
  have hu := h u
  rw [total_cons, total_cons] at hu
  by_cases he : a.request.usage = u
  · subst he
    rw [if_pos rfl, if_pos rfl, Nat.add_comm, Nat.add_comm a.request.bytes] at hu
    simp [Stats.free, hu, Request.bytes]
  · rw [if_neg he, if_neg he, Nat.zero_add, Nat.zero_add] at hu
    simpa [Stats.free, Function.update_of_ne (Ne.symm he)] using hu

/-- The count of a usage, exactly. -/
theorem count (h : Tracks st l) (hn : l.length < 2 ^ 64) (u : Usage) :
    (st.byUsage u).count.toNat = total Request.usage (fun _ => 1) u l := by
  have hl : total Request.usage (fun _ => 1) u l ≤ l.length := by simpa using total_le Request.usage (fun _ => 1) u l
  rw [(h u).1, UInt64.toNat_ofNat_of_lt' (hl.trans_lt hn)]

/-- The bytes of a usage, exactly. -/
theorem bytes (h : Tracks st l) (hb : (l.map Request.bytes).sum < 2 ^ 64) (u : Usage) :
    (st.byUsage u).bytes.toNat = total Request.usage Request.bytes u l := by
  rw [(h u).2, UInt64.toNat_ofNat_of_lt' ((total_le _ _ u l).trans_lt hb)]

/-- Neither assertion fails for a request that is counted. -/
theorem normalFree (h : Tracks st l) (hn : l.length < 2 ^ 64) (hb : (l.map Request.bytes).sum < 2 ^ 64)
    {a : Allocation} (ha : a.request ∈ l) : st.normalFree a = true := by
  have hp := List.perm_cons_erase ha
  have hc := h.count hn a.request.usage
  have hs := h.bytes hb a.request.usage
  rw [total_perm _ _ _ hp, total_cons, if_pos rfl] at hc hs
  simp only [Stats.normalFree, Bool.and_eq_true, decide_eq_true_eq, UInt64.lt_iff_toNat_lt, UInt64.le_iff_toNat_le]
  rw [hc, hs]
  exact ⟨by simp,Nat.le_add_right _ _⟩

private theorem sum_field {f : UsageStats → Size} {n : ℕ} (hn : n < 2 ^ 64)
    (hs : (Usage.all.map fun u => (f (st.byUsage u)).toNat).sum = n) :
    (Usage.all.foldl (fun out u => out + f (st.byUsage u)) 0).toNat = n := by
  have hf := foldl_add_ofNat (fun u => f (st.byUsage u)) Usage.all 0
  rw [hs, Nat.zero_add] at hf
  exact (congrArg UInt64.toNat hf).trans (UInt64.toNat_ofNat_of_lt' hn)

theorem sum_count (h : Tracks st l) (hn : l.length < 2 ^ 64) :
    (Usage.all.map fun u => (st.byUsage u).count.toNat).sum = l.length := by
  simp only [h.count hn]
  rw [sum_total _ _ nodup_all fun r _ => mem_all r.usage]
  simp

theorem sum_bytes (h : Tracks st l) (hb : (l.map Request.bytes).sum < 2 ^ 64) :
    (Usage.all.map fun u => (st.byUsage u).bytes.toNat).sum = (l.map Request.bytes).sum := by
  simp only [h.bytes hb]
  exact sum_total _ _ nodup_all fun r _ => mem_all r.usage

/-- NumAllocations is the number of requests. -/
theorem numAllocations (h : Tracks st l) (hn : l.length < 2 ^ 64) : st.numAllocations.toNat = l.length :=
  sum_field hn (h.sum_count hn)

/-- BytesAllocated is their total size. -/
theorem bytesAllocated (h : Tracks st l) (hb : (l.map Request.bytes).sum < 2 ^ 64) :
    st.bytesAllocated.toNat = (l.map Request.bytes).sum := sum_field hb (h.sum_bytes hb)

end Tracks

/-- Distinct addresses other than null are fewer than there are words. -/
private theorem length_lt {l : List Address} (hn : l.Nodup) (h₀ : 0 ∉ l) : l.length < 2 ^ 64 := by
  have hi : Function.Injective UInt64.toFin := fun a b h => UInt64.toFin_inj.mp h
  have hc := ((List.nodup_cons.mpr ⟨h₀,hn⟩).map hi).length_le_card
  rw [List.length_map, List.length_cons, Fintype.card_fin] at hc
  exact hc

/-- What holds between the calls in flight, the objects in use, the records and the statistics. -/
structure Accounted (this : Address) (s : State) : Prop where
  nodup : s.addresses.Nodup
  nonzero : 0 ∉ s.addresses
  calls : ∀ c ∈ s.calls, ∀ p, Object.release this ⟨p,c.owner,c.request⟩ = ⟨this,⟨p,c.request⟩⟩
  held : ∀ o ∈ s.objects, o.release this = ⟨this,o.allocation⟩
  out : (handedOut s.trace).Perm s.live
  matched : Matched s.trace
  passed : s.frees = (givenBack s.trace).map (FreeCall.mk this)
  tracks : Tracks s.stats s.outstanding

namespace Accounted
variable {this : Address} {s t : State}

theorem length_lt (h : Accounted this s) : s.outstanding.length < 2 ^ 64 := by
  have hl := Memory.length_lt h.nodup h.nonzero
  have ho := h.out.length_eq
  simp only [State.addresses, State.outstanding, List.length_append, List.length_map] at hl ⊢
  omega

theorem init (h : (trackedMachine this).init s) : Accounted this s := by
  cases h
  exact ⟨.nil,List.not_mem_nil,nofun,nofun,.nil,trivial,rfl,fun u => ⟨rfl,rfl⟩⟩

/-- A call that was counted waits for its memory. -/
theorem allocate (h : Accounted this s) {frame : Address} {r : Request} {owner : Owner}
    (ho : ∀ p, Object.release this ⟨p,owner,r⟩ = ⟨this,⟨p,r⟩⟩) (he : s.allocate frame r owner = some t) :
    Accounted this t := by
  obtain ⟨⟨hz,hf⟩,he⟩ := Option.ite_none_right_eq_some.mp he
  cases he
  refine ⟨List.nodup_cons.mpr ⟨hf,h.nodup⟩,?_,?_,h.held,h.out,h.matched,h.passed,h.tracks.allocate r⟩
  · rintro (_ | ⟨_,hm⟩)
    · exact hz rfl
    · exact h.nonzero hm
  · rintro c (_ | ⟨_,hc⟩)
    · exact ho
    · exact h.calls c hc

/-- An answer moves a request from the calls in flight to the memory that clients have. -/
theorem answer (h : Accounted this s) {c : Call} {ptr : Address} {thrown : Bool}
    (he : s.answer c ptr thrown = some t) : Accounted this t := by
  obtain ⟨⟨hc,hz,hf⟩,he⟩ := Option.ite_none_right_eq_some.mp he
  have hlive : t.live.Perm (⟨ptr,c.request⟩ :: s.live) := by
    cases he
    cases thrown with
    | true => exact List.perm_middle
    | false => exact .refl _
  have hheld : ∀ o ∈ t.objects, o.release this = ⟨this,o.allocation⟩ := by
    cases he
    cases thrown with
    | true => exact h.held
    | false =>
      rintro o (_ | ⟨_,ho⟩)
      · exact h.calls c hc ptr
      · exact h.held o ho
  have hr : s.outstanding.Perm t.outstanding := by
    have hl : ((s.calls.erase c).map Call.request ++ c.request :: s.live.map Allocation.request).Perm
        ((s.calls.erase c).map Call.request ++ t.live.map Allocation.request) :=
      (hlive.symm.map Allocation.request).append_left _
    cases he
    exact (((List.perm_cons_erase hc).map Call.request).append_right _).trans (List.perm_middle.symm.trans hl)
  cases he
  have hs : ((s.calls.erase c).map Call.frame ++ (handedOut s.trace).map Allocation.ptr).Sublist s.addresses :=
    (List.erase_sublist.map _).append_right _
  have ha : ((s.calls.erase c).map Call.frame ++ ptr :: (handedOut s.trace).map Allocation.ptr).Perm
      (ptr :: ((s.calls.erase c).map Call.frame ++ (handedOut s.trace).map Allocation.ptr)) := List.perm_middle
  refine ⟨ha.nodup_iff.mpr (List.nodup_cons.mpr ⟨fun hm => hf (hs.subset hm),h.nodup.sublist hs⟩),?_,
    fun d hd => h.calls d (List.mem_of_mem_erase hd),hheld,(h.out.cons _).trans hlive.symm,h.matched,h.passed,
    h.tracks.perm hr⟩
  intro hm
  rcases List.mem_cons.mp (ha.mem_iff.mp hm) with rfl | hm
  · exact hz rfl
  · exact h.nonzero (hs.subset hm)

/-- The owner of an object frees what Allocate returned for it. -/
theorem release (h : Accounted this s) {o : Object} (he : s.release this o = some t) : o ∈ s.objects ∧
    t = { s with objects := s.objects.erase o, frees := ⟨this,o.allocation⟩ :: s.frees }.free o.allocation ∧
    Accounted this t := by
  obtain ⟨ho,he⟩ := Option.ite_none_right_eq_some.mp he
  simp only [h.held o ho, if_true, Option.some_inj] at he
  refine ⟨ho,he.symm,?_⟩
  subst he
  have hlive : s.live.Perm (o.allocation :: ((s.objects.erase o).map Object.allocation ++ s.lost)) :=
    ((List.perm_cons_erase ho).map Object.allocation).append_right s.lost
  have ha : o.allocation ∈ handedOut s.trace := h.out.mem_iff.mpr (hlive.mem_iff.mpr List.mem_cons_self)
  have hn : ((handedOut s.trace).map Allocation.ptr).Nodup := h.nodup.sublist (List.sublist_append_right _ _)
  have hout := ((perm_cons_filter_key hn ha).symm.trans (h.out.trans hlive)).cons_inv
  have hs : (s.calls.map Call.frame ++
      ((handedOut s.trace).filter fun b => b.ptr ≠ o.ptr).map Allocation.ptr).Sublist s.addresses :=
    (List.filter_sublist.map _).append_left _
  have hr : s.outstanding.Perm (o.request ::
      (s.calls.map Call.request ++ ((s.objects.erase o).map Object.allocation ++ s.lost).map Allocation.request)) :=
    ((hlive.map Allocation.request).append_left _).trans List.perm_middle
  have ht : Tracks (s.stats.free o.allocation) _ := (h.tracks.perm hr).free
  exact ⟨h.nodup.sublist hs,fun hm => h.nonzero (hs.subset hm),h.calls,
    fun b hb => h.held b (List.mem_of_mem_erase hb),hout,⟨ha,h.matched⟩,congrArg (_ :: ·) h.passed,ht⟩

/-- Every step keeps the accounts, and frees only what is counted. -/
theorem step (h : Accounted this s) {a : Action} (he : Memory.step this s a = some t) :
    Accounted this t ∧ (s.Fits → t.abnormal = s.abnormal) := by
  have hcall : ∀ {frame : Address} {r : Request} {owner : Owner},
      (∀ p, Object.release this ⟨p,owner,r⟩ = ⟨this,⟨p,r⟩⟩) → s.allocate frame r owner = some t →
      Accounted this t ∧ (s.Fits → t.abnormal = s.abnormal) := by
    intro frame r owner ho he
    refine ⟨h.allocate ho he,fun _ => ?_⟩
    obtain ⟨_,he⟩ := Option.ite_none_right_eq_some.mp he
    cases he
    rfl
  have hunique : ∀ {frame : Address} {T : ElementType} {count : Size}, makeUniqueN this s frame T count = some t →
      Accounted this t ∧ (s.Fits → t.abnormal = s.abnormal) := by
    intro frame T count he
    simp only [makeUniqueN] at he
    split at he
    · cases he
      exact ⟨h,fun _ => rfl⟩
    · exact hcall (fun _ => rfl) he
  cases a with
  | create frame T => exact hcall (fun _ => rfl) he
  | makeUnique frame T => exact hunique he
  | makeUniqueN frame T count => exact hunique he
  | makeShared frame T =>
    refine hcall (fun p => ?_) he
    simp [Object.release, Deleter.call, Allocator.makeSharedRequest]
  | allocate frame T n => exact hcall (fun _ => rfl) he
  | answer c ptr thrown =>
    refine ⟨h.answer he,fun _ => ?_⟩
    obtain ⟨_,he⟩ := Option.ite_none_right_eq_some.mp he
    cases he
    rfl
  | release o =>
    obtain ⟨ho,rfl,ht⟩ := h.release he
    refine ⟨ht,fun hf => ?_⟩
    have hm : o.allocation.request ∈ s.outstanding :=
      List.mem_append_right _ (List.mem_map_of_mem (List.mem_append_left _ (List.mem_map_of_mem ho)))
    simp [State.free, h.tracks.normalFree h.length_lt hf hm]

end Accounted

theorem reachable_accounted {this : Address} {ok : State → Action → Prop} {s : State}
    (h : (trackedMachine this).Reachable ok s) : Accounted this s :=
  h.rule (fun _ => Accounted.init) fun _ _ _ hi _ he => (hi.step he).1

theorem reachable_normal {this : Address} {s : State} (h : (trackedMachine this).Reachable (fun s _ => s.Fits) s) :
    s.abnormal = false := by
  have hi : Accounted this s ∧ s.abnormal = false := by
    apply h.rule (I := fun s => Accounted this s ∧ s.abnormal = false)
    · intro s hs
      exact ⟨.init hs,by rw [hs]⟩
    · intro s a t hi hf he
      obtain ⟨ht,hn⟩ := hi.1.step he
      exact ⟨ht,(hn hf).trans hi.2⟩
  exact hi.2

/-- In every run whose outstanding bytes fit a size_t each call of Free reaches the allocator below and undoes its
Allocate, no assertion fails, the memory handed out is what clients still have, and the statistics are the numbers and
sizes of what is outstanding. -/
theorem accounting_exact (this : Address) {s : State}
    (h : (trackedMachine this).Reachable (fun s _ => s.Fits) s) (hf : s.Fits) :
    (s.frees = (givenBack s.trace).map (FreeCall.mk this) ∧ Matched s.trace ∧ (handedOut s.trace).Perm s.live) ∧
      s.abnormal = false ∧
      (∀ u, (s.stats.byUsage u).count.toNat = (s.outstandingOf u).length ∧
        (s.stats.byUsage u).bytes.toNat = ((s.outstandingOf u).map Request.bytes).sum) ∧
      s.stats.numAllocations.toNat = (Usage.all.map fun u => (s.stats.byUsage u).count.toNat).sum ∧
      s.stats.bytesAllocated.toNat = (Usage.all.map fun u => (s.stats.byUsage u).bytes.toNat).sum ∧
      (s.outstanding = [] → s.stats.numAllocations = 0 ∧ s.stats.bytesAllocated = 0) := by
  have hi := reachable_accounted h
  have ht := hi.tracks
  have hn := hi.length_lt
  refine ⟨⟨hi.passed,hi.matched,hi.out⟩,reachable_normal h,fun u => ⟨?_,ht.bytes hf u⟩,?_,?_,fun he => ⟨?_,?_⟩⟩
  · rw [ht.count hn u, total_one]
    rfl
  · rw [ht.numAllocations hn, ht.sum_count hn]
  · rw [ht.bytesAllocated hf, ht.sum_bytes hf]
  · apply UInt64.toNat_inj.mp
    rw [ht.numAllocations hn, he]
    rfl
  · apply UInt64.toNat_inj.mp
    rw [ht.bytesAllocated hf, he]
    rfl

/-- Two overlapping calls for two types, an array, a shared pointer and a container block, partly freed. -/
def mixedCalls : List Action :=
  let T : ElementType := ⟨24,8⟩
  let U : ElementType := ⟨4,4⟩
  [.create 100 T, .makeUniqueN 104 U 3,
    .answer ⟨104,Allocator.makeUniqueNRequest U 3,.uniquePtr U ⟨1,3⟩⟩ 1000 false,
    .answer ⟨100,Allocator.createRequest T,.pointer T⟩ 2000 false,
    .allocate 100 T 5, .answer ⟨100,StlAllocator.buildRequest T 5,.container T 5⟩ 3000 false,
    .makeShared 100 U, .answer ⟨100,Allocator.makeSharedRequest U,.sharedPtr U ⟨1,1⟩⟩ 4000 false,
    .release ⟨1000,.uniquePtr U ⟨1,3⟩,Allocator.makeUniqueNRequest U 3⟩,
    .release ⟨4000,.sharedPtr U ⟨1,1⟩,Allocator.makeSharedRequest U⟩,
    .release ⟨3000,.container T 5,StlAllocator.buildRequest T 5⟩]

theorem accounting_exact_mixedCalls : ∃ s, (trackedMachine 1).Reachable (fun s _ => s.Fits) s ∧
    s.stats.numAllocations = 1 ∧ s.stats.bytesAllocated = 24 ∧ (givenBack s.trace).length = 3 ∧ Matched s.trace ∧
      s.abnormal = false := by
  have h : ((trackedMachine 1).run (fun s _ => s.Fits) ⟨⟨fun _ => {}⟩,false,[],[],[],[],[]⟩ mixedCalls).any
      (fun s => s.stats.numAllocations = 1 ∧ s.stats.bytesAllocated = 24 ∧ s.frees.length = 3 ∧ s.Fits) = true := by
    decide +kernel
  obtain ⟨s,hs,hp⟩ := Machine.exists_reachable_of_run rfl h
  obtain ⟨hc,hb,hl,hf⟩ := of_decide_eq_true hp
  obtain ⟨⟨hpass,hm,-⟩,hn,-⟩ := accounting_exact 1 hs hf
  rw [hpass, List.length_map] at hl
  exact ⟨s,hs,hc,hb,hl,hm,hn⟩

end UServer.Memory
