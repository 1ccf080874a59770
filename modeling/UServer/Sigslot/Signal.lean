import UServer.Library.Cursor

/-! The connections of a signal and the iterator of its emission, which every change of the list keeps valid. -/
namespace UServer.Sigslot
open Library

/-- A list node with the object and the method to call. Nodes are numbered in the order in which the list gets them. -/
structure Connection where
  node : ℕ
  dest : ℕ
  method : ℕ
  deriving DecidableEq

/-- m_connected_slots and m_current_iterator, which is none at end(), and the number of the next node. -/
structure Signal where
  slots : List Connection
  current : Option ℕ
  next : ℕ
  sorted : slots.Pairwise fun a b => a.node < b.node
  bounded : ∀ c ∈ slots, c.node < next
  valid : Cursor.Valid Connection.node slots current

namespace Signal

theorem nodup (s : Signal) : (s.slots.map Connection.node).Nodup :=
  (List.pairwise_map.mpr s.sorted).imp Nat.ne_of_lt

/-- What an emission has still to call. -/
def pending (s : Signal) : List Connection := Cursor.pending Connection.node s.slots s.current

theorem points (s : Signal) : Cursor.Points Connection.node s.slots s.current s.pending := s.valid.points s.nodup

theorem pending_eq_nil_iff (s : Signal) : s.pending = [] ↔ s.current = none := s.points.eq_nil_iff

theorem pending_suffix (s : Signal) : s.pending <:+ s.slots := s.points.1

theorem sorted_append {xs : List Connection} {n : ℕ} (hs : xs.Pairwise fun a b => a.node < b.node)
    (hb : ∀ c ∈ xs, c.node < n) (dest method : ℕ) :
    (xs ++ [(⟨n,dest,method⟩ : Connection)]).Pairwise fun a b => a.node < b.node := by
  refine List.pairwise_append.mpr ⟨hs,List.pairwise_singleton _ _,?_⟩
  intro c hc d hd
  rw [List.mem_singleton] at hd
  exact hd ▸ hb c hc

def fresh : Signal where
  slots := []
  current := none
  next := 0
  sorted := .nil
  bounded _ h := absurd h List.not_mem_nil
  valid := ⟨[],Cursor.points_end _⟩

/-- push_back. -/
def pushBack (s : Signal) (dest method : ℕ) : Signal where
  slots := s.slots ++ [⟨s.next,dest,method⟩]
  current := s.current
  next := s.next + 1
  sorted := sorted_append s.sorted s.bounded dest method
  bounded := by
    intro c hc
    rcases List.mem_append.mp hc with hc | hc
    · exact (s.bounded c hc).trans (Nat.lt_succ_self _)
    · rw [List.mem_singleton.mp hc]
      exact Nat.lt_succ_self _
  valid := ⟨_,s.points.append _⟩

/-- erase of a node in disconnect and do_slot_disconnect: m_current_iterator, if it stands there, gets its result. -/
def erase (s : Signal) (node : ℕ) : Signal where
  slots := Cursor.erase Connection.node s.slots node
  current := Cursor.skip Connection.node s.slots node s.current
  next := s.next
  sorted := s.sorted.sublist (Cursor.erase_sublist _ _)
  bounded c hc := s.bounded c ((Cursor.erase_sublist _ _).subset hc)
  valid := ⟨_,s.points.erase s.nodup node⟩

/-- The list and the iterator that disconnect_all leaves. -/
def clear (s : Signal) : Signal where
  slots := []
  current := none
  next := s.next
  sorted := .nil
  bounded _ h := absurd h List.not_mem_nil
  valid := ⟨[],Cursor.points_end _⟩

/-- The search and the erase in disconnect, which stops at the first connection to the object. -/
def disconnect (s : Signal) (pclass : ℕ) : Option Signal :=
  (s.slots.find? fun c => decide (c.dest = pclass)).map fun c => s.erase c.node

/-- do_slot_disconnect, which takes the next node before it erases one. -/
def slotDisconnect (s : Signal) (pslot : ℕ) : Signal :=
  s.slots.foldl (fun s c => if c.dest = pslot then s.erase c.node else s) s

/-- do_slot_duplicate. Its loop also comes to the new connections; they are to newtarget, which is another object. -/
def slotDuplicate (s : Signal) (oldtarget newtarget : ℕ) : Signal :=
  s.slots.foldl (fun s c => if c.dest = oldtarget then s.pushBack newtarget c.method else s) s

/-- The connections that the copy constructor makes. -/
def copy (s : Signal) : Signal := s.slots.foldl (fun t c => t.pushBack c.dest c.method) fresh

/-- m_current_iterator = begin(). -/
def begin (s : Signal) : Signal where
  slots := s.slots
  current := Cursor.first Connection.node s.slots
  next := s.next
  sorted := s.sorted
  bounded := s.bounded
  valid := ⟨_,Cursor.points_first _⟩

/-- ++m_current_iterator. -/
def moveOn (s : Signal) (c : Connection) : Signal where
  slots := s.slots
  current := Cursor.after Connection.node s.slots c.node
  next := s.next
  sorted := s.sorted
  bounded := s.bounded
  valid := ⟨_,Cursor.points_after _ _⟩

/-- A round of the loop in emit up to the call: the connection to call, which the iterator has left by then. -/
def advance (s : Signal) : Option (Connection × Signal) := s.pending.head?.map fun c => (c,s.moveOn c)

/-- The objects connected to, one for each connection. -/
def dests (s : Signal) : List ℕ := s.slots.map Connection.dest

theorem pending_of_points {s : Signal} {ys : List Connection}
    (h : Cursor.Points Connection.node s.slots s.current ys) : s.pending = ys := h.pending_eq s.nodup

theorem pending_begin (s : Signal) : s.begin.pending = s.slots :=
  pending_of_points (Cursor.points_first s.slots)

theorem pending_pushBack (s : Signal) (dest method : ℕ) :
    (s.pushBack dest method).pending = if s.current = none then [] else s.pending ++ [⟨s.next,dest,method⟩] :=
  pending_of_points (s.points.append _)

theorem pending_erase (s : Signal) (node : ℕ) :
    (s.erase node).pending = Cursor.erase Connection.node s.pending node :=
  pending_of_points (s.points.erase s.nodup node)

theorem advance_eq_none_iff (s : Signal) : s.advance = none ↔ s.current = none := by
  rw [advance, Option.map_eq_none_iff, List.head?_eq_none_iff, pending_eq_nil_iff]

/-- What a round calls and what it leaves to call. -/
theorem advance_some {s t : Signal} {c : Connection} (h : s.advance = some (c,t)) :
    s.pending = c :: t.pending ∧ t = s.moveOn c := by
  obtain ⟨d,hd,he⟩ := Option.map_eq_some_iff.mp h
  obtain ⟨rfl,rfl⟩ := Prod.mk.inj he
  obtain ⟨rest,hr⟩ := List.head?_eq_some_iff.mp hd
  have hp := s.points
  rw [hr] at hp
  rw [pending_of_points (s := s.moveOn d) (hp.advance s.nodup)]
  exact ⟨hr,rfl⟩

theorem slots_erase (s : Signal) (node : ℕ) : (s.erase node).slots = Cursor.erase Connection.node s.slots node := rfl

@[simp] theorem dests_fresh : fresh.dests = [] := rfl

@[simp] theorem dests_clear (s : Signal) : s.clear.dests = [] := rfl

@[simp] theorem dests_begin (s : Signal) : s.begin.dests = s.dests := rfl

@[simp] theorem dests_moveOn (s : Signal) (c : Connection) : (s.moveOn c).dests = s.dests := rfl

@[simp] theorem dests_pushBack (s : Signal) (dest method : ℕ) : (s.pushBack dest method).dests = s.dests ++ [dest] :=
  List.map_append

theorem disconnect_eq_none_iff (s : Signal) (pclass : ℕ) : s.disconnect pclass = none ↔ pclass ∉ s.dests := by
  simp [disconnect, dests]

/-- disconnect takes away one connection. -/
theorem dests_disconnect {s t : Signal} {pclass : ℕ} (h : s.disconnect pclass = some t) :
    t.dests = s.dests.erase pclass := by
  obtain ⟨c,hc,rfl⟩ := Option.map_eq_some_iff.mp h
  obtain ⟨hd,xs,ys,hs,hx⟩ := List.find?_eq_some_iff_append.mp hc
  have hn := s.nodup
  rw [hs] at hn
  have hxs : pclass ∉ xs.map Connection.dest := by
    intro hm
    obtain ⟨d,hd,he⟩ := List.mem_map.mp hm
    simpa [he] using hx d hd
  rw [dests, dests, slots_erase, hs, Cursor.erase_split hn, List.map_append, List.map_append,
    List.erase_append_right _ hxs, List.map_cons, of_decide_eq_true hd, List.erase_cons_head]

theorem mem_foldl_erase (xs : List Connection) (s : Signal) (pslot : ℕ) (c : Connection) :
    c ∈ (xs.foldl (fun s d => if d.dest = pslot then s.erase d.node else s) s).slots ↔
      c ∈ s.slots ∧ ∀ d ∈ xs, d.dest = pslot → c.node ≠ d.node := by
  induction xs generalizing s with
  | nil => simp
  | cons d xs ih =>
    rw [List.foldl_cons, ih, List.forall_mem_cons]
    by_cases hd : d.dest = pslot
    · simp [hd, slots_erase, Cursor.erase, and_assoc]
    · simp [hd]

/-- do_slot_disconnect takes away every connection to the object. -/
theorem mem_slotDisconnect (s : Signal) (pslot : ℕ) (c : Connection) :
    c ∈ (s.slotDisconnect pslot).slots ↔ c ∈ s.slots ∧ c.dest ≠ pslot := by
  rw [slotDisconnect, mem_foldl_erase]
  refine and_congr_right fun hc => ⟨fun h hd => h c hc hd rfl,?_⟩
  rintro hd d hs rfl he
  exact hd (congrArg Connection.dest (List.inj_on_of_nodup_map s.nodup hc hs he))

theorem mem_dests_slotDisconnect (s : Signal) (pslot h : ℕ) :
    h ∈ (s.slotDisconnect pslot).dests ↔ h ∈ s.dests ∧ h ≠ pslot := by
  simp only [dests, List.mem_map, mem_slotDisconnect]
  constructor
  · rintro ⟨c,⟨hc,hd⟩,rfl⟩
    exact ⟨⟨c,hc,rfl⟩,hd⟩
  · rintro ⟨⟨c,hc,rfl⟩,hd⟩
    exact ⟨c,⟨hc,hd⟩,rfl⟩

theorem dests_foldl_pushBack (xs : List Connection) (s : Signal) (oldtarget newtarget : ℕ) :
    (xs.foldl (fun s c => if c.dest = oldtarget then s.pushBack newtarget c.method else s) s).dests =
      s.dests ++ ((xs.map Connection.dest).filter (· = oldtarget)).map fun _ => newtarget := by
  induction xs generalizing s with
  | nil => simp
  | cons c xs ih =>
    rw [List.foldl_cons, ih]
    by_cases hc : c.dest = oldtarget
    · simp [hc]
    · simp [hc]

/-- do_slot_duplicate adds a connection to newtarget for each one to oldtarget. -/
theorem mem_dests_slotDuplicate (s : Signal) (oldtarget newtarget h : ℕ) :
    h ∈ (s.slotDuplicate oldtarget newtarget).dests ↔ h ∈ s.dests ∨ h = newtarget ∧ oldtarget ∈ s.dests := by
  rw [slotDuplicate, dests_foldl_pushBack, ← dests]
  simp only [List.mem_append, List.mem_map, List.mem_filter, decide_eq_true_eq]
  constructor
  · rintro (hm | ⟨_,⟨hm,rfl⟩,rfl⟩)
    · exact .inl hm
    · exact .inr ⟨rfl,hm⟩
  · rintro (hm | ⟨rfl,hm⟩)
    · exact .inl hm
    · exact .inr ⟨oldtarget,⟨hm,rfl⟩,rfl⟩

theorem dests_copy (s : Signal) : s.copy.dests = s.dests := by
  have hf (xs : List Connection) (t : Signal) :
      (xs.foldl (fun t c => t.pushBack c.dest c.method) t).dests = t.dests ++ xs.map Connection.dest := by
    induction xs generalizing t with
    | nil => simp
    | cons c xs ih => rw [List.foldl_cons, ih, dests_pushBack, List.append_assoc, List.map_cons, List.singleton_append]
  exact hf s.slots fresh

end Signal
end UServer.Sigslot
