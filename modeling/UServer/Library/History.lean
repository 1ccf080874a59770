import UServer.Library.Runs

/-! History variables: a machine with a record beside its state that steps write and never read. -/
namespace UServer.Library.Machine
variable {σ α γ : Type*} (M : Machine σ α) (start : γ) (note : σ → α → σ → γ → γ)

/-- The machine with a record that each step brings up to date. -/
def recorded : Machine (σ × γ) α where
  init p := M.init p.1 ∧ p.2 = start
  step p a := (M.step p.1 a).map fun t => (t,note p.1 a t p.2)

variable {M start note} {ok : σ → α → Prop}

theorem recorded_step {p q : σ × γ} {a : α} (h : (M.recorded start note).step p a = some q) :
    M.step p.1 a = some q.1 ∧ q.2 = note p.1 a q.1 p.2 := by
  obtain ⟨t,ht,rfl⟩ := Option.map_eq_some_iff.mp h
  exact ⟨ht,rfl⟩

/-- Every run has a record. -/
theorem Reachable.record {s : σ} (h : M.Reachable ok s) :
    ∃ g, (M.recorded start note).Reachable (fun p a => ok p.1 a) (s,g) := by
  apply h.rule (I := fun s => ∃ g, (M.recorded start note).Reachable (fun p a => ok p.1 a) (s,g))
  · intro s hs
    exact ⟨start,(s,start),⟨hs,rfl⟩,.refl⟩
  · intro s a t ⟨g,p,hp,hr⟩ ha he
    exact ⟨note s a t g,p,hp,hr.tail ⟨a,ha,by simp [recorded, he]⟩⟩

/-- An invariant of the state and the record, where the state is known to be reachable. -/
theorem Reachable.rule_recorded {p : σ × γ} (h : (M.recorded start note).Reachable (fun p a => ok p.1 a) p)
    {I : σ → γ → Prop} (h₀ : ∀ s, M.init s → I s start)
    (hstep : ∀ s g a t, M.Reachable ok t → I s g → M.step s a = some t → I t (note s a t g)) : I p.1 p.2 := by
  have hi : M.Reachable ok p.1 ∧ I p.1 p.2 := by
    apply h.rule (I := fun p => M.Reachable ok p.1 ∧ I p.1 p.2)
    · rintro p ⟨hp,hg⟩
      exact ⟨⟨p.1,hp,.refl⟩,hg ▸ h₀ p.1 hp⟩
    · intro p a q ⟨⟨s,hs,hr⟩,hi⟩ ha he
      obtain ⟨he,hg⟩ := recorded_step he
      have hq : M.Reachable ok q.1 := ⟨s,hs,hr.tail ⟨a,ha,he⟩⟩
      exact ⟨hq,hg ▸ hstep p.1 p.2 a q.1 hq hi he⟩
  exact hi.2

/-- Where each step adds good items exactly if it meets a condition, the runs whose steps all meet it are those with
good items only. -/
theorem reachable_iff_forall_items {β : Type*} (items : γ → List β) (good : β → Prop) {p : σ × γ} (h₀ : items start = [])
    (hstep : ∀ u a v, (M.recorded start note).Reachable Free u → (M.recorded start note).step u a = some v →
      ∃ new, items v.2 = items u.2 ++ new ∧ ((∀ x ∈ new, good x) ↔ ok u.1 a)) :
    (M.recorded start note).Reachable (fun p a => ok p.1 a) p ↔
      (M.recorded start note).Reachable Free p ∧ ∀ x ∈ items p.2, good x := by
  constructor
  · rintro ⟨s,hs,hr⟩
    apply hr.rule (R := fun q => (M.recorded start note).Reachable Free q ∧ ∀ x ∈ items q.2, good x)
    · refine ⟨⟨s,hs,.refl⟩,?_⟩
      rw [hs.2, h₀]
      exact fun _ hx => absurd hx List.not_mem_nil
    · rintro u a v - ⟨hu,hg⟩ ha he
      obtain ⟨new,hn,hiff⟩ := hstep u a v hu he
      refine ⟨hu.tail trivial he,?_⟩
      rw [hn]
      exact List.forall_mem_append.mpr ⟨hg,hiff.mpr ha⟩
  · rintro ⟨⟨s,hs,hr⟩,hg⟩
    refine hr.rule (R := fun q => (∀ x ∈ items q.2, good x) →
      (M.recorded start note).Reachable (fun p a => ok p.1 a) q) (fun _ => ⟨s,hs,.refl⟩) ?_ hg
    intro u a v hu ih _ he hv
    obtain ⟨new,hn,hiff⟩ := hstep u a v ⟨s,hs,hu⟩ he
    rw [hn, List.forall_mem_append] at hv
    exact (ih hv.1).tail (hiff.mp hv.2) he

end UServer.Library.Machine
