/-! What a stable sort depends on.

Sorting keeps the order of elements that tie, so the sorted list is determined by the tied
elements in the order in which they come (`mergeSort_eq_of_ties`): lists that agree on every
class of ties are sorted to the same list, even if nothing in an element tells it from those
it ties with. What holds of tied elements one before the other still holds in the sorted list
(`pairwise_mergeSort_of_ties`). Lists that are put together from blocks agree in this way when
the blocks are in another order, as long as ties only occur within a block
(`flatMap_eq_of_perm`). -/
namespace SourceAudit.StableSort

variable {α : Type} {le : α → α → Bool}

/-- Neither element has to come before the other. -/
def tied (le : α → α → Bool) (a b : α) : Bool := le a b && le b a

theorem tied_iff {a b : α} : tied le a b = true ↔ le a b = true ∧ le b a = true := by
  simp [tied]

theorem tied_self (total : ∀ a b, le a b || le b a) (a : α) : tied le a a = true := by
  have h := total a a
  rw [Bool.or_self] at h
  exact tied_iff.mpr ⟨h, h⟩

/-- Ordered lists that agree on every class of ties are equal. -/
theorem eq_of_ties (total : ∀ a b, le a b || le b a) {l₁ l₂ : List α}
    (h₁ : l₁.Pairwise (fun x y => le x y = true))
    (h₂ : l₂.Pairwise (fun x y => le x y = true))
    (h : ∀ a, l₁.filter (tied le a) = l₂.filter (tied le a)) : l₁ = l₂ := by
  have self := tied_self total
  induction l₁ generalizing l₂ with
  | nil =>
    cases l₂ with
    | nil => rfl
    | cons b l₂ =>
      have hb := h b
      rw [List.filter_cons_of_pos (self b)] at hb
      cases hb
  | cons a l₁ ih =>
    cases l₂ with
    | nil =>
      have ha := h a
      rw [List.filter_cons_of_pos (self a)] at ha
      cases ha
    | cons b l₂ =>
      -- each head is found in the other list, so neither comes before the other
      have hba : b ∈ a :: l₁ := by
        have : b ∈ (b :: l₂).filter (tied le b) := List.mem_filter.mpr ⟨List.mem_cons_self, self b⟩
        rw [← h b] at this
        exact (List.mem_filter.mp this).1
      have hab : a ∈ b :: l₂ := by
        have : a ∈ (a :: l₁).filter (tied le a) := List.mem_filter.mpr ⟨List.mem_cons_self, self a⟩
        rw [h a] at this
        exact (List.mem_filter.mp this).1
      have tie : tied le a b = true := by
        rcases List.mem_cons.mp hba with rfl | hb
        · exact self b
        · rcases List.mem_cons.mp hab with rfl | ha
          · exact self a
          · exact tied_iff.mpr ⟨List.rel_of_pairwise_cons h₁ hb, List.rel_of_pairwise_cons h₂ ha⟩
      have heads := h a
      rw [List.filter_cons_of_pos (self a), List.filter_cons_of_pos tie] at heads
      obtain ⟨rfl, -⟩ := List.cons.inj heads
      refine congrArg (a :: ·) (ih h₁.of_cons h₂.of_cons fun c => ?_)
      have hc := h c
      by_cases hca : tied le c a = true
      · rw [List.filter_cons_of_pos hca, List.filter_cons_of_pos hca] at hc
        exact (List.cons.inj hc).2
      · rwa [List.filter_cons_of_neg hca, List.filter_cons_of_neg hca] at hc

section Stability
variable (trans : ∀ a b c, le a b → le b c → le a c) (total : ∀ a b, le a b || le b a)
include trans total

/-- Sorting does not move tied elements past each other. -/
theorem filter_mergeSort (a : α) (l : List α) :
    (l.mergeSort le).filter (tied le a) = l.filter (tied le a) := by
  have ordered : (l.filter (tied le a)).Pairwise (fun x y => le x y = true) := by
    refine List.pairwise_of_forall_mem_list ?_
    intro x hx y hy
    have hxa := (tied_iff.mp (List.mem_filter.mp hx).2).2
    have hay := (tied_iff.mp (List.mem_filter.mp hy).2).1
    exact trans x a y hxa hay
  have kept : (l.filter (tied le a)).Sublist (l.mergeSort le) :=
    List.sublist_mergeSort trans total ordered List.filter_sublist
  have sub := kept.filter (tied le a)
  rw [List.filter_filter] at sub
  simp only [Bool.and_self] at sub
  exact (sub.eq_of_length ((List.mergeSort_perm l le).filter _).length_eq.symm).symm

/-- **The sorted list depends only on the order within the classes of ties.** -/
theorem mergeSort_eq_of_ties {l₁ l₂ : List α}
    (h : ∀ a, l₁.filter (tied le a) = l₂.filter (tied le a)) :
    l₁.mergeSort le = l₂.mergeSort le := by
  refine eq_of_ties total (List.pairwise_mergeSort trans total l₁)
    (List.pairwise_mergeSort trans total l₂) fun a => ?_
  rw [filter_mergeSort trans total, filter_mergeSort trans total, h a]

/-- What holds of tied elements, one before the other, still holds when the list is sorted. -/
theorem pairwise_mergeSort_of_ties {R : α → α → Prop} {l : List α}
    (h : l.Pairwise fun a b => tied le a b = true → R a b) :
    (l.mergeSort le).Pairwise fun a b => tied le a b = true → R a b := by
  rw [List.pairwise_iff_forall_sublist]
  intro a b sub tie
  -- both elements are in one class of ties, which sorting leaves as it is
  have ties := sub.filter (tied le a)
  rw [List.filter_cons_of_pos (tied_self total a), List.filter_cons_of_pos tie, List.filter_nil,
    filter_mergeSort trans total] at ties
  exact List.pairwise_iff_forall_sublist.mp h (ties.trans List.filter_sublist) tie

end Stability

/-- Blocks may be put in any order if only one of them, known by its name, is not empty. -/
theorem flatMap_eq_of_perm {ι ν : Type} {blocks₁ blocks₂ : List ι} (perm : blocks₁.Perm blocks₂)
    {name : ι → ν} (distinct : (blocks₁.map name).Nodup) {g : ι → List α} {n : ν}
    (only : ∀ i ∈ blocks₁, name i ≠ n → g i = []) : blocks₁.flatMap g = blocks₂.flatMap g := by
  induction perm with
  | nil => rfl
  | cons i _ ih =>
    rw [List.flatMap_cons, List.flatMap_cons, ih (List.nodup_cons.mp distinct).2
      fun j hj => only j (List.mem_cons_of_mem i hj)]
  | swap i j l =>
    have hne : name j ≠ name i := by
      intro he
      apply (List.nodup_cons.mp distinct).1
      rw [he]
      exact List.mem_cons_self
    simp only [List.flatMap_cons]
    by_cases hi : name i = n
    · rw [only j List.mem_cons_self (by rw [← hi]; exact hne), List.nil_append, List.nil_append]
    · rw [only i (List.mem_cons_of_mem j List.mem_cons_self) hi, List.nil_append, List.nil_append]
  | trans p _ ih₁ ih₂ =>
    rw [ih₁ distinct only, ih₂ ((p.map name).nodup_iff.mp distinct)
      fun i hi => only i (p.mem_iff.mpr hi)]

end SourceAudit.StableSort
