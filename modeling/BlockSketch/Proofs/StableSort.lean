/-
Sorting that keeps the order of equals. What is sorted comes out in the order of the keys and, where
these do not tell, in the order from before. A list in a strict order is determined by its members,
so a strict order that both parts of this make up fixes the outcome.
-/
namespace BlockSketch

variable {α : Type}

theorem filter_mergeSort_tied {le : α → α → Bool}
    (trans : ∀ a b c, le a b = true → le b c = true → le a c = true)
    (total : ∀ a b, (le a b || le b a) = true) (l : List α) (a : α) :
    (l.mergeSort le).filter (fun x => le a x && le x a) = l.filter fun x => le a x && le x a := by
  have ties : (l.filter fun x => le a x && le x a).Pairwise fun x y => le x y = true := by
    rw [List.pairwise_filter]
    refine List.pairwise_of_forall fun x y tiedX tiedY => ?_
    rw [Bool.and_eq_true] at tiedX tiedY
    exact trans x a y tiedX.2 tiedY.1
  have kept :=
    (List.sublist_mergeSort trans total ties List.filter_sublist).filter fun x => le a x && le x a
  rw [List.filter_filter] at kept
  simp only [Bool.and_self] at kept
  exact (kept.eq_of_length ((List.mergeSort_perm l le).filter _).length_eq.symm).symm

/-- Two elements come out in the order of their keys, and in the order from before if these are
equal. -/
theorem pairwise_mergeSort_tied {le : α → α → Bool}
    (trans : ∀ a b c, le a b = true → le b c = true → le a c = true)
    (total : ∀ a b, (le a b || le b a) = true) {earlier : α → α → Prop} {l : List α}
    (ordered : l.Pairwise earlier) :
    (l.mergeSort le).Pairwise fun a b => le a b = true ∧ (le b a = true → earlier a b) := by
  have sorted := List.pairwise_mergeSort trans total l
  rw [List.pairwise_iff_forall_sublist] at sorted ordered ⊢
  intro a b inside
  refine ⟨sorted inside, fun back => ?_⟩
  -- Both are among the ties of the first, and these come out as they went in.
  have reflexive : le a a = true := by simpa using total a a
  have both : [a, b].filter (fun x => le a x && le x a) = [a, b] := by
    simp [reflexive, sorted inside, back]
  have tied := inside.filter fun x => le a x && le x a
  rw [both, filter_mergeSort_tied trans total] at tied
  exact ordered (tied.trans List.filter_sublist)

theorem eq_of_strictly_ordered {before : α → α → Prop} (asymm : ∀ a b, before a b → ¬ before b a)
    {xs ys : List α} (first : xs.Pairwise before) (second : ys.Pairwise before)
    (same : ∀ a, a ∈ xs ↔ a ∈ ys) : xs = ys := by
  have distinct : ∀ {zs : List α}, zs.Pairwise before → zs.Nodup := by
    intro zs ordered
    refine ordered.imp ?_
    rintro a _ here rfl
    exact asymm a a here here
  have perm : xs.Perm ys := (List.perm_ext_iff_of_nodup (distinct first) (distinct second)).mpr same
  exact perm.eq_of_pairwise (fun a b _ _ here back => absurd back (asymm a b here)) first second

end BlockSketch
