/-
Finite maps from names, held as their entries in strictly increasing order of the names. Order is
part of the type, so two maps with the same look-ups are equal.
-/
namespace BlockSketch

def Increasing {α : Type} (entries : List (String × α)) : Prop :=
  entries.Pairwise fun a b => a.1 < b.1

structure SortedMap (α : Type) where
  entries : List (String × α)
  increasing : Increasing entries

namespace SortedMap
variable {α : Type}

def lookup (key : String) : List (String × α) → Option α
  | [] => none
  | (k, v) :: rest => if k = key then some v else lookup key rest

def insertEntry (key : String) (value : α) : List (String × α) → List (String × α)
  | [] => [(key, value)]
  | (k, v) :: rest =>
    if key < k then (key, value) :: (k, v) :: rest
    else if k = key then (key, value) :: rest
    else (k, v) :: insertEntry key value rest

def eraseEntry (key : String) (entries : List (String × α)) : List (String × α) :=
  entries.filter fun e => e.1 ≠ key

theorem mem_insertEntry {key : String} {value : α} {entries : List (String × α)} {e : String × α}
    (h : e ∈ insertEntry key value entries) : e = (key, value) ∨ e ∈ entries := by
  induction entries with
  | nil => simpa [insertEntry] using h
  | cons head rest ih =>
    obtain ⟨k, v⟩ := head
    simp only [insertEntry] at h
    split at h
    · simpa using h
    · split at h
      · simp only [List.mem_cons] at h ⊢
        rcases h with h | h
        · exact Or.inl h
        · exact Or.inr (Or.inr h)
      · simp only [List.mem_cons] at h ⊢
        rcases h with h | h
        · exact Or.inr (Or.inl h)
        · rcases ih h with h | h
          · exact Or.inl h
          · exact Or.inr (Or.inr h)

theorem lt_of_not_lt_of_ne {a b : String} (notLt : ¬ a < b) (ne : b ≠ a) : b < a := by
  rcases Decidable.em (b < a) with h | h
  · exact h
  · exact absurd (String.le_antisymm (String.not_lt.mp notLt) (String.not_lt.mp h)) ne

theorem increasing_insertEntry (key : String) (value : α) (entries : List (String × α))
    (h : Increasing entries) : Increasing (insertEntry key value entries) := by
  induction entries with
  | nil => simp [insertEntry, Increasing]
  | cons head rest ih =>
    obtain ⟨k, v⟩ := head
    have parts := List.pairwise_cons.mp h
    simp only [insertEntry]
    split
    · rename_i before
      refine List.pairwise_cons.mpr ⟨?_, h⟩
      intro e he
      rcases List.mem_cons.mp he with rfl | he
      · exact before
      · exact String.lt_trans before (parts.1 e he)
    · split
      · rename_i _ same
        exact List.pairwise_cons.mpr ⟨fun e he => same ▸ parts.1 e he, parts.2⟩
      · rename_i notBefore other
        refine List.pairwise_cons.mpr ⟨?_, ih parts.2⟩
        intro e he
        rcases mem_insertEntry he with rfl | he
        · exact lt_of_not_lt_of_ne notBefore other
        · exact parts.1 e he

theorem increasing_eraseEntry (key : String) (entries : List (String × α))
    (h : Increasing entries) : Increasing (eraseEntry key entries) :=
  List.Pairwise.filter _ h

def empty : SortedMap α := ⟨[], List.Pairwise.nil⟩

instance : EmptyCollection (SortedMap α) := ⟨empty⟩

instance : Inhabited (SortedMap α) := ⟨empty⟩

def get? (m : SortedMap α) (key : String) : Option α := lookup key m.entries

def contains (m : SortedMap α) (key : String) : Bool := (m.get? key).isSome

def insert (m : SortedMap α) (key : String) (value : α) : SortedMap α :=
  ⟨insertEntry key value m.entries, increasing_insertEntry key value m.entries m.increasing⟩

def erase (m : SortedMap α) (key : String) : SortedMap α :=
  ⟨eraseEntry key m.entries, increasing_eraseEntry key m.entries m.increasing⟩

def keys (m : SortedMap α) : List String := m.entries.map Prod.fst

def size (m : SortedMap α) : Nat := m.entries.length

def isEmpty (m : SortedMap α) : Bool := m.entries.isEmpty

/-- Later entries replace earlier ones of the same name. -/
def ofList (entries : List (String × α)) : SortedMap α :=
  entries.foldl (fun m e => m.insert e.1 e.2) empty

theorem lookup_insertEntry (key other : String) (value : α) (entries : List (String × α)) :
    lookup other (insertEntry key value entries) =
      if key = other then some value else lookup other entries := by
  induction entries with
  | nil => simp [insertEntry, lookup]
  | cons head rest ih =>
    obtain ⟨k, v⟩ := head
    simp only [insertEntry]
    split
    · simp only [lookup]
    · split
      · rename_i same
        subst same
        simp only [lookup]
        split <;> rfl
      · rename_i different
        simp only [lookup, ih]
        by_cases hk : k = other
        · simp [hk, show ¬ key = other from fun h => different (hk.trans h.symm)]
        · simp [hk]

@[simp] theorem get?_insert (m : SortedMap α) (key other : String) (value : α) :
    (m.insert key value).get? other = if key = other then some value else m.get? other :=
  lookup_insertEntry key other value m.entries

theorem lookup_eraseEntry (key other : String) (entries : List (String × α)) :
    lookup other (eraseEntry key entries) = if key = other then none else lookup other entries := by
  induction entries with
  | nil => simp [eraseEntry, lookup]
  | cons head rest ih =>
    obtain ⟨k, v⟩ := head
    by_cases hk : k = key
    · subst hk
      simp only [eraseEntry] at ih ⊢
      rw [List.filter_cons_of_neg (by simp), ih]
      simp only [lookup]
      split <;> rfl
    · simp only [eraseEntry] at ih ⊢
      rw [List.filter_cons_of_pos (by simp [hk])]
      simp only [lookup, ih]
      by_cases ho : k = other
      · simp [ho, show ¬ key = other from fun h => hk (ho.trans h.symm)]
      · simp [ho]

@[simp] theorem get?_erase (m : SortedMap α) (key other : String) :
    (m.erase key).get? other = if key = other then none else m.get? other :=
  lookup_eraseEntry key other m.entries

theorem get?_foldl_of_not_mem {key : String} {entries : List (String × α)} (m : SortedMap α)
    (absent : key ∉ entries.map Prod.fst) :
    (entries.foldl (fun m e => m.insert e.1 e.2) m).get? key = m.get? key := by
  induction entries generalizing m with
  | nil => rfl
  | cons e rest ih =>
    simp only [List.map_cons, List.mem_cons, not_or] at absent
    rw [List.foldl_cons, ih _ absent.2, get?_insert, if_neg (Ne.symm absent.1)]

theorem get?_ofList {key : String} {value : α} {entries : List (String × α)}
    (nodup : (entries.map Prod.fst).Nodup) (member : (key, value) ∈ entries) :
    (ofList entries).get? key = some value := by
  unfold ofList
  generalize (empty : SortedMap α) = m
  induction entries generalizing m with
  | nil => cases member
  | cons e rest ih =>
    rw [List.map_cons, List.nodup_cons] at nodup
    rw [List.foldl_cons]
    rcases List.mem_cons.mp member with rfl | later
    · rw [get?_foldl_of_not_mem _ nodup.1, get?_insert, if_pos rfl]
    · exact ih nodup.2 later _

theorem mem_of_get?_ofList {key : String} {value : α} {entries : List (String × α)}
    (found : (ofList entries).get? key = some value) : (key, value) ∈ entries := by
  have kept : ∀ (rest : List (String × α)) (m : SortedMap α),
      (rest.foldl (fun m e => m.insert e.1 e.2) m).get? key = some value →
        m.get? key = some value ∨ (key, value) ∈ rest := by
    intro rest
    induction rest with
    | nil => exact fun m here => Or.inl here
    | cons e rest ih =>
      intro m here
      rcases ih _ here with before | later
      · rw [get?_insert] at before
        split at before
        · rename_i same
          cases before
          exact Or.inr (same ▸ List.mem_cons_self)
        · exact Or.inl before
      · exact Or.inr (List.mem_cons_of_mem _ later)
  rcases kept entries empty found with nothing | member
  · cases nothing
  · exact member

theorem mem_of_get? {m : SortedMap α} {key : String} {value : α} (found : m.get? key = some value) :
    (key, value) ∈ m.entries := by
  unfold get? at found
  generalize m.entries = entries at found ⊢
  induction entries with
  | nil => cases found
  | cons e rest ih =>
    rw [lookup] at found
    split at found
    · rename_i same
      cases found
      exact same ▸ List.mem_cons_self
    · exact List.mem_cons_of_mem _ (ih found)

theorem lookup_eq_none {key : String} {entries : List (String × α)}
    (h : ∀ e ∈ entries, key < e.1) : lookup key entries = none := by
  induction entries with
  | nil => rfl
  | cons head rest ih =>
    have first := h head (by simp)
    have ne : head.1 ≠ key := fun e => String.lt_irrefl key (e ▸ first)
    simp only [lookup, ne, ↓reduceIte]
    exact ih fun e he => h e (by simp [he])

theorem entries_ext {xs ys : List (String × α)} (hx : Increasing xs) (hy : Increasing ys)
    (h : ∀ key, lookup key xs = lookup key ys) : xs = ys := by
  induction xs generalizing ys with
  | nil =>
    cases ys with
    | nil => rfl
    | cons y ys => simpa [lookup] using h y.1
  | cons x xs ih =>
    have px := List.pairwise_cons.mp hx
    cases ys with
    | nil => simpa [lookup] using h x.1
    | cons y ys =>
      have py := List.pairwise_cons.mp hy
      have sameKey : x.1 = y.1 := by
        by_cases xy : x.1 < y.1
        · have absent : lookup x.1 (y :: ys) = none := lookup_eq_none fun e he => by
            rcases List.mem_cons.mp he with rfl | he
            · exact xy
            · exact String.lt_trans xy (py.1 e he)
          have given := h x.1
          rw [absent] at given
          simp [lookup] at given
        · by_cases eq : x.1 = y.1
          · exact eq
          · have yx := lt_of_not_lt_of_ne xy (Ne.symm eq)
            have absent : lookup y.1 (x :: xs) = none := lookup_eq_none fun e he => by
              rcases List.mem_cons.mp he with rfl | he
              · exact yx
              · exact String.lt_trans yx (px.1 e he)
            have given := h y.1
            rw [absent] at given
            simp [lookup] at given
      have sameValue : x.2 = y.2 := by
        have := h x.1
        simpa [lookup, sameKey] using this
      have head : x = y := Prod.ext sameKey sameValue
      subst head
      congr 1
      refine ih px.2 py.2 fun key => ?_
      by_cases hk : x.1 = key
      · subst hk
        rw [lookup_eq_none px.1, lookup_eq_none py.1]
      · simpa [lookup, hk] using h key

/-- A map is determined by its look-ups. -/
theorem ext_get? {m n : SortedMap α} (h : ∀ key, m.get? key = n.get? key) : m = n := by
  cases m with
  | mk xs hx =>
    cases n with
    | mk ys hy =>
      have := entries_ext hx hy h
      subst this
      rfl

end SortedMap
end BlockSketch
