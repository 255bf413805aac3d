import BlockSketch.Json.Basic

/-
The number of values in a JSON value. What is looked up in an object is smaller than the object, and
members of different names are smaller together.
-/
namespace BlockSketch.Json

mutual

def size : Json → Nat
  | array items => 1 + sizeItems items
  | object members => 1 + sizeMembers members
  | _ => 1

def sizeItems : List Json → Nat
  | [] => 0
  | v :: rest => v.size + sizeItems rest

def sizeMembers : List (String × Json) → Nat
  | [] => 0
  | (_, v) :: rest => v.size + sizeMembers rest

end

theorem size_pos (v : Json) : 0 < v.size := by
  cases v <;> simp only [size] <;> omega

theorem size_find?_le {name : String} {members : List (String × Json)} {v : Json}
    (h : find? name members = some v) : v.size ≤ sizeMembers members := by
  induction members with
  | nil => simp [find?] at h
  | cons m rest ih =>
    obtain ⟨k, w⟩ := m
    simp only [find?] at h
    simp only [sizeMembers]
    split at h
    · cases h; omega
    · have := ih h; omega

theorem size_find?_add_le {a b : String} (different : a ≠ b) {members : List (String × Json)}
    {v w : Json} (hv : find? a members = some v) (hw : find? b members = some w) :
    v.size + w.size ≤ sizeMembers members := by
  induction members with
  | nil => simp [find?] at hv
  | cons m rest ih =>
    obtain ⟨k, x⟩ := m
    simp only [find?] at hv hw
    simp only [sizeMembers]
    by_cases ka : k = a
    · have kb : k ≠ b := fun h => different (ka.symm.trans h)
      simp only [ka, ↓reduceIte, Option.some.injEq] at hv
      rw [if_neg kb] at hw
      have := size_find?_le hw
      subst hv; omega
    · rw [if_neg ka] at hv
      by_cases kb : k = b
      · simp only [kb, ↓reduceIte, Option.some.injEq] at hw
        have := size_find?_le hv
        subst hw; omega
      · rw [if_neg kb] at hw
        have := ih hv hw; omega

theorem size_member?_lt {name : String} {v w : Json} (h : v.member? name = some w) :
    w.size < v.size := by
  cases v <;> simp only [member?, reduceCtorEq] at h
  have := size_find?_le h
  simp only [size]; omega

end BlockSketch.Json
