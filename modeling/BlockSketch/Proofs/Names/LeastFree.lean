import BlockSketch.Proofs.Names

/-
The identifier that a requested name gets. Separators stay inside it and never stand in a row,
whatever the name was made of, and a number at its end keeps it that way. The number is the least
that makes the identifier free. Different numbers make different identifiers, so no more numbers
fail than there are occupied names, and as long as these leave one number of 32 bits free, a counter
of 32 bits finds it.
-/
namespace BlockSketch
namespace Identifier

/-! Separators -/

def Spaced (text : List Char) : Prop := ¬ ['_', '_'] <:+: text

theorem spaced_nil : Spaced [] := by
  intro inside
  have short := inside.length_le
  simp at short

theorem Spaced.cons {text : List Char} (spaced : Spaced text) {c : Char}
    (apart : c = '_' → text.head? ≠ some '_') : Spaced (c :: text) := by
  intro inside
  rcases List.infix_cons_iff.mp inside with front | later
  · obtain ⟨same, after⟩ := List.cons_prefix_cons.mp front
    obtain ⟨rest, rfl⟩ := after
    exact apart same.symm rfl
  · exact spaced later

theorem Spaced.append {text front : List Char} (spaced : Spaced text)
    (plain : ∀ c ∈ front, c ≠ '_') :
    Spaced (front ++ text) := by
  induction front with
  | nil => exact spaced
  | cons c front ih =>
    have later : Spaced (front ++ text) :=
      ih fun d member => plain d (List.mem_cons_of_mem c member)
    exact later.cons fun same => absurd same (plain c List.mem_cons_self)

theorem Spaced.of_suffix {text whole : List Char} (spaced : Spaced whole)
    (suffix : text <:+ whole) :
    Spaced text :=
  fun inside => spaced (inside.trans suffix.isInfix)

theorem spaced_reverse {text : List Char} : Spaced text.reverse ↔ Spaced text :=
  not_congr (@List.reverse_infix Char ['_', '_'] text)

theorem alphanum_ne_separator {c : Char} (alphanum : c.isAlphanum = true) : c ≠ '_' := by
  rintro rfl
  exact absurd alphanum (by decide)

theorem spaced_separate {out : List Char} (spaced : Spaced out) : Spaced (separate out) := by
  cases out with
  | nil => exact spaced_nil
  | cons c rest =>
    simp only [separate]
    split
    · exact spaced
    · rename_i other
      refine spaced.cons fun _ again => other ?_
      exact Option.some.inj again

theorem spaced_absorb {out : List Char} (spaced : Spaced out) (c : Char) :
    Spaced (absorb out c) := by
  have parted : Spaced (separate out) := spaced_separate spaced
  unfold absorb
  split
  · rename_i alphanum
    exact spaced.cons fun same => absurd same (alphanum_ne_separator alphanum)
  · split
    · exact parted
    · -- The spelling of the code point keeps its two separators apart.
      have marked : Spaced ('u' :: separate out) := parted.cons fun same => absurd same (by decide)
      have hex : ∀ d ∈ (Nat.toDigits 16 c.toNat).reverse, d ≠ '_' := by
        intro d member
        exact alphanum_ne_separator (hexDigits_alphanum c.toNat d (List.mem_reverse.mp member))
      refine (marked.append hex).cons fun _ again => ?_
      cases digits : (Nat.toDigits 16 c.toNat).reverse with
      | nil =>
        rw [digits] at again
        exact absurd (Option.some.inj again) (by decide)
      | cons d rest =>
        rw [digits] at again hex
        exact hex d List.mem_cons_self (Option.some.inj again)

theorem spaced_foldl (requested : List Char) {out : List Char} (spaced : Spaced out) :
    Spaced (requested.foldl absorb out) := by
  induction requested generalizing out with
  | nil => exact spaced
  | cons c rest ih => exact ih (spaced_absorb spaced c)

/-! The shape of identifiers -/

/-- An identifier of C that takes none of its reserved forms: an ASCII letter, then ASCII letters,
digits and separators, with a separator neither at the end nor next to another. -/
structure Proper (text : List Char) : Prop where
  begins : ∃ c rest, text = c :: rest ∧ c.isAlpha = true
  made : ∀ c ∈ text, c.isAlphanum = true ∨ c = '_'
  ends : text.getLast? ≠ some '_'
  spaced : Spaced text

theorem made_of_continues {c : Char} (continues : Code.continuesName c = true) :
    c.isAlphanum = true ∨ c = '_' := by
  simpa [Code.continuesName] using continues

theorem proper_alphanum {c : Char} {rest : List Char} (letter : c.isAlpha = true)
    (alphanum : ∀ d ∈ c :: rest, d.isAlphanum = true) : Proper (c :: rest) := by
  have plain : ∀ d ∈ c :: rest, d ≠ '_' := fun d member => alphanum_ne_separator (alphanum d member)
  refine ⟨⟨c, rest, rfl, letter⟩, fun d member => Or.inl (alphanum d member), ?_, ?_⟩
  · intro last
    exact plain '_' (List.mem_of_getLast? last) rfl
  · rw [← List.append_nil (c :: rest)]
    exact spaced_nil.append plain

theorem proper_led {c : Char} {rest : List Char} (alphanum : c.isAlphanum = true)
    (made : ∀ d ∈ c :: rest, d.isAlphanum = true ∨ d = '_') (ends : (c :: rest).getLast? ≠ some '_')
    (spaced : Spaced (c :: rest)) :
    Proper (if c.isDigit then 'm' :: 'y' :: '_' :: c :: rest else c :: rest) := by
  split
  · have parted : Spaced ('_' :: c :: rest) :=
      spaced.cons fun _ again => alphanum_ne_separator alphanum (Option.some.inj again)
    refine ⟨⟨'m', _, rfl, by decide⟩, ?_, by simpa using ends, ?_⟩
    · intro d member
      rw [List.mem_cons, List.mem_cons, List.mem_cons] at member
      rcases member with rfl | rfl | rfl | later
      · exact Or.inl (by decide)
      · exact Or.inl (by decide)
      · exact Or.inr rfl
      · exact made d later
    · exact @Spaced.append _ ['m', 'y'] parted (by simp)
  · rename_i letter
    have alpha : c.isAlpha = true := by simpa [Char.isAlphanum, letter] using alphanum
    exact ⟨⟨c, rest, rfl, alpha⟩, made, ends, spaced⟩

theorem proper_sanitizeChars (requested : List Char) : Proper (sanitizeChars requested) := by
  have stem := stem_dropWhile (stem_foldl requested stem_nil) (· = '_')
  have spaced : Spaced ((requested.foldl absorb []).dropWhile (· = '_')) :=
    (spaced_foldl requested spaced_nil).of_suffix (List.dropWhile_suffix _)
  have trimmed := List.head?_dropWhile_not (· = '_') (requested.foldl absorb [])
  unfold sanitizeChars
  generalize (requested.foldl absorb []).dropWhile (· = '_') = out at stem spaced trimmed ⊢
  -- The text so far is held last character first, so its end is where the list begins.
  have ends : out.reverse.getLast? ≠ some '_' := by
    rw [List.getLast?_reverse]
    intro last
    rw [last] at trimmed
    exact absurd trimmed (by decide)
  have first : ∀ c, out.reverse.head? = some c → c.isAlphanum = true := by
    intro c head
    rw [List.head?_reverse] at head
    exact stem.begins c head
  have made : ∀ c ∈ out.reverse, c.isAlphanum = true ∨ c = '_' :=
    fun c member => made_of_continues (stem.continues c (List.mem_reverse.mp member))
  have forwards : Spaced out.reverse := spaced_reverse.mpr spaced
  generalize out.reverse = text at ends made forwards first
  cases text with
  | nil => exact proper_alphanum (c := 'u') rfl (List.all_eq_true.mp rfl)
  | cons c rest => exact proper_led (first c rfl) made ends forwards

theorem proper_sanitize (requested : String) : Proper (sanitize requested).toList := by
  rw [sanitize, String.toList_ofList]
  exact proper_sanitizeChars requested.toList

theorem Proper.numbered {text : List Char} (proper : Proper text) (n : Nat) :
    Proper (text ++ n.repr.toList) := by
  have digit : ∀ c ∈ n.repr.toList, c.isAlphanum = true :=
    fun c member => digit_alphanum (Text.isDigit_of_mem_repr member)
  refine ⟨?_, ?_, ?_, ?_⟩
  · obtain ⟨c, rest, rfl, letter⟩ := proper.begins
    exact ⟨c, rest ++ n.repr.toList, rfl, letter⟩
  · intro c member
    rcases List.mem_append.mp member with front | back
    · exact proper.made c front
    · exact Or.inl (digit c back)
  · intro last
    rw [List.getLast?_append] at last
    cases final : n.repr.toList.getLast? with
    | none => exact Text.repr_ne_nil n (List.getLast?_eq_none_iff.mp final)
    | some c =>
      rw [final] at last
      exact alphanum_ne_separator (digit c (List.mem_of_getLast? final)) (Option.some.inj last)
  · -- Read backwards the digits come first, and they hold no separator.
    rw [← spaced_reverse, List.reverse_append]
    refine (spaced_reverse.mpr proper.spaced).append fun c member => ?_
    exact alphanum_ne_separator (digit c (List.mem_reverse.mp member))

/-! The least number -/

/-- The search as a loop with a counter of 32 bits. It ends with this name, and the counter never
overflows. -/
inductive Search (base : String) (occupied : List String) : UInt32 → String → Prop where
  | found {n : UInt32} (free : base ++ toString n.toNat ∉ occupied) :
      Search base occupied n (base ++ toString n.toNat)
  | next {n : UInt32} {name : String} (taken : base ++ toString n.toNat ∈ occupied)
      (room : n.toNat + 1 < UInt32.size) (later : Search base occupied (n + 1) name) :
      Search base occupied n name

theorem search_of_least {base : String} {occupied : List String} {n : UInt32} {k : Nat}
    (room : n.toNat + k < UInt32.size)
    (before : ∀ i, i < k → base ++ toString (n.toNat + i) ∈ occupied)
    (free : base ++ toString (n.toNat + k) ∉ occupied) :
    Search base occupied n (base ++ toString (n.toNat + k)) := by
  induction k generalizing n with
  | zero => exact Search.found free
  | succ k ih =>
    have counted : (n + 1).toNat = n.toNat + 1 := by
      rw [UInt32.toNat_add]
      exact Nat.mod_eq_of_lt (by simp [UInt32.size] at room ⊢; omega)
    have shifted : ∀ i, (n + 1).toNat + i = n.toNat + (i + 1) := by omega
    refine Search.next (before 0 (by omega)) (by omega) ?_
    rw [← shifted k]
    refine ih (by omega) (fun i less => ?_) ?_
    · rw [shifted i]
      exact before (i + 1) (by omega)
    · rw [shifted k]
      exact free

/-- As many names are occupied as numbers have failed. -/
theorem failed_le {base : String} {occupied : List String} {n k : Nat}
    (before : ∀ i, i < k → base ++ toString (n + i) ∈ occupied) :
    k ≤ occupied.eraseDups.length := by
  have inside : (List.range k).map (fun i => base ++ toString (n + i)) ⊆ occupied.eraseDups := by
    intro x member
    obtain ⟨i, small, rfl⟩ := List.mem_map.mp member
    exact List.mem_eraseDups.mpr (before i (List.mem_range.mp small))
  have distinct : ((List.range k).map fun i => base ++ toString (n + i)).Nodup := by
    refine List.pairwise_map.mpr (List.nodup_range.imp ?_)
    intro i j different same
    exact different (Nat.add_left_cancel (numbered_injective same))
  have few := distinct.length_le_of_subset inside
  rwa [List.length_map, List.length_range] at few

/-- The identifier of a requested name is what the name reduces to, or that with the least number
from two on that makes it free. The number is found with a counter of 32 bits. In any case the
identifier has a proper shape and is free. -/
theorem safeName_is_least_free (requested : String) (reserved taken : List String)
    (few : (reserved ++ taken).eraseDups.length < UInt32.size - 2) :
    let base := sanitize requested
    let name := safeName requested reserved taken
    (base ∉ reserved ++ taken → name = base) ∧
    (base ∈ reserved ++ taken →
      Search base (reserved ++ taken) 2 name ∧
      ∃ n : Nat, 2 ≤ n ∧ n < UInt32.size ∧ name = base ++ toString n ∧
        ∀ m, 2 ≤ m → m < n → base ++ toString m ∈ reserved ++ taken) ∧
    Proper name.toList ∧ name ∉ reserved ∧ name ∉ taken := by
  intro base name
  have free : name ∉ reserved ++ taken := safeName_not_mem requested reserved taken
  have apart : name ∉ reserved ∧ name ∉ taken := by simpa using free
  have proper : Proper base.toList := proper_sanitize requested
  by_cases occupied : base ∈ reserved ++ taken
  · obtain ⟨k, result, _, before, _⟩ :=
      firstFree_cases base (reserved ++ taken) (reserved ++ taken).length 2
    have numbered : name = base ++ toString (2 + k) := by
      rw [← result]
      exact if_pos (List.contains_iff_mem.mpr occupied)
    have failed : k ≤ (reserved ++ taken).eraseDups.length := failed_le before
    have room : 2 + k < UInt32.size := by omega
    refine ⟨fun vacant => absurd occupied vacant, fun _ =>
      ⟨?_, 2 + k, by omega, room, numbered, ?_⟩, ?_, apart⟩
    · rw [numbered] at free ⊢
      exact search_of_least (n := 2) room before free
    · intro m least less
      have tried := before (m - 2) (by omega)
      rwa [show 2 + (m - 2) = m by omega] at tried
    · rw [numbered, String.toList_append]
      exact proper.numbered (2 + k)
  · have same : name = base := if_neg fun met => occupied (List.contains_iff_mem.mp met)
    refine ⟨fun _ => same, fun inside => absurd inside occupied, ?_, apart⟩
    rw [same]
    exact proper

/-- A name that begins with a digit and ends with a letter beyond ASCII, when three identifiers are
gone. -/
theorem four_is_least_number :
    let occupied := ["my_2_loops_ue9", "my_2_loops_ue92"] ++ ["my_2_loops_ue93"]
    let name := safeName "2 loops é" ["my_2_loops_ue9", "my_2_loops_ue92"] ["my_2_loops_ue93"]
    occupied.eraseDups.length < UInt32.size - 2 ∧ name = "my_2_loops_ue94" ∧
      Search "my_2_loops_ue9" occupied 2 name ∧ Proper name.toList ∧ name ∉ occupied := by
  intro occupied name
  have few : occupied.eraseDups.length < UInt32.size - 2 := by decide +kernel
  have reduced : sanitize "2 loops é" = "my_2_loops_ue9" := by decide +kernel
  have gone : sanitize "2 loops é" ∈ occupied := by
    rw [reduced]
    exact List.mem_cons_self
  obtain ⟨_, numbered, proper, unreserved, untaken⟩ := safeName_is_least_free "2 loops é" _ _ few
  have search := (numbered gone).1
  rw [reduced] at search
  refine ⟨few, by decide +kernel, search, proper, fun member => ?_⟩
  rcases List.mem_append.mp member with word | before
  · exact unreserved word
  · exact untaken before

end Identifier
end BlockSketch
