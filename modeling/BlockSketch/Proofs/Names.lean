import BlockSketch.Names
import BlockSketch.Proofs.Code.Spelling
import BlockSketch.Text.Integer

/-
What a name table hands out. Every identifier has the shape of one, it is neither reserved nor was
it handed out before, and so no two user names share an identifier.
-/
namespace BlockSketch
open Code

namespace Identifier

/-! The shape of identifiers -/

theorem alphanum_continues {c : Char} (h : c.isAlphanum = true) : continuesName c = true := by
  simp [continuesName, h]

theorem digit_alphanum {c : Char} (h : c.isDigit = true) : c.isAlphanum = true := by
  simp [Char.isAlphanum, h]

theorem hexDigit_alphanum {d : Nat} (small : d < 16) : d.digitChar.isAlphanum = true := by
  have all : ∀ d : Fin 16, d.val.digitChar.isAlphanum = true := by decide
  exact all ⟨d, small⟩

theorem hexDigits_alphanum (n : Nat) : ∀ c ∈ Nat.toDigits 16 n, c.isAlphanum = true := by
  induction n using Nat.strongRecOn with
  | ind n ih =>
    intro c member
    rw [Nat.toDigits_eq_if (by decide)] at member
    split at member
    · rename_i small
      rw [List.mem_singleton.mp member]
      exact hexDigit_alphanum small
    · rename_i large
      rcases List.mem_append.mp member with front | last
      · exact ih (n / 16) (by omega) c front
      · rw [List.mem_singleton.mp last]
        exact hexDigit_alphanum (Nat.mod_lt n (by decide))

/-- A text held last character first that an identifier can begin with: it begins with a letter or a
digit and goes on with identifier characters. -/
structure Stem (out : List Char) : Prop where
  continues : ∀ c ∈ out, continuesName c = true
  begins : ∀ c, out.getLast? = some c → c.isAlphanum = true

theorem stem_nil : Stem [] := ⟨by simp, by simp⟩

theorem getLast_front (front : List Char) {out : List Char} {c : Char} (begun : out ≠ [])
    (last : (front ++ out).getLast? = some c) : out.getLast? = some c := by
  rw [List.getLast?_append] at last
  cases h : out.getLast? with
  | none => exact absurd (List.getLast?_eq_none_iff.mp h) begun
  | some d => simpa [h] using last

theorem stem_separate {out : List Char} (stem : Stem out) : Stem (separate out) := by
  cases out with
  | nil => exact stem_nil
  | cons c rest =>
    simp only [separate]
    split
    · exact stem
    · refine ⟨?_, fun d last => stem.begins d ?_⟩
      · intro d member
        rcases List.mem_cons.mp member with rfl | later
        · decide
        · exact stem.continues d later
      · exact getLast_front ['_'] (by simp) last

theorem stem_absorb {out : List Char} (stem : Stem out) (c : Char) : Stem (absorb out c) := by
  unfold absorb
  split
  · rename_i alphanum
    refine ⟨?_, ?_⟩
    · intro d member
      rcases List.mem_cons.mp member with rfl | later
      · exact alphanum_continues alphanum
      · exact stem.continues d later
    · intro d last
      cases out with
      | nil =>
        cases last
        exact alphanum
      | cons e rest => exact stem.begins d (by simpa using last)
  · split
    · exact stem_separate stem
    · have parted := stem_separate stem
      refine ⟨?_, ?_⟩
      · intro d member
        simp only [List.mem_cons, List.mem_append, List.mem_reverse] at member
        rcases member with rfl | hex | rfl | later
        · decide
        · exact alphanum_continues (hexDigits_alphanum _ d hex)
        · decide
        · exact parted.continues d later
      · intro d last
        by_cases empty : separate out = []
        · rw [empty] at last
          have isU : d = 'u' := by simpa [List.getLast?_cons, List.getLast?_append] using last.symm
          rw [isU]
          decide
        · let spelled := '_' :: ((Nat.toDigits 16 c.toNat).reverse ++ ['u'])
          have whole : (spelled ++ separate out).getLast? = some d := by simpa [spelled] using last
          exact parted.begins d (getLast_front spelled empty whole)

theorem stem_foldl (requested : List Char) {out : List Char} (stem : Stem out) :
    Stem (requested.foldl absorb out) := by
  induction requested generalizing out with
  | nil => exact stem
  | cons c rest ih => exact ih (stem_absorb stem c)

theorem stem_dropWhile {out : List Char} (stem : Stem out) (p : Char → Bool) :
    Stem (out.dropWhile p) := by
  obtain ⟨front, split⟩ : ∃ front, front ++ out.dropWhile p = out :=
    ⟨_, List.takeWhile_append_dropWhile⟩
  refine ⟨fun c member => stem.continues c ?_, fun c last => stem.begins c ?_⟩
  · exact (List.dropWhile_suffix p).subset member
  · rw [← split, List.getLast?_append, last]
    rfl

theorem isName_of_stem {s : Char} {rest : List Char} (stem : Stem (s :: rest).reverse)
    (letter : s.isDigit = false) : IsName (s :: rest) := by
  have first : s.isAlphanum = true := stem.begins s (by simp)
  refine ⟨s, rest, rfl, ?_, fun c member => stem.continues c (by simp [member])⟩
  have alpha : s.isAlpha = true := by simpa [Char.isAlphanum, letter] using first
  simp [startsName, alpha]

theorem sanitize_isName (requested : String) : IsName (sanitize requested).toList := by
  have stem := stem_dropWhile (stem_foldl requested.toList stem_nil) (· = '_')
  rw [sanitize, String.toList_ofList, sanitizeChars]
  split
  · decide
  · rename_i s rest same
    have reversed : Stem (s :: rest).reverse := by rw [← same, List.reverse_reverse]; exact stem
    split
    · refine ⟨'m', 'y' :: '_' :: _, rfl, by decide, ?_⟩
      intro c member
      simp only [List.mem_cons] at member
      rcases member with rfl | rfl | later
      · decide
      · decide
      · rw [same] at later
        exact reversed.continues c (List.mem_reverse.mpr later)
    · rename_i letter
      rw [same]
      exact isName_of_stem reversed (by simpa using letter)

theorem isName_append_digits {text : List Char} (isName : IsName text) (n : Nat) :
    IsName (text ++ n.repr.toList) := by
  obtain ⟨s, rest, rfl, first, others⟩ := isName.starts
  refine ⟨s, rest ++ n.repr.toList, rfl, first, ?_⟩
  intro c member
  rcases List.mem_append.mp member with front | digit
  · exact others c front
  · rw [Nat.toList_repr] at digit
    have isDigit : c.isDigit = true := Nat.isDigit_of_mem_toDigits (by decide) (by decide) digit
    exact alphanum_continues (digit_alphanum isDigit)

/-! Fresh identifiers -/

theorem numbered_injective {base : String} {m n : Nat}
    (same : base ++ toString m = base ++ toString n) : m = n := by
  have lists : base.toList ++ m.repr.toList = base.toList ++ n.repr.toList := by
    simpa using congrArg String.toList same
  have digits := Text.digits?_repr m
  rw [List.append_cancel_left lists, Text.digits?_repr] at digits
  exact (Option.some.inj digits).symm

theorem firstFree_cases (base : String) (occupied : List String) (count n : Nat) :
    ∃ k, firstFree base occupied count n = base ++ toString (n + k) ∧ k ≤ count ∧
      (∀ i, i < k → base ++ toString (n + i) ∈ occupied) ∧
      (k < count → base ++ toString (n + k) ∉ occupied) := by
  induction count generalizing n with
  | zero => exact ⟨0, rfl, Nat.le_refl 0, by omega, by omega⟩
  | succ count ih =>
    simp only [firstFree]
    split
    · rename_i taken
      obtain ⟨k, result, le, before, free⟩ := ih (n + 1)
      refine ⟨k + 1, ?_, by omega, ?_, ?_⟩
      · rw [result]
        congr 2
        omega
      · intro i lt
        cases i with
        | zero => simpa using taken
        | succ i =>
          have earlier := before i (by omega)
          rwa [show n + (i + 1) = n + 1 + i by omega]
      · intro lt
        rw [show n + (k + 1) = n + 1 + k by omega]
        exact free (by omega)
    · rename_i free
      exact ⟨0, rfl, by omega, by omega, fun _ => by simpa using free⟩

/-- With as many tries as there are occupied names the result is free in any case. -/
theorem firstFree_not_mem (base : String) (occupied : List String) (n : Nat) :
    firstFree base occupied occupied.length n ∉ occupied := by
  obtain ⟨k, result, le, before, free⟩ := firstFree_cases base occupied occupied.length n
  rw [result]
  intro taken
  have last : k = occupied.length := by
    by_cases lt : k < occupied.length
    · exact absurd taken (free lt)
    · omega
  have inside : (List.range (k + 1)).map (fun i => base ++ toString (n + i)) ⊆ occupied := by
    intro x member
    obtain ⟨i, small, rfl⟩ := List.mem_map.mp member
    by_cases same : i = k
    · exact same ▸ taken
    · exact before i (by have := List.mem_range.mp small; omega)
  have distinct : ((List.range (k + 1)).map fun i => base ++ toString (n + i)).Nodup := by
    refine List.pairwise_map.mpr (List.nodup_range.imp ?_)
    intro i j different same
    have := numbered_injective same
    omega
  have few := distinct.length_le_of_subset inside
  simp only [List.length_map, List.length_range] at few
  omega

theorem safeName_isName (requested : String) (reserved taken : List String) :
    IsName (safeName requested reserved taken).toList := by
  simp only [safeName]
  split
  · obtain ⟨k, result, _⟩ := firstFree_cases (sanitize requested) (reserved ++ taken)
      (reserved ++ taken).length 2
    rw [result, String.toList_append]
    exact isName_append_digits (sanitize_isName requested) (2 + k)
  · exact sanitize_isName requested

theorem safeName_not_mem (requested : String) (reserved taken : List String) :
    safeName requested reserved taken ∉ reserved ++ taken := by
  simp only [safeName]
  split
  · exact firstFree_not_mem _ _ 2
  · rename_i free
    simpa using free

end Identifier

/-! Name tables -/

namespace NameTable

/-- The tables that a session can hold: the one it begins with, after any requests. -/
inductive Allocated : NameTable → Prop where
  | default : Allocated .default
  | get {table : NameTable} (before : Allocated table) (user : String) :
      Allocated (table.get user).2
  | distinct {table : NameTable} (before : Allocated table) (base : String) :
      Allocated (table.distinct base).2

def Extends (later earlier : NameTable) : Prop :=
  ∀ user name, earlier.byUser.lookup user = some name → later.byUser.lookup user = some name

theorem extends_refl (table : NameTable) : Extends table table := fun _ _ h => h

theorem extends_trans {a b c : NameTable} (second : Extends c b) (first : Extends b a) :
    Extends c a :=
  fun user name h => second user name (first user name h)

theorem extends_get (table : NameTable) (user : String) : Extends (table.get user).2 table := by
  intro other name found
  unfold get
  split
  · exact found
  · rename_i absent
    have different : (other == user) = false := by
      rw [beq_eq_false_iff_ne]
      rintro rfl
      simp [absent] at found
    simp [List.lookup_cons, different, found]

theorem lookup_get (table : NameTable) (user : String) :
    (table.get user).2.byUser.lookup user = some (table.get user).1 := by
  unfold get
  split
  · rename_i name found
    exact found
  · simp

structure Sound (table : NameTable) : Prop where
  names : ∀ e ∈ table.byUser, IsName e.2.toList
  taken : ∀ e ∈ table.byUser, e.2 ∈ table.taken
  users : (table.byUser.map Prod.fst).Nodup
  different : (table.byUser.map Prod.snd).Nodup

theorem mem_of_lookup {entries : List (String × String)} {user name : String}
    (found : entries.lookup user = some name) : (user, name) ∈ entries := by
  induction entries with
  | nil => simp at found
  | cons e rest ih =>
    rw [List.lookup_cons] at found
    split at found
    · rename_i same
      cases found
      simp [beq_iff_eq.mp same]
    · exact List.mem_cons_of_mem e (ih found)

theorem sound_get {table : NameTable} (sound : table.Sound) (user : String) :
    (table.get user).2.Sound := by
  unfold get
  split
  · exact sound
  · rename_i absent
    have fresh := Identifier.safeName_not_mem user table.reserved table.taken
    refine ⟨?_, ?_, ?_, ?_⟩
    · intro e member
      rcases List.mem_cons.mp member with rfl | later
      · exact Identifier.safeName_isName user table.reserved table.taken
      · exact sound.names e later
    · intro e member
      rcases List.mem_cons.mp member with rfl | later
      · exact List.mem_cons_self
      · exact List.mem_cons_of_mem _ (sound.taken e later)
    · refine List.nodup_cons.mpr ⟨?_, sound.users⟩
      intro known
      obtain ⟨e, member, same⟩ := List.mem_map.mp known
      have found := List.lookup_eq_none_iff.mp absent e member
      simp [same] at found
    · refine List.nodup_cons.mpr ⟨?_, sound.different⟩
      intro known
      obtain ⟨e, member, same⟩ := List.mem_map.mp known
      refine fresh (List.mem_append_right _ ?_)
      have inTable := sound.taken e member
      rwa [same] at inTable

theorem sound_distinct {table : NameTable} (sound : table.Sound) (base : String) :
    (table.distinct base).2.Sound :=
  ⟨sound.names, fun e member => List.mem_cons_of_mem _ (sound.taken e member), sound.users,
    sound.different⟩

theorem sound_of_allocated {table : NameTable} (allocated : table.Allocated) : table.Sound := by
  induction allocated with
  | default => exact ⟨by simp [NameTable.default, new], by simp [NameTable.default, new],
      by simp [NameTable.default, new], by simp [NameTable.default, new]⟩
  | get before user ih => exact sound_get ih user
  | distinct before base ih => exact sound_distinct ih base

theorem Allocated.taken_free {table : NameTable} (allocated : table.Allocated) :
    table.reserved = reservedWords ∧ ∀ name ∈ table.taken, IsName name.toList ∧
      name ∉ reservedWords := by
  have fresh : ∀ {table : NameTable} (requested : String), table.reserved = reservedWords →
      IsName (Identifier.safeName requested table.reserved table.taken).toList ∧
        Identifier.safeName requested table.reserved table.taken ∉ reservedWords := by
    intro table requested same
    have free := Identifier.safeName_not_mem requested table.reserved table.taken
    refine ⟨Identifier.safeName_isName _ _ _, fun listed => free (List.mem_append_left _ ?_)⟩
    rw [same] at listed ⊢
    exact listed
  induction allocated with
  | default => exact ⟨rfl, nofun⟩
  | @get table before user ih =>
    unfold NameTable.get
    split
    · exact ih
    · refine ⟨ih.1, fun name member => ?_⟩
      rcases List.mem_cons.mp member with rfl | old
      · exact fresh user ih.1
      · exact ih.2 name old
  | @distinct table before base ih =>
    refine ⟨ih.1, fun name member => ?_⟩
    rcases List.mem_cons.mp member with rfl | old
    · exact fresh base ih.1
    · exact ih.2 name old

def userOf? (table : NameTable) (name : List Char) : Option String :=
  (table.byUser.find? fun e => e.2.toList = name).map Prod.fst

theorem userOf_lookup {table : NameTable} (sound : table.Sound) {user name : String}
    (found : table.byUser.lookup user = some name) : table.userOf? name.toList = some user := by
  have member := mem_of_lookup found
  have unique := sound.different
  unfold userOf?
  generalize table.byUser = entries at member unique
  induction entries with
  | nil => simp at member
  | cons e rest ih =>
    rw [List.map_cons, List.nodup_cons] at unique
    rcases List.mem_cons.mp member with rfl | later
    · simp
    · have other : e.2.toList ≠ name.toList := by
        intro same
        refine unique.1 (List.mem_map.mpr ⟨(user, name), later, ?_⟩)
        exact (String.toList_injective same).symm
      simpa [List.find?_cons, other] using ih later unique.2

/-- The identifiers that a table gives to user names, with a word for those it does not know. -/
def naming (table : NameTable) (user : String) : String :=
  (table.byUser.lookup user).getD "unnamed"

structure Agrees (table : NameTable) (names : String → String) : Prop where
  known : ∀ user name, table.byUser.lookup user = some name → names user = name
  isName : ∀ user, IsName (names user).toList

theorem agrees_naming {table : NameTable} (sound : table.Sound) : table.Agrees table.naming := by
  refine ⟨fun user name found => by simp [naming, found], fun user => ?_⟩
  unfold naming
  cases found : table.byUser.lookup user with
  | none => decide
  | some name => exact sound.names _ (mem_of_lookup found)

theorem agrees_of_extends {later earlier : NameTable} {names : String → String}
    (grown : Extends later earlier) (agrees : later.Agrees names) : earlier.Agrees names :=
  ⟨fun user name found => agrees.known user name (grown user name found), agrees.isName⟩

theorem Agrees.ne_empty {table : NameTable} {names : String → String} (agrees : table.Agrees names)
    (user : String) : names user ≠ "" := by
  intro blank
  obtain ⟨s, rest, found, _⟩ := (agrees.isName user).starts
  simp [blank] at found

end NameTable
end BlockSketch
