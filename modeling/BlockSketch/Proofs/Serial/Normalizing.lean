import BlockSketch.Proofs.Serial.Paths
import BlockSketch.Proofs.StableSort
import BlockSketch.Proofs.Text.Numerals
import BlockSketch.SortedMap

/-
Tidy lists of serial devices. Each serial path is there once, with the first device that has it.
Paths are in the order of their names and then of their final numbers, and where these are the same
in the order in which they were found. What is found among the device files and in the device map is
serial by itself, so all of it stays.
-/
namespace BlockSketch
namespace SerialDevice

/-! The first of each path -/

structure FirstSerial (ds : List SerialDevice) (d : SerialDevice) : Prop where
  serial : isSerialPath d.path = true
  first : ∃ before after, ds = before ++ d :: after ∧ ∀ e ∈ before, e.path ≠ d.path

theorem firstSerial_nil (d : SerialDevice) : ¬ FirstSerial [] d := by
  rintro ⟨_, before, after, split, _⟩
  cases before <;> cases split

theorem firstSerial_cons {d e : SerialDevice} {rest : List SerialDevice} :
    FirstSerial (d :: rest) e ↔
      isSerialPath e.path = true ∧ (e = d ∨ d.path ≠ e.path ∧ FirstSerial rest e) := by
  constructor
  · rintro ⟨serial, before, after, split, none⟩
    refine ⟨serial, ?_⟩
    cases before with
    | nil => exact Or.inl (List.cons.inj split).1.symm
    | cons b before =>
      obtain ⟨rfl, tail⟩ := List.cons.inj split
      exact Or.inr ⟨none d List.mem_cons_self, serial, before, after, tail,
        fun x member => none x (List.mem_cons_of_mem d member)⟩
  · rintro ⟨serial, rfl | ⟨other, _, before, after, rfl, none⟩⟩
    · exact ⟨serial, [], rest, rfl, fun x member => absurd member List.not_mem_nil⟩
    · refine ⟨serial, d :: before, after, rfl, fun x member => ?_⟩
      rcases List.mem_cons.mp member with rfl | later
      · exact other
      · exact none x later

theorem path_ne_of_dropped {seen : List String} {d e : SerialDevice}
    (dropped : ¬ (isSerialPath d.path && !seen.contains d.path) = true) (unseen : e.path ∉ seen)
    (serial : isSerialPath e.path = true) : d.path ≠ e.path := by
  intro same
  rw [← same] at unseen serial
  exact dropped (by simp [serial, unseen])

theorem mem_firstOfEach {seen : List String} {ds : List SerialDevice} {e : SerialDevice} :
    e ∈ firstOfEach seen ds ↔ e.path ∉ seen ∧ FirstSerial ds e := by
  induction ds generalizing seen with
  | nil => simp [firstOfEach, firstSerial_nil]
  | cons d rest ih =>
    rw [firstOfEach, firstSerial_cons]
    split
    · rename_i kept
      have ⟨serial, unseen⟩ : isSerialPath d.path = true ∧ d.path ∉ seen := by simpa using kept
      rw [List.mem_cons, ih, List.mem_cons, not_or]
      constructor
      · rintro (rfl | ⟨⟨other, unseen⟩, first⟩)
        · exact ⟨unseen, serial, Or.inl rfl⟩
        · exact ⟨unseen, first.serial, Or.inr ⟨Ne.symm other, first⟩⟩
      · rintro ⟨unseen, _, rfl | ⟨other, first⟩⟩
        · exact Or.inl rfl
        · exact Or.inr ⟨⟨Ne.symm other, unseen⟩, first⟩
    · rename_i dropped
      rw [ih]
      constructor
      · rintro ⟨unseen, first⟩
        exact ⟨unseen, first.serial, Or.inr ⟨path_ne_of_dropped dropped unseen first.serial, first⟩⟩
      · rintro ⟨unseen, serial, rfl | ⟨_, first⟩⟩
        · exact absurd rfl (path_ne_of_dropped dropped unseen serial)
        · exact ⟨unseen, first⟩

def place (ds : List SerialDevice) (path : String) : Nat := (ds.map SerialDevice.path).idxOf path

theorem place_cons {d : SerialDevice} {ds : List SerialDevice} {path : String} :
    place (d :: ds) path = if d.path = path then 0 else place ds path + 1 := by
  rw [place, List.map_cons, List.idxOf_cons]
  by_cases same : d.path = path
  · rw [if_pos same, beq_iff_eq.mpr same, cond_true]
  · rw [if_neg same, beq_eq_false_iff_ne.mpr same, cond_false, place]

theorem firstOfEach_ordered (seen : List String) (ds : List SerialDevice) :
    (firstOfEach seen ds).Pairwise fun a b => place ds a.path < place ds b.path := by
  induction ds generalizing seen with
  | nil => exact List.Pairwise.nil
  | cons d rest ih =>
    have later : ∀ {s : List String}, (∀ e ∈ firstOfEach s rest, d.path ≠ e.path) →
        (firstOfEach s rest).Pairwise fun a b =>
          place (d :: rest) a.path < place (d :: rest) b.path := by
      intro s others
      refine (ih s).imp_of_mem fun {a b} memberA memberB lower => ?_
      rw [place_cons, place_cons, if_neg (others a memberA), if_neg (others b memberB)]
      omega
    rw [firstOfEach]
    split
    · have others : ∀ e ∈ firstOfEach (d.path :: seen) rest, d.path ≠ e.path := by
        intro e member same
        exact (mem_firstOfEach.mp member).1 (same ▸ List.mem_cons_self)
      refine List.pairwise_cons.mpr ⟨fun e member => ?_, later others⟩
      rw [place_cons, place_cons, if_pos rfl, if_neg (others e member)]
      omega
    · rename_i dropped
      refine later fun e member => ?_
      obtain ⟨unseen, first⟩ := mem_firstOfEach.mp member
      exact path_ne_of_dropped dropped unseen first.serial

/-! The order of paths -/

/-- The name of a path in capitals and its final number. The name is what comes before the final
ASCII digits; without digits, and if they exceed 64 bits, the number is zero. -/
inductive HasKey (path : String) : String → Nat → Prop where
  | parts {name digits : List Char} (split : path.toList = name ++ digits)
      (number : ∀ c ∈ digits, c.isDigit = true)
      (maximal : ∀ c, name.getLast? = some c → c.isDigit = false) :
      HasKey path (String.ofList (name.map Char.toUpper))
        (if Text.placeValue digits < Text.wordCount then Text.placeValue digits else 0)

theorem finalDigits_each (path : String) : ∀ c ∈ finalDigits path, c.isDigit = true := by
  intro c member
  rw [finalDigits, List.mem_reverse] at member
  exact List.all_eq_true.mp List.all_takeWhile c member

theorem number_eq (path : String) :
    number path =
      if Text.placeValue (finalDigits path) < Text.wordCount then
        Text.placeValue (finalDigits path)
      else 0 := by
  have digits := finalDigits_each path
  unfold number Text.natural?
  split
  · rename_i rest plus
    exact absurd (digits '+' (plus ▸ List.mem_cons_self)) (by decide)
  · by_cases none : finalDigits path = []
    · rw [none]
      rfl
    · rw [Text.digits?_iff.mpr ⟨⟨none, digits⟩, rfl⟩, Option.filter_some]
      by_cases fits : Text.placeValue (finalDigits path) < Text.wordCount <;> simp [fits]

theorem parts_unique {path : String} {name digits : List Char}
    (split : path.toList = name ++ digits) (number : ∀ c ∈ digits, c.isDigit = true)
    (maximal : ∀ c, name.getLast? = some c → c.isDigit = false) :
    (path.toList.reverse.dropWhile Char.isDigit).reverse = name ∧ finalDigits path = digits := by
  have backwards : path.toList.reverse = digits.reverse ++ name.reverse := by
    rw [split, List.reverse_append]
  have each : ∀ c ∈ digits.reverse, c.isDigit = true :=
    fun c member => number c (List.mem_reverse.mp member)
  rw [finalDigits, backwards, List.dropWhile_append_of_pos each, List.takeWhile_append_of_pos each]
  cases last : name.reverse with
  | nil =>
    obtain rfl := List.reverse_eq_nil_iff.mp last
    simp
  | cons c rest =>
    have letter : ¬ c.isDigit = true := by
      rw [maximal c (by rw [← List.head?_reverse, last]; rfl)]
      exact Bool.false_ne_true
    rw [List.dropWhile_cons_of_neg letter, List.takeWhile_cons_of_neg letter, ← last]
    simp

theorem hasKey_iff {path name : String} {n : Nat} :
    HasKey path name n ↔ name = stem path ∧ n = number path := by
  constructor
  · rintro ⟨split, digits, maximal⟩
    obtain ⟨front, back⟩ := parts_unique split digits maximal
    rw [number_eq, stem, front, back]
    exact ⟨rfl, rfl⟩
  · rintro ⟨rfl, rfl⟩
    rw [number_eq, stem]
    refine .parts ?_ (finalDigits_each path) fun c last => ?_
    · rw [finalDigits, ← List.reverse_append, List.takeWhile_append_dropWhile, List.reverse_reverse]
    · have all := List.head?_dropWhile_not Char.isDigit path.toList.reverse
      rw [← List.getLast?_reverse, last] at all
      exact all

def KeyBefore (p q : String) : Prop := stem p < stem q ∨ stem p = stem q ∧ number p < number q

def SameKey (p q : String) : Prop := stem p = stem q ∧ number p = number q

theorem KeyBefore.trans {p q r : String} (first : KeyBefore p q) (second : KeyBefore q r) :
    KeyBefore p r := by
  rcases first with lower | ⟨same, less⟩ <;> rcases second with lower' | ⟨same', less'⟩
  · exact Or.inl (String.lt_trans lower lower')
  · exact Or.inl (same' ▸ lower)
  · exact Or.inl (same ▸ lower')
  · exact Or.inr ⟨same.trans same', Nat.lt_trans less less'⟩

theorem keyBefore_irrefl (p : String) : ¬ KeyBefore p p := by
  rintro (lower | ⟨_, less⟩)
  · exact String.lt_irrefl _ lower
  · exact Nat.lt_irrefl _ less

theorem keyBefore_asymm (p q : String) (first : KeyBefore p q) : ¬ KeyBefore q p := fun second =>
  keyBefore_irrefl p (first.trans second)

theorem keyBefore_total (p q : String) : KeyBefore p q ∨ SameKey p q ∨ KeyBefore q p := by
  by_cases lower : stem p < stem q
  · exact Or.inl (Or.inl lower)
  · by_cases same : stem p = stem q
    · rcases Nat.lt_trichotomy (number p) (number q) with less | equal | more
      · exact Or.inl (Or.inr ⟨same, less⟩)
      · exact Or.inr (Or.inl ⟨same, equal⟩)
      · exact Or.inr (Or.inr (Or.inr ⟨same.symm, more⟩))
    · exact Or.inr (Or.inr (Or.inl (SortedMap.lt_of_not_lt_of_ne lower (Ne.symm same))))

theorem precedes_iff {a b : SerialDevice} :
    precedes a b = true ↔ KeyBefore a.path b.path ∨ SameKey a.path b.path := by
  simp only [precedes, KeyBefore, SameKey, Bool.or_eq_true, Bool.and_eq_true, decide_eq_true_eq,
    Nat.le_iff_lt_or_eq, and_or_left, or_assoc]

theorem precedes_trans (a b c : SerialDevice) (first : precedes a b = true)
    (second : precedes b c = true) : precedes a c = true := by
  rw [precedes_iff] at first second ⊢
  rcases first with lower | same <;> rcases second with lower' | same'
  · exact Or.inl (lower.trans lower')
  · rw [KeyBefore, same'.1, same'.2] at lower
    exact Or.inl lower
  · rw [KeyBefore, ← same.1, ← same.2] at lower'
    exact Or.inl lower'
  · exact Or.inr ⟨same.1.trans same'.1, same.2.trans same'.2⟩

theorem precedes_total (a b : SerialDevice) : (precedes a b || precedes b a) = true := by
  rw [Bool.or_eq_true, precedes_iff, precedes_iff]
  rcases keyBefore_total a.path b.path with lower | same | higher
  · exact Or.inl (Or.inl lower)
  · exact Or.inl (Or.inr same)
  · exact Or.inr (Or.inl higher)

/-! Tidy lists -/

theorem mem_normalize {ds : List SerialDevice} {d : SerialDevice} :
    d ∈ normalize ds ↔ FirstSerial ds d := by
  rw [normalize, List.mem_mergeSort, mem_firstOfEach]
  exact and_iff_right List.not_mem_nil

theorem normalize_ordered (ds : List SerialDevice) :
    (normalize ds).Pairwise fun a b =>
      KeyBefore a.path b.path ∨ SameKey a.path b.path ∧ place ds a.path < place ds b.path := by
  refine (pairwise_mergeSort_tied precedes_trans precedes_total (firstOfEach_ordered [] ds)).imp ?_
  rintro a b ⟨order, tied⟩
  rcases precedes_iff.mp order with lower | same
  · exact Or.inl lower
  · exact Or.inr ⟨same, tied (precedes_iff.mpr (Or.inr ⟨same.1.symm, same.2.symm⟩))⟩

theorem normalize_paths_distinct (ds : List SerialDevice) :
    ((normalize ds).map SerialDevice.path).Nodup := by
  refine List.Pairwise.map SerialDevice.path ?_ (normalize_ordered ds)
  rintro a b order same
  rw [same] at order
  rcases order with lower | ⟨_, less⟩
  · exact keyBefore_irrefl _ lower
  · exact Nat.lt_irrefl _ less

theorem firstOfEach_eq_self {ds : List SerialDevice} {seen : List String}
    (serial : ∀ d ∈ ds, isSerialPath d.path = true) (distinct : (ds.map SerialDevice.path).Nodup)
    (unseen : ∀ d ∈ ds, d.path ∉ seen) : firstOfEach seen ds = ds := by
  induction ds generalizing seen with
  | nil => rfl
  | cons d rest ih =>
    rw [List.map_cons, List.nodup_cons] at distinct
    have kept : (isSerialPath d.path && !seen.contains d.path) = true := by
      simp [serial d List.mem_cons_self, unseen d List.mem_cons_self]
    rw [firstOfEach, if_pos kept, ih (fun e member => serial e (List.mem_cons_of_mem d member))
      distinct.2]
    intro e member again
    rcases List.mem_cons.mp again with same | before
    · exact distinct.1 (same ▸ List.mem_map_of_mem member)
    · exact unseen e (List.mem_cons_of_mem d member) before

theorem normalize_normalize (ds : List SerialDevice) : normalize (normalize ds) = normalize ds := by
  have kept : firstOfEach [] (normalize ds) = normalize ds :=
    firstOfEach_eq_self (fun d member => (mem_normalize.mp member).serial)
      (normalize_paths_distinct ds)
      fun d _ => List.not_mem_nil
  have sorted : (normalize ds).Pairwise fun a b => precedes a b = true :=
    List.pairwise_mergeSort precedes_trans precedes_total _
  rw [normalize, kept, List.mergeSort_of_pairwise sorted]

theorem mem_normalize_paths {ds : List SerialDevice} {path : String} :
    path ∈ (normalize ds).map SerialDevice.path ↔
      isSerialPath path = true ∧ path ∈ ds.map SerialDevice.path := by
  constructor
  · intro listed
    obtain ⟨d, member, rfl⟩ := List.mem_map.mp listed
    obtain ⟨serial, before, after, rfl, _⟩ := mem_normalize.mp member
    exact ⟨serial, List.mem_map_of_mem (by simp)⟩
  · rintro ⟨serial, listed⟩
    cases found : ds.find? (fun d => d.path = path) with
    | none =>
      obtain ⟨d, member, rfl⟩ := List.mem_map.mp listed
      exact absurd (decide_eq_true rfl) (List.find?_eq_none.mp found d member)
    | some d =>
      obtain ⟨same, before, after, split, others⟩ := List.find?_eq_some_iff_append.mp found
      obtain rfl : d.path = path := by simpa using same
      have first : FirstSerial ds d :=
        ⟨serial, before, after, split, fun e member => by simpa using others e member⟩
      exact List.mem_map_of_mem (mem_normalize.mpr first)

/-- If the keys tell the serial paths of a list apart, the order of the list does not matter. -/
theorem normalize_perm {ds es : List SerialDevice} (perm : ds.Perm es)
    (apart : ∀ p ∈ ds.map SerialDevice.path, ∀ q ∈ ds.map SerialDevice.path, isSerialPath p = true →
      isSerialPath q = true → SameKey p q → p = q) :
    (normalize ds).map SerialDevice.path = (normalize es).map SerialDevice.path := by
  have same : ∀ p, p ∈ ds.map SerialDevice.path ↔ p ∈ es.map SerialDevice.path :=
    fun p => (perm.map SerialDevice.path).mem_iff
  have strict : ∀ {xs : List SerialDevice}, (∀ p, p ∈ ds.map SerialDevice.path ↔
      p ∈ xs.map SerialDevice.path) →
      ((normalize xs).map SerialDevice.path).Pairwise KeyBefore := by
    intro xs paths
    rw [List.pairwise_map]
    refine (normalize_ordered xs).imp_of_mem fun {a b} memberA memberB order => ?_
    rcases order with lower | ⟨tied, less⟩
    · exact lower
    · -- A tie would be between a path and itself, which is in one place only.
      obtain ⟨serialA, listedA⟩ := mem_normalize_paths.mp (List.mem_map_of_mem memberA)
      obtain ⟨serialB, listedB⟩ := mem_normalize_paths.mp (List.mem_map_of_mem memberB)
      have equal := apart _ ((paths _).mpr listedA) _ ((paths _).mpr listedB) serialA serialB tied
      rw [equal] at less
      exact absurd less (Nat.lt_irrefl _)
  refine eq_of_strictly_ordered keyBefore_asymm (strict fun _ => Iff.rfl) (strict same) fun p => ?_
  rw [mem_normalize_paths, mem_normalize_paths, same p]

theorem mem_normalize_or_repeated {d : SerialDevice} (serial : isSerialPath d.path = true)
    (before after : List SerialDevice) :
    d ∈ normalize (before ++ d :: after) ∨ ∃ e ∈ before, e.path = d.path := by
  by_cases repeated : ∃ e ∈ before, e.path = d.path
  · exact Or.inr repeated
  · refine Or.inl (mem_normalize.mpr ⟨serial, before, after, rfl, fun e member same => ?_⟩)
    exact repeated ⟨e, member, same⟩

/-- A tidy list holds the first device of each serial path and nothing else, strictly ordered by the
keys of the paths and, if these are the same, by where the paths came first. Tidying again changes
nothing, and the paths do not depend on the order of the list if their keys tell them apart. All
that is found in the device map and among the device files is serial, so it is dropped only where it
repeats a path. -/
theorem tidy_lists_hold_each_path_once :
    (∀ ds d, d ∈ normalize ds ↔ FirstSerial ds d) ∧
    (∀ ds, ((normalize ds).map SerialDevice.path).Nodup) ∧
    (∀ path name n, HasKey path name n ↔ name = stem path ∧ n = number path) ∧
    (∀ ds, (normalize ds).Pairwise fun a b =>
      KeyBefore a.path b.path ∨ SameKey a.path b.path ∧ place ds a.path < place ds b.path) ∧
    (∀ ds, normalize (normalize ds) = normalize ds) ∧
    (∀ ds es : List SerialDevice, ds.Perm es →
      (∀ p ∈ ds.map SerialDevice.path, ∀ q ∈ ds.map SerialDevice.path, isSerialPath p = true →
        isSerialPath q = true → SameKey p q → p = q) →
      (normalize ds).map SerialDevice.path = (normalize es).map SerialDevice.path) ∧
    (∀ path, isSerialPath path = true ↔ SerialPath path.toList) ∧
    (∀ line name, Discovery.registryName? line = some name ↔ NamedAtEnd line name.toList) ∧
    (∀ d, (∃ text, d ∈ Discovery.ofRegistry text) ∨ (∃ names, d ∈ Discovery.ofDeviceFiles names) →
      isSerialPath d.path = true ∧
        ∀ before after, d ∈ normalize (before ++ d :: after) ∨ ∃ e ∈ before, e.path = d.path) := by
  refine ⟨fun ds d => mem_normalize, normalize_paths_distinct, fun path name n => hasKey_iff,
    normalize_ordered, normalize_normalize, fun ds es => normalize_perm, fun path =>
    isSerialPath_iff,
    fun line name => Discovery.registryName?_iff, ?_⟩
  intro d found
  have serial : isSerialPath d.path = true := by
    rcases found with ⟨text, member⟩ | ⟨names, member⟩
    · exact Discovery.serial_of_mem_ofRegistry member
    · exact Discovery.serial_of_mem_ofDeviceFiles member
  exact ⟨serial, mem_normalize_or_repeated serial⟩

end SerialDevice
end BlockSketch
