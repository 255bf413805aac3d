import BlockSketch.Sketch.KeyedLines

/-
Tables of lines after a history of insertions. The index always has exactly the keys of the entries,
each with its place. So a key stands where it first came up, and its line is the one it was last
given.
-/
namespace BlockSketch

theorem eraseDups_append_singleton {α : Type} [BEq α] [LawfulBEq α] [DecidableEq α] (xs : List α)
    (x : α) : (xs ++ [x]).eraseDups = if x ∈ xs then xs.eraseDups else xs.eraseDups ++ [x] := by
  rw [List.eraseDups_append]
  by_cases old : x ∈ xs
  · simp [List.removeAll, old]
  · simp [List.removeAll, old, List.eraseDups_cons]

namespace KeyedLines

def Indexed (table : KeyedLines) : Prop :=
  ∀ (key : String) (i : Nat), table.index[key]? = some i ↔ table.entries[i]?.map Prod.fst = some key

def afterAll (calls : List (String × String)) : KeyedLines :=
  calls.foldl (fun table call => (table.insert call.1 call.2).2) .empty

def keysOf (calls : List (String × String)) : List String := (calls.map Prod.fst).eraseDups

def lastLine (calls : List (String × String)) (key : String) : Option String :=
  calls.reverse.lookup key

theorem afterAll_append (calls : List (String × String)) (key line : String) :
    afterAll (calls ++ [(key, line)]) = ((afterAll calls).insert key line).2 := by
  simp [afterAll]

theorem mem_keysOf {calls : List (String × String)} {key : String} :
    key ∈ keysOf calls ↔ key ∈ calls.map Prod.fst :=
  List.mem_eraseDups

theorem keysOf_append (calls : List (String × String)) (key line : String) :
    keysOf (calls ++ [(key, line)]) = if key ∈ keysOf calls then keysOf calls
      else keysOf calls ++ [key] := by
  rw [keysOf, List.map_append]
  simp only [mem_keysOf]
  exact eraseDups_append_singleton _ _

theorem lastLine_append (calls : List (String × String)) (key line other : String) :
    lastLine (calls ++ [(key, line)]) other = if other = key then some line
      else lastLine calls other := by
  rw [lastLine, List.reverse_append, List.reverse_singleton, List.singleton_append,
    List.lookup_cons]
  by_cases same : other = key
  · simp [same]
  · have differ : (other == key) = false := by simpa using same
    simp only [differ, same, if_false, lastLine]

theorem indexed_empty : Indexed empty := by
  intro key i
  simp [empty]

theorem Indexed.place_unique {table : KeyedLines} (indexed : table.Indexed) {key : String}
    {i j : Nat} (first : table.entries[i]?.map Prod.fst = some key)
    (second : table.entries[j]?.map Prod.fst = some key) : i = j := by
  have one := (indexed key i).mpr first
  have two := (indexed key j).mpr second
  exact Option.some.inj (one.symm.trans two)

theorem insert_cases {table : KeyedLines} (indexed : table.Indexed) (key line : String) :
    (∃ i : Nat, table.entries[i]?.map Prod.fst = some key ∧
      (table.insert key line).2 = ⟨table.entries.setIfInBounds i (key, line), table.index⟩) ∨
    ((∀ i : Nat, table.entries[i]?.map Prod.fst ≠ some key) ∧ table.index[key]? = none ∧
      (table.insert key line).2 =
        ⟨table.entries.push (key, line), table.index.insert key table.entries.size⟩) := by
  cases found : table.index[key]? with
  | some i =>
    left
    refine ⟨i, (indexed key i).mp found, ?_⟩
    simp [insert, found]
  | none =>
    right
    refine ⟨?_, rfl, by simp [insert, found]⟩
    intro i there
    rw [(indexed key i).mpr there] at found
    cases found

theorem mem_insert {table : KeyedLines} {key line : String} {e : String × String}
    (member : e ∈ (table.insert key line).2.entries) : e ∈ table.entries ∨ e = (key, line) := by
  unfold insert at member
  split at member
  · exact Array.mem_or_eq_of_mem_setIfInBounds member
  · exact Array.mem_push.mp member

theorem set_entry {entries : Array (String × String)} {i : Nat} {key : String}
    (there : entries[i]?.map Prod.fst = some key) (line : String) (j : Nat) :
    (entries.setIfInBounds i (key, line))[j]? = if i = j then some (key, line)
      else entries[j]? := by
  have bound : i < entries.size := by
    obtain ⟨e, here, _⟩ := Option.map_eq_some_iff.mp there
    exact (Array.getElem?_eq_some_iff.mp here).1
  rw [Array.getElem?_setIfInBounds, if_pos bound]

theorem Indexed.insert {table : KeyedLines} (indexed : table.Indexed) (key line : String) :
    (table.insert key line).2.Indexed := by
  intro other j
  rcases insert_cases indexed key line with ⟨i, there, same⟩ | ⟨absent, unlisted, same⟩
  · rw [same, indexed other j, set_entry there]
    by_cases here : i = j
    · subst here
      simp [there]
    · simp [here]
  · rw [same, Std.HashMap.getElem?_insert, Array.getElem?_push]
    by_cases new : key = other
    · subst new
      by_cases last : j = table.entries.size
      · simp [last]
      · have missing := absent j
        simp [last, Ne.symm last, missing]
    · by_cases last : j = table.entries.size
      · subst last
        simp [new, indexed other]
      · simp [new, last, indexed other]

theorem Indexed.contains_iff {table : KeyedLines} (indexed : table.Indexed) (key : String) :
    table.contains key = true ↔ key ∈ table.entries.toList.map Prod.fst := by
  rw [contains, Std.HashMap.contains_eq_isSome_getElem?, Option.isSome_iff_exists,
    List.mem_iff_getElem?]
  constructor
  · rintro ⟨i, there⟩
    refine ⟨i, ?_⟩
    rw [List.getElem?_map, Array.getElem?_toList]
    exact (indexed key i).mp there
  · rintro ⟨i, there⟩
    rw [List.getElem?_map, Array.getElem?_toList] at there
    exact ⟨i, (indexed key i).mpr there⟩

theorem Indexed.insert_new {table : KeyedLines} (indexed : table.Indexed) {key : String}
    (absent : table.contains key = false) (line : String) :
    (table.insert key line).2.entries.toList = table.entries.toList ++ [(key, line)] := by
  rcases insert_cases indexed key line with ⟨i, there, _⟩ | ⟨_, _, same⟩
  · have known : table.contains key = true := by
      rw [contains, Std.HashMap.contains_eq_isSome_getElem?, (indexed key i).mpr there]
      rfl
    rw [absent] at known
    cases known
  · rw [same, Array.toList_push]

/-- The table holds what a history leaves: every key once, in the order in which the keys first came
up, with the line that it was last given. -/
structure Reflects (table : KeyedLines) (calls : List (String × String)) : Prop where
  indexed : table.Indexed
  entries : ∀ i : Nat, table.entries[i]?.map (fun e => (e.1, some e.2)) =
    (keysOf calls)[i]?.map fun key => (key, lastLine calls key)

namespace Reflects

variable {table : KeyedLines} {calls : List (String × String)}

theorem key_at (reflects : table.Reflects calls) (i : Nat) :
    table.entries[i]?.map Prod.fst = (keysOf calls)[i]? := by
  have both := congrArg (Option.map Prod.fst) (reflects.entries i)
  simpa [Option.map_map, Function.comp_def] using both

theorem keys_eq (reflects : table.Reflects calls) :
    table.entries.toList.map Prod.fst = keysOf calls := by
  apply List.ext_getElem?
  intro i
  rw [List.getElem?_map, Array.getElem?_toList, reflects.key_at]

theorem size_eq (reflects : table.Reflects calls) : table.entries.size = (keysOf calls).length := by
  rw [← reflects.keys_eq, List.length_map, Array.length_toList]

theorem mem_keysOf_iff (reflects : table.Reflects calls) (key : String) :
    key ∈ keysOf calls ↔ ∃ i : Nat, table.entries[i]?.map Prod.fst = some key := by
  rw [List.mem_iff_getElem?]
  simp only [reflects.key_at]

theorem insert (reflects : table.Reflects calls) (key line : String) :
    (table.insert key line).2.Reflects (calls ++ [(key, line)]) := by
  refine ⟨reflects.indexed.insert key line, ?_⟩
  intro j
  rw [keysOf_append]
  simp only [lastLine_append]
  rcases insert_cases reflects.indexed key line with ⟨i, there, same⟩ | ⟨absent, _, same⟩
  · have old : key ∈ keysOf calls := (reflects.mem_keysOf_iff key).mpr ⟨i, there⟩
    rw [same, if_pos old, set_entry there]
    by_cases here : i = j
    · subst here
      rw [← reflects.key_at, there]
      simp
    · -- Another place has another key, so its line is not touched.
      rw [if_neg here, reflects.entries j]
      cases other : (keysOf calls)[j]? with
      | none => rfl
      | some name =>
        have differ : name ≠ key := by
          rintro rfl
          rw [← reflects.key_at] at other
          exact here (reflects.indexed.place_unique there other)
        simp [differ]
  · have new : key ∉ keysOf calls := fun old => by
      obtain ⟨i, there⟩ := (reflects.mem_keysOf_iff key).mp old
      exact absent i there
    rw [same, if_neg new, Array.getElem?_push]
    by_cases last : j = table.entries.size
    · have at_end := reflects.size_eq
      simp [last, at_end]
    · have differ : ∀ name, (keysOf calls)[j]? = some name → name ≠ key := by
        rintro name here rfl
        exact new (List.mem_of_getElem? here)
      rw [if_neg last, reflects.entries j, List.getElem?_append]
      have size := reflects.size_eq
      split
      · cases other : (keysOf calls)[j]? with
        | none => rfl
        | some name => simp [differ name other]
      · rename_i beyond
        have out : (keysOf calls)[j]? = none := List.getElem?_eq_none (by omega)
        have past : [key][j - (keysOf calls).length]? = none :=
          List.getElem?_eq_none (by simp; omega)
        rw [out, past]
        rfl

end Reflects

theorem reflects_afterAll (calls : List (String × String)) : (afterAll calls).Reflects calls := by
  have run : ∀ (more calls : List (String × String)) (table : KeyedLines), table.Reflects calls →
      (more.foldl (fun table call => (table.insert call.1 call.2).2) table).Reflects
        (calls ++ more) := by
    intro more
    induction more with
    | nil =>
      intro calls table reflects
      rw [List.append_nil]
      exact reflects
    | cons call rest ih =>
      intro calls table reflects
      have further := ih (calls ++ [call]) _ (reflects.insert call.1 call.2)
      rw [List.append_assoc] at further
      exact further
  have start : empty.Reflects [] := ⟨indexed_empty, fun i => by simp [empty, keysOf]⟩
  exact run calls [] empty start

theorem lines_afterAll (calls : List (String × String)) :
    (afterAll calls).lines.map some = (keysOf calls).map (lastLine calls) := by
  apply List.ext_getElem?
  intro i
  have here := congrArg (Option.map Prod.snd) ((reflects_afterAll calls).entries i)
  simpa [lines, Option.map_map, Function.comp_def] using here

theorem contains_afterAll (calls : List (String × String)) (key : String) :
    (afterAll calls).contains key = true ↔ key ∈ calls.map Prod.fst := by
  have reflects := reflects_afterAll calls
  rw [← mem_keysOf, reflects.mem_keysOf_iff, contains, Std.HashMap.contains_eq_isSome_getElem?,
    Option.isSome_iff_exists]
  simp only [reflects.indexed key]

end KeyedLines
end BlockSketch
