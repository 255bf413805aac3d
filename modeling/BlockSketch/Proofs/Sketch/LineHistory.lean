import BlockSketch.Proofs.Sketch.KeyedLines
import Mathlib.Data.List.Forall2
import Mathlib.Data.List.Induction

/-
What a history of insertions says about a table of lines. Which line a key was given last and which
of two keys came up first are read off the history alone. The lines of the table, its answers to a
key and what each of the insertions gave back all follow from these.
-/
namespace BlockSketch.KeyedLines

variable {table : KeyedLines} {calls : List (String × String)} {key other line : String}

def keys (table : KeyedLines) : List String := table.entries.toList.map Prod.fst

def replies (table : KeyedLines) : List (String × String) → List (Option String)
  | [] => []
  | (key, line) :: rest => (table.insert key line).1 :: (table.insert key line).2.replies rest

/-- The key was given the line, and no other after it. -/
def LastGiven (calls : List (String × String)) (key line : String) : Prop :=
  ∃ earlier later, calls = earlier ++ (key, line) :: later ∧ ∀ call ∈ later, call.1 ≠ key

/-- The key came up at a time when the other had not. -/
def FirstBefore (calls : List (String × String)) (key other : String) : Prop :=
  ∃ earlier line later, calls = earlier ++ (key, line) :: later ∧ key ≠ other ∧
    ∀ call ∈ earlier, call.1 ≠ other

/-! The last line of a key -/

theorem lastLine_eq_some_iff : lastLine calls key = some line ↔ LastGiven calls key line := by
  rw [lastLine, List.lookup_eq_some_iff]
  constructor
  · rintro ⟨later, earlier, same, others⟩
    refine ⟨earlier.reverse, later.reverse, ?_, ?_⟩
    · rw [← List.reverse_inj, same]
      simp
    · intro call member
      have differ := others call (List.mem_reverse.mp member)
      exact Ne.symm (bne_iff_ne.mp differ)
  · rintro ⟨earlier, later, rfl, others⟩
    refine ⟨later.reverse, earlier.reverse, by simp, ?_⟩
    intro call member
    exact bne_iff_ne.mpr (Ne.symm (others call (List.mem_reverse.mp member)))

theorem lastLine_eq_none_iff : lastLine calls key = none ↔ key ∉ calls.map Prod.fst := by
  rw [lastLine, List.lookup_eq_none_iff, List.mem_map]
  constructor
  · rintro others ⟨call, member, rfl⟩
    exact bne_iff_ne.mp (others call (List.mem_reverse.mpr member)) rfl
  · intro unlisted call member
    exact bne_iff_ne.mpr fun same => unlisted ⟨call, List.mem_reverse.mp member, same.symm⟩

/-! The order of the keys -/

theorem FirstBefore.append (first : FirstBefore calls key other) (more : List (String × String)) :
    FirstBefore (calls ++ more) key other := by
  obtain ⟨earlier, line, later, rfl, differ, unlisted⟩ := first
  exact ⟨earlier, line, later ++ more, by simp, differ, unlisted⟩

theorem firstBefore_new (old : key ∈ calls.map Prod.fst) (new : other ∉ calls.map Prod.fst) :
    FirstBefore calls key other := by
  obtain ⟨⟨key, line⟩, member, rfl⟩ := List.mem_map.mp old
  obtain ⟨earlier, later, same⟩ := List.append_of_mem member
  refine ⟨earlier, line, later, same, ?_, ?_⟩
  · rintro rfl
    exact new old
  · rintro call before rfl
    exact new (List.mem_map_of_mem (same ▸ List.mem_append_left _ before))

/-- The keys of a history stand in the order of their first insertion. -/
theorem keysOf_ordered (calls : List (String × String)) :
    (keysOf calls).Pairwise (FirstBefore calls) := by
  induction calls using List.reverseRecOn with
  | nil => exact List.Pairwise.nil
  | append_singleton calls call ih =>
    obtain ⟨key, line⟩ := call
    have kept : (keysOf calls).Pairwise (FirstBefore (calls ++ [(key, line)])) :=
      ih.imp fun first => first.append [(key, line)]
    rw [keysOf_append]
    split
    · exact kept
    · -- A new key goes to the end, and all others have come up before it.
      rename_i new
      rw [List.pairwise_append]
      refine ⟨kept, List.pairwise_singleton _ _, ?_⟩
      intro old listed last member
      rw [List.mem_singleton.mp member]
      rw [mem_keysOf] at listed new
      exact (firstBefore_new listed new).append [(key, line)]

/-! What the table answers -/

theorem Reflects.get?_eq (reflects : table.Reflects calls) (key : String) :
    table.get? key = lastLine calls key := by
  rw [get?]
  cases found : table.index[key]? with
  | none =>
    have unlisted : key ∉ keysOf calls := by
      rw [reflects.mem_keysOf_iff]
      rintro ⟨i, there⟩
      rw [(reflects.indexed key i).mpr there] at found
      cases found
    exact (lastLine_eq_none_iff.mpr fun listed => unlisted (mem_keysOf.mpr listed)).symm
  | some i =>
    have there := (reflects.indexed key i).mp found
    have listed : (keysOf calls)[i]? = some key := (reflects.key_at i).symm.trans there
    have entry := reflects.entries i
    obtain ⟨e, here, _⟩ := Option.map_eq_some_iff.mp there
    rw [listed, here, Option.map_some, Option.map_some, Option.some.injEq, Prod.mk.injEq] at entry
    rw [Option.bind_some, here, Option.map_some]
    exact entry.2

theorem insert_fst (table : KeyedLines) (key line : String) :
    (table.insert key line).1 = table.get? key := by
  rw [insert, get?]
  cases table.index[key]? <;> rfl

theorem Reflects.replies_getElem? (reflects : table.Reflects calls) (more : List (String × String))
    (i : Nat) :
    (table.replies more)[i]? = more[i]?.map fun call => lastLine (calls ++ more.take i) call.1 := by
  induction more generalizing table calls i with
  | nil => rfl
  | cons call rest ih =>
    obtain ⟨key, line⟩ := call
    cases i with
    | zero =>
      simp only [replies, List.getElem?_cons_zero, Option.map_some, List.take_zero, List.append_nil]
      rw [insert_fst, reflects.get?_eq]
    | succ i =>
      -- For the insertions that follow, this one is part of the history.
      have later := ih (reflects.insert key line) i
      rw [List.append_assoc] at later
      exact later

theorem Indexed.getElem?_iff (indexed : table.Indexed) (key : String) (i : Nat) :
    table.index[key]? = some i ↔ ∃ inRange : i < table.entries.size, table.entries[i].1 = key := by
  rw [indexed key i, Option.map_eq_some_iff]
  constructor
  · rintro ⟨e, here, same⟩
    obtain ⟨inRange, there⟩ := Array.getElem?_eq_some_iff.mp here
    exact ⟨inRange, there ▸ same⟩
  · rintro ⟨inRange, same⟩
    exact ⟨table.entries[i], Array.getElem?_eq_getElem inRange, same⟩

theorem lines_lastGiven (calls : List (String × String)) :
    List.Forall₂ (LastGiven calls) (keysOf calls) (afterAll calls).lines := by
  have same :
      List.Forall₂ Eq ((keysOf calls).map (lastLine calls)) ((afterAll calls).lines.map some) := by
    rw [← lines_afterAll, List.forall₂_eq_eq_eq]
  rw [List.forall₂_map_left_iff, List.forall₂_map_right_iff] at same
  exact same.imp fun _ _ => lastLine_eq_some_iff.mp

/-- After any history of insertions, the table has every key of the history once, in the order in
which the keys first came up, and with it the line that it was last given. It answers a key with
that line, and each insertion gave back what the table answered before it. The index has exactly the
keys of the entries, each with its place among them, so it never points beyond them. -/
theorem tables_keep_first_places_and_last_lines (calls : List (String × String)) :
    (∀ key, key ∈ (afterAll calls).keys ↔ key ∈ calls.map Prod.fst) ∧
    (afterAll calls).keys.Pairwise (FirstBefore calls) ∧
    List.Forall₂ (LastGiven calls) (afterAll calls).keys (afterAll calls).lines ∧
    (∀ key line, (afterAll calls).get? key = some line ↔ LastGiven calls key line) ∧
    (∀ key, (afterAll calls).get? key = none ↔ key ∉ calls.map Prod.fst) ∧
    (∀ i, (empty.replies calls)[i]? = calls[i]?.map fun call =>
      (afterAll (calls.take i)).get? call.1) ∧
    ∀ key i, (afterAll calls).index[key]? = some i ↔
      ∃ inRange : i < (afterAll calls).entries.size, (afterAll calls).entries[i].1 = key := by
  have reflects := reflects_afterAll calls
  have listed : (afterAll calls).keys = keysOf calls := reflects.keys_eq
  rw [listed]
  refine ⟨fun key => mem_keysOf, keysOf_ordered calls, lines_lastGiven calls, ?_, ?_, ?_, ?_⟩
  · intro key line
    rw [reflects.get?_eq, lastLine_eq_some_iff]
  · intro key
    rw [reflects.get?_eq, lastLine_eq_none_iff]
  · intro i
    have start : empty.Reflects [] := reflects_afterAll []
    rw [start.replies_getElem? calls i]
    simp only [List.nil_append, (reflects_afterAll (calls.take i)).get?_eq]
  · exact reflects.indexed.getElem?_iff

end BlockSketch.KeyedLines
