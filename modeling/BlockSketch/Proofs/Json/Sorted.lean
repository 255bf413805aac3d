import BlockSketch.Json.Parse

/-
Objects with their members in order. A value that was read from text has the members of each object
sorted by name, and no name twice, at every depth.
-/
namespace BlockSketch.Json

inductive Sorted : Json → Prop where
  | null : Sorted .null
  | bool (b : Bool) : Sorted (.bool b)
  | number (n : JsonNumber) : Sorted (.number n)
  | string (s : String) : Sorted (.string s)
  | array {items : List Json} (each : ∀ v ∈ items, Sorted v) : Sorted (.array items)
  | object {members : List (String × Json)} (ordered : members.Pairwise (fun a b => a.1 < b.1))
      (each : ∀ m ∈ members, Sorted m.2) : Sorted (.object members)

theorem Sorted.single {v : Json} (sorted : v.Sorted) (name : String) :
    Sorted (.object [(name, v)]) :=
  Sorted.object (List.pairwise_singleton _ _) (by simpa using sorted)

theorem Sorted.pair {v w : Json} (first : v.Sorted) (second : w.Sorted) {a b : String}
    (before : a < b) : Sorted (.object [(a, v), (b, w)]) :=
  Sorted.object (List.pairwise_pair.mpr before) (by simpa using ⟨first, second⟩)

theorem mem_of_find? {name : String} {members : List (String × Json)} {v : Json}
    (found : find? name members = some v) : (name, v) ∈ members := by
  induction members with
  | nil => cases found
  | cons m rest ih =>
    obtain ⟨key, value⟩ := m
    simp only [find?] at found
    split at found
    · rename_i same
      cases found
      rw [same]
      exact List.mem_cons_self
    · exact List.mem_cons_of_mem _ (ih found)

inductive KeysApart : Json → Prop where
  | null : KeysApart .null
  | bool (b : Bool) : KeysApart (.bool b)
  | number (n : JsonNumber) : KeysApart (.number n)
  | string (s : String) : KeysApart (.string s)
  | array {items : List Json} (each : ∀ v ∈ items, KeysApart v) : KeysApart (.array items)
  | object {members : List (String × Json)} (apart : members.Pairwise (fun a b => a.1 ≠ b.1))
      (each : ∀ m ∈ members, KeysApart m.2) : KeysApart (.object members)

theorem Sorted.keysApart {v : Json} (sorted : v.Sorted) : v.KeysApart := by
  induction sorted with
  | null => exact KeysApart.null
  | bool b => exact KeysApart.bool b
  | number n => exact KeysApart.number n
  | string s => exact KeysApart.string s
  | array each ih => exact KeysApart.array ih
  | object ordered each ih =>
    refine KeysApart.object (ordered.imp ?_) ih
    intro a b before same
    exact String.lt_irrefl _ (same ▸ before)

structure Inherited (P : Json → Prop) : Prop where
  item : ∀ {items : List Json}, P (.array items) → ∀ v ∈ items, P v
  member : ∀ {members : List (String × Json)}, P (.object members) → ∀ m ∈ members, P m.2

theorem sorted_inherited : Inherited Sorted where
  item | .array each => each
  member | .object _ each => each

theorem keysApart_inherited : Inherited KeysApart where
  item | .array each => each
  member | .object _ each => each

theorem Inherited.found {P : Json → Prop} (inherited : Inherited P) {v w : Json} {name : String}
    (holds : P v) (found : v.member? name = some w) : P w := by
  cases v with
  | object members => exact inherited.member holds _ (mem_of_find? found)
  | _ => cases found

/-! Sorting the members of an object -/

theorem mem_of_mem_keepLast {members : List (String × Json)} {m : String × Json}
    (kept : m ∈ keepLast members) : m ∈ members := by
  fun_induction keepLast members with
  | case1 => exact kept
  | case2 a => exact kept
  | case3 a b rest same ih => exact List.mem_cons_of_mem _ (ih kept)
  | case4 a b rest different ih =>
    rcases List.mem_cons.mp kept with rfl | later
    · exact List.mem_cons_self
    · exact List.mem_cons_of_mem _ (ih later)

theorem keepLast_increases {members : List (String × Json)}
    (ordered : members.Pairwise (fun a b => a.1 ≤ b.1)) :
    (keepLast members).Pairwise (fun a b => a.1 < b.1) := by
  fun_induction keepLast members with
  | case1 => exact List.Pairwise.nil
  | case2 a => exact List.pairwise_singleton _ a
  | case3 a b rest same ih => exact ih ordered.of_cons
  | case4 a b rest different ih =>
    refine List.Pairwise.cons ?_ (ih ordered.of_cons)
    intro m kept
    have next : a.1 < b.1 :=
      String.not_le.mp fun back =>
        different (String.le_antisymm (List.rel_of_pairwise_cons ordered List.mem_cons_self) back)
    rcases List.mem_cons.mp (mem_of_mem_keepLast kept) with rfl | later
    · exact next
    · have onwards := List.rel_of_pairwise_cons ordered.of_cons later
      exact String.not_le.mp fun back => String.not_le.mpr next (String.le_trans onwards back)

theorem sortMembers_increases (members : List (String × Json)) :
    (sortMembers members).Pairwise (fun a b => a.1 < b.1) := by
  have transitive : ∀ a b c : String × Json,
      decide (a.1 ≤ b.1) = true → decide (b.1 ≤ c.1) = true → decide (a.1 ≤ c.1) = true := by
    intro a b c first second
    exact decide_eq_true (String.le_trans (of_decide_eq_true first) (of_decide_eq_true second))
  have total : ∀ a b : String × Json, (decide (a.1 ≤ b.1) || decide (b.1 ≤ a.1)) = true := by
    intro a b
    simpa only [Bool.or_eq_true, decide_eq_true_eq] using String.le_total a.1 b.1
  have sorted := List.pairwise_mergeSort transitive total members
  exact keepLast_increases (sorted.imp of_decide_eq_true)

theorem sorted_sortMembers {members : List (String × Json)} (each : ∀ m ∈ members, m.2.Sorted) :
    (object (sortMembers members)).Sorted :=
  Sorted.object (sortMembers_increases members)
    fun m kept => each m (List.mem_mergeSort.mp (mem_of_mem_keepLast kept))

/-! Reading text -/

def Token.Sorted : Token → Prop
  | .scalar value => value.Sorted
  | _ => True

theorem Token.word_sorted {value : Json} (sorted : value.Sorted) {expected cs rest : List Char}
    {token : Token} (read : word value expected cs = .ok (token, rest)) : token.Sorted := by
  fun_induction word value expected cs with
  | case1 cs =>
    cases read
    exact sorted
  | case2 => cases read
  | case3 e expected rest ih => exact ih read
  | case4 => cases read

theorem exists_of_bind_ok {ε α β : Type} {x : Except ε α} {f : α → Except ε β} {b : β}
    (done : (x >>= f) = .ok b) : ∃ a, x = .ok a ∧ f a = .ok b := by
  cases x with
  | error e => cases done
  | ok a => exact ⟨a, rfl, done⟩

theorem Token.number_sorted {minus : Bool} {cs rest : List Char} {token : Token}
    (read : number minus cs = .ok (token, rest)) : token.Sorted := by
  obtain ⟨whole, _, read⟩ := exists_of_bind_ok read
  obtain ⟨frac, _, read⟩ := exists_of_bind_ok read
  obtain ⟨exp, _, read⟩ := exists_of_bind_ok read
  obtain ⟨value, _, read⟩ := exists_of_bind_ok read
  cases read
  exact Sorted.number value

theorem Token.startingWith_sorted {fuel : Nat} {c : Char} {cs rest : List Char} {token : Token}
    (read : startingWith fuel c cs = .ok (token, rest)) : token.Sorted := by
  unfold startingWith at read
  split at read
  case h_7 =>
    obtain ⟨s, _, read⟩ := exists_of_bind_ok read
    cases read
    trivial
  case h_8 => exact word_sorted Sorted.null read
  case h_9 => exact word_sorted (Sorted.bool true) read
  case h_10 => exact word_sorted (Sorted.bool false) read
  case h_11 => exact number_sorted read
  case h_12 =>
    split at read
    · exact number_sorted read
    · cases read
  all_goals
    cases read
    trivial

/-- The values that wait in a container are sorted; its own members need not be yet. -/
def Frame.Sorted : Frame → Prop
  | .items done => ∀ v ∈ done, v.Sorted
  | .member done _ => ∀ m ∈ done, m.2.Sorted

def Expect.Sorted : Expect → Prop
  | .itemEnd done => ∀ v ∈ done, v.Sorted
  | .name done _ => ∀ m ∈ done, m.2.Sorted
  | .colon done _ => ∀ m ∈ done, m.2.Sorted
  | .memberEnd done => ∀ m ∈ done, m.2.Sorted
  | _ => True

def Progress.Sorted : Progress → Prop
  | .more stack expect => (∀ frame ∈ stack, frame.Sorted) ∧ expect.Sorted
  | .done value => value.Sorted

theorem complete_sorted {value : Json} {stack : List Frame} (sorted : value.Sorted)
    (below : ∀ frame ∈ stack, frame.Sorted) : (complete value stack).Sorted := by
  cases stack with
  | nil => exact sorted
  | cons frame stack =>
    have top := below frame List.mem_cons_self
    have deeper : ∀ frame ∈ stack, frame.Sorted :=
      fun f later => below f (List.mem_cons_of_mem _ later)
    cases frame with
    | items done => exact ⟨deeper, List.forall_mem_cons.mpr ⟨sorted, top⟩⟩
    | member done name => exact ⟨deeper, List.forall_mem_cons.mpr ⟨sorted, top⟩⟩

theorem startValue_sorted {limit : DepthLimit} {stack : List Frame} {token : Token}
    {next : Progress} (sorted : token.Sorted) (below : ∀ frame ∈ stack, frame.Sorted)
    (started : startValue limit stack token = .ok next) : next.Sorted := by
  cases token with
  | scalar value =>
    cases started
    exact complete_sorted sorted below
  | text s =>
    cases started
    exact complete_sorted (Sorted.string s) below
  | openArray =>
    simp only [startValue] at started
    split at started
    · cases started
      exact ⟨below, trivial⟩
    · cases started
  | openObject =>
    simp only [startValue] at started
    split at started
    · cases started
      exact ⟨below, List.forall_mem_nil _⟩
    · cases started
  | _ => cases started

theorem feed_sorted {limit : DepthLimit} {stack : List Frame} {expect : Expect} {token : Token}
    {next : Progress} (sorted : token.Sorted) (below : ∀ frame ∈ stack, frame.Sorted)
    (here : expect.Sorted) (fed : feed limit stack expect token = .ok next) : next.Sorted := by
  unfold feed at fed
  split at fed
  · exact startValue_sorted sorted below fed
  · cases fed
    exact complete_sorted (Sorted.array (List.forall_mem_nil _)) below
  · have opened : (Frame.items []).Sorted := List.forall_mem_nil _
    exact startValue_sorted sorted (List.forall_mem_cons.mpr ⟨opened, below⟩) fed
  · cases fed
    exact ⟨List.forall_mem_cons.mpr ⟨here, below⟩, trivial⟩
  · cases fed
    exact complete_sorted (Sorted.array fun v member => here v (List.mem_reverse.mp member)) below
  · cases fed
    exact ⟨below, here⟩
  · cases fed
    exact complete_sorted (Sorted.object List.Pairwise.nil (List.forall_mem_nil _)) below
  · cases fed
    exact ⟨List.forall_mem_cons.mpr ⟨here, below⟩, trivial⟩
  · cases fed
    exact ⟨below, here⟩
  · cases fed
    exact complete_sorted (sorted_sortMembers fun m member => here m (List.mem_reverse.mp member))
      below
  · cases fed

theorem readFuel_sorted {limit : DepthLimit} {fuel : Nat} {stack : List Frame} {expect : Expect}
    {cs rest : List Char} {value : Json} (below : ∀ frame ∈ stack, frame.Sorted)
    (here : expect.Sorted)
    (read : readFuel Token.startingWith limit fuel stack expect cs = .ok (value, rest)) :
    value.Sorted := by
  induction fuel generalizing stack expect cs with
  | zero => cases read
  | succ fuel ih =>
    unfold readFuel at read
    split at read
    · cases read
    · split at read
      · cases read
      · split at read
        · cases read
        · rename_i token after lexed
          have sorted := Token.startingWith_sorted lexed
          split at read
          · cases read
          · rename_i stack' expect' fed
            obtain ⟨below', here'⟩ := feed_sorted sorted below here fed
            exact ih below' here' read
          · rename_i value' fed
            cases read
            exact feed_sorted sorted below here fed

/-- A value that was read from text is sorted at every depth. -/
theorem sorted_of_parse {text : String} {value : Json} (parsed : parse text = .ok value) :
    value.Sorted := by
  obtain ⟨⟨read, rest⟩, first, parsed⟩ := exists_of_bind_ok parsed
  dsimp only at parsed
  split at parsed
  · cases parsed
    have start : Expect.Sorted .value := trivial
    exact readFuel_sorted (List.forall_mem_nil _) start first
  · cases parsed

end BlockSketch.Json
