import BlockSketch.Files.Tree

/-
Reading back what was written. A file is only ever put where there is no directory, so every path
leads to the same place as before, and there the text is found again. The null device alone keeps
nothing of what is written to it.
-/
namespace BlockSketch

/-! Names at the end of paths -/

namespace Path

theorem split_last {cs : List Char} {c : Char} (last : cs.getLast? = some c) (name : c ≠ '/') :
    ∃ front part, split cs = front ++ [part] ∧ part.getLast? = some c := by
  induction cs with
  | nil => cases last
  | cons first rest ih =>
    cases rest with
    | nil =>
      obtain rfl : first = c := by simpa using last
      exact ⟨[], [first], by simp [split, name], rfl⟩
    | cons second rest =>
      rw [List.getLast?_cons_cons] at last
      obtain ⟨front, part, parts, ends⟩ := ih last
      unfold split at parts ⊢
      rw [List.foldr_cons, parts]
      by_cases slash : first = '/'
      · rw [if_pos slash]
        exact ⟨[] :: front, part, rfl, ends⟩
      · rw [if_neg slash]
        cases front with
        | nil =>
          refine ⟨[], first :: part, rfl, ?_⟩
          rw [List.getLast?_cons, ends]
          rfl
        | cons head front => exact ⟨(first :: head) :: front, part, rfl, ends⟩

theorem last_of_segments {path name : String} {front : List String} {c : Char}
    (last : path.toList.getLast? = some c) (inName : c ≠ '/')
    (parts : segments path = front ++ [name]) : name.toList.getLast? = some c := by
  obtain ⟨before, part, split, ends⟩ := split_last last inName
  unfold segments at parts
  rw [split, List.map_append, List.map_singleton] at parts
  have same := (List.append_inj' parts rfl).2
  rw [← (List.cons.inj same).1, String.toList_ofList]
  exact ends

end Path

namespace FileTree

variable {t u : FileTree}

/-! Directories stay -/

theorem node_insert_file {place q : Place} {text : String} (named : place ≠ [])
    (free : t.node? place ≠ some .directory) (there : t.node? q = some .directory) :
    (t.insert place (.file text)).node? q = some .directory := by
  unfold node? at free there ⊢
  split
  · rfl
  · rename_i below
    rw [if_neg below] at there
    rw [if_neg (by simpa using named)] at free
    have other : key place ≠ key q := by
      intro same
      rw [same] at free
      exact free there
    rw [insert, SortedMap.get?_insert, if_neg other]
    exact there

theorem walk_insert_file {place start q : Place} {text : String} {segments : List String}
    (named : place ≠ []) (free : t.node? place ≠ some .directory)
    (walked : t.walk start segments = .ok q) :
    (t.insert place (.file text)).walk start segments = .ok q := by
  induction segments generalizing start with
  | nil => exact walked
  | cons segment rest ih =>
    rw [walk] at walked ⊢
    cases there : t.node? start with
    | none =>
      rw [there] at walked
      cases walked
    | some node =>
      rw [there] at walked
      cases node with
      | file text => cases walked
      | sink => cases walked
      | directory =>
        rw [node_insert_file named free there]
        dsimp only at walked ⊢
        split at walked
        · cases walked
        · rename_i short
          rw [if_neg short]
          exact ih walked

theorem walk_append {start q : Place} {segments : List String} {name : String}
    (walked : t.walk start segments = .ok q) (inside : t.node? q = some .directory)
    (short : isTooLong name = false) : t.walk start (segments ++ [name]) = .ok (step q name) := by
  induction segments generalizing start with
  | nil =>
    cases walked
    simp [walk, inside, short]
  | cons segment rest ih =>
    rw [List.cons_append, walk]
    rw [walk] at walked
    cases there : t.node? start with
    | none =>
      rw [there] at walked
      cases walked
    | some node =>
      rw [there] at walked
      cases node with
      | file text => cases walked
      | sink => cases walked
      | directory =>
        dsimp only at walked ⊢
        split at walked
        · cases walked
        · rename_i fits
          rw [if_neg fits]
          exact ih walked

/-! What writing does -/

theorem dropTrailing_eq {segments : List String}
    (kept : ¬ (dropTrailing segments).length < segments.length) :
    dropTrailing segments = segments := by
  have before : dropTrailing segments <+: segments := by
    unfold dropTrailing
    have after := List.dropWhile_suffix (l := segments.reverse) fun s => decide (s = "")
    simpa using List.reverse_prefix.mpr after
  exact before.eq_of_length_le (by omega)

theorem dropTrailing_last {segments : List String} {name : String}
    (last : (dropTrailing segments).getLast? = some name) : name ≠ "" := by
  unfold dropTrailing at last
  rw [List.getLast?_reverse] at last
  have stop := List.head?_dropWhile_not (fun s : String => decide (s = "")) segments.reverse
  rw [last] at stop
  simpa using stop

structure Written (t : FileTree) (path text : String) (u : FileTree) : Prop where
  sound : pathFault? path = none
  place : ∃ front name directory, Path.segments path = front ++ [name] ∧ name ≠ "" ∧
    isDots name = false ∧
    isTooLong name = false ∧ t.walk (t.start path) front = .ok directory ∧
    t.node? directory = some .directory ∧ t.store (directory ++ [name]) text = .ok u

theorem written_of_write {path text : String} (done : t.write path text = .ok u) :
    t.Written path text u := by
  unfold write at done
  dsimp only at done
  cases sound : pathFault? path with
  | some f =>
    rw [sound] at done
    cases done
  | none =>
    rw [sound] at done
    dsimp only at done
    refine ⟨sound, ?_⟩
    generalize segments : Path.segments path = names at done ⊢
    cases found : t.directoryAt (t.start path) (dropTrailing names).dropLast with
    | error f =>
      rw [found] at done
      cases done
    | ok directory =>
      rw [found] at done
      dsimp only at done
      cases last : (dropTrailing names).getLast? with
      | none =>
        rw [last] at done
        cases done
      | some name =>
        rw [last] at done
        dsimp only at done
        split at done
        · cases done
        · rename_i plain
          simp only [Bool.or_eq_true, decide_eq_true_eq, not_or, Bool.not_eq_true] at plain
          have whole := dropTrailing_eq plain.2
          have named := dropTrailing_last last
          split at done
          · cases done
          · rename_i short
            rw [whole] at found last
            have parts : names = names.dropLast ++ [name] := by
              rw [List.getLast?_eq_some_iff] at last
              obtain ⟨front, rfl⟩ := last
              rw [List.dropLast_concat]
            have inside : t.walk (t.start path) names.dropLast = .ok directory ∧
                t.node? directory = some .directory := by
              unfold directoryAt at found
              cases walked : t.walk (t.start path) names.dropLast with
              | error f =>
                rw [walked] at found
                cases found
              | ok place =>
                rw [walked] at found
                dsimp only at found
                split at found
                · cases found
                · cases found
                · cases found
                · rename_i there
                  cases found
                  exact ⟨rfl, there⟩
            exact ⟨names.dropLast, name, directory, parts, named, plain.1,
              by simpa using short, inside.1, inside.2, done⟩

theorem step_name {place : Place} {name : String} (named : name ≠ "")
    (plain : isDots name = false) :
    step place name = place ++ [name] := by
  simp only [isDots, Bool.or_eq_false_iff, decide_eq_false_iff_not] at plain
  simp [step, named, plain]

/-! The null device -/

/-- Nothing but the null device keeps nothing of what is written to it. -/
def Ordinary (t : FileTree) : Prop := ∀ name, t.nodes.get? name = some .sink → name = "dev/null"

theorem Ordinary.insert (ordinary : t.Ordinary) {node : FileNode} (keeps : node ≠ .sink)
    (place : Place) : (t.insert place node).Ordinary := by
  intro name found
  rw [FileTree.insert, SortedMap.get?_insert] at found
  split at found
  · exact absurd (Option.some.inj found) keeps
  · exact ordinary name found

theorem key_last {directory : Place} {name : String} {c : Char}
    (last : name.toList.getLast? = some c) :
    (key (directory ++ [name])).toList.getLast? = some c := by
  unfold key
  induction directory with
  | nil =>
    rw [List.nil_append, String.intercalate_singleton]
    exact last
  | cons first rest ih =>
    obtain ⟨second, more, next⟩ : ∃ second more, rest ++ [name] = second :: more :=
      List.exists_cons_of_ne_nil (by simp)
    rw [List.cons_append, next, String.intercalate_cons_cons, String.toList_append, ← next,
      List.getLast?_append, ih]
    rfl

theorem node_ne_sink (ordinary : t.Ordinary) {directory : Place} {name : String} {c : Char}
    (last : name.toList.getLast? = some c) (other : c ≠ 'l') :
    t.node? (directory ++ [name]) ≠ some .sink := by
  intro null
  rw [node?, if_neg (by simp)] at null
  have ends := @key_last directory name c last
  rw [ordinary _ null] at ends
  exact other (Option.some.inj ends).symm

theorem read_write {path text : String} {c : Char} (ordinary : t.Ordinary)
    (last : path.toList.getLast? = some c) (inName : c ≠ '/') (other : c ≠ 'l')
    (done : t.write path text = .ok u) : u.read path = .ok text ∧ u.Ordinary := by
  obtain ⟨sound, front, name, directory, parts, named, plain, short, walked, inside, stored⟩ :=
    written_of_write done
  have keeps : t.node? (directory ++ [name]) ≠ some .sink :=
    node_ne_sink ordinary (Path.last_of_segments last inName parts) other
  have free : t.node? (directory ++ [name]) ≠ some .directory ∧
      u = t.insert (directory ++ [name]) (.file text) := by
    unfold store at stored
    split at stored
    · cases stored
    · rename_i null
      exact absurd null keeps
    · rename_i notDirectory _
      cases stored
      exact ⟨notDirectory, rfl⟩
  obtain ⟨free, rfl⟩ := free
  have nonempty : directory ++ [name] ≠ [] := by simp
  have there : (t.insert (directory ++ [name]) (.file text)).walk (t.start path) front =
      .ok directory :=
    walk_insert_file nonempty free walked
  have leads := walk_append there (node_insert_file nonempty free inside) short
  rw [step_name named plain] at leads
  have found : (t.insert (directory ++ [name]) (.file text)).node? (directory ++ [name]) =
      some (.file text) := by
    rw [node?, if_neg (by simp), insert, SortedMap.get?_insert, if_pos rfl]
  constructor
  · have begins : (t.insert (directory ++ [name]) (.file text)).start path = t.start path := rfl
    rw [read, sound, parts, begins]
    dsimp only
    rw [leads]
    dsimp only
    rw [found]
  · exact ordinary.insert (by simp) _

/-! Making directories -/

theorem ordinary_makeDirectory (ordinary : t.Ordinary) {start : Place} {segments : List String}
    (done : t.makeDirectory start segments = .ok u) : u.Ordinary := by
  unfold makeDirectory at done
  dsimp only at done
  split at done
  · cases done
  · split at done
    · cases done
    · split at done
      · cases done
      · split at done
        · cases done
        · split at done
          · cases done
          · cases done
            exact ordinary.insert (by simp) _

theorem ordinary_settle (ordinary : t.Ordinary) {start : Place} {segments : List String}
    (done : t.settle start segments (t.makeDirectory start segments) = .ok u) : u.Ordinary := by
  unfold settle at done
  split at done
  · rename_i made
    cases done
    exact ordinary_makeDirectory ordinary made
  · split at done
    · cases done
      exact ordinary
    · cases done

theorem ordinary_makeWithParents (ordinary : t.Ordinary) {start : Place}
    {segments above : List String} (done : t.makeWithParents start segments above = .ok u) :
    u.Ordinary := by
  induction above generalizing segments u with
  | nil => exact ordinary_settle ordinary done
  | cons name rest ih =>
    unfold makeWithParents at done
    split at done
    · split at done
      · cases done
      · rename_i made
        exact ordinary_settle (ih made) done
    · exact ordinary_settle ordinary done

theorem ordinary_makeDirectories (ordinary : t.Ordinary) {path : String}
    (done : t.makeDirectories path = .ok u) : u.Ordinary := by
  unfold makeDirectories at done
  split at done
  · cases done
    exact ordinary
  · split at done
    · cases done
    · exact ordinary_makeWithParents ordinary done

theorem ordinary_empty (working : Place) : (empty working).Ordinary := by
  have directories : ∀ (places : List Place) (t : FileTree), t.Ordinary →
      (places.foldl (fun t place => t.insert place .directory) t).Ordinary := by
    intro places
    induction places with
    | nil => exact fun t ordinary => ordinary
    | cons place rest ih => exact fun t ordinary => ih _ (ordinary.insert (by simp) place)
  intro name found
  unfold empty at found
  dsimp only at found
  rw [insert, SortedMap.get?_insert] at found
  split at found
  · rename_i null
    rw [← null]
    rfl
  · refine directories _ _ ?_ name found
    intro name found
    cases found

end FileTree
end BlockSketch
