import BlockSketch.Proofs.Sketch.Dispatch

/-
Conditionals that grow. Their number of branches is put together from a count in the block's state,
from the names of its filled sockets, and from a limit. It is always enough: no filled socket within
the limit is passed over. The branches are taken in turn, each asking for its condition and then for
its statements, and what is in the sockets is dispatched once and in this order.
-/
namespace BlockSketch

namespace SortedMap

variable {α : Type}

theorem mem_keys {m : SortedMap α} {key : String} :
    key ∈ m.keys ↔ ∃ value, m.get? key = some value := by
  unfold keys get?
  generalize m.entries = entries
  induction entries with
  | nil => simp [lookup]
  | cons e rest ih =>
    obtain ⟨k, v⟩ := e
    rw [List.map_cons, List.mem_cons, lookup, ih]
    by_cases same : k = key
    · simp [same]
    · simp [same, Ne.symm same]

end SortedMap

/-! The number of branches -/

def Block.Filled (b : Block) (socket : String) : Prop :=
  ∃ child, b.child? (.value socket) = some child ∨ b.child? (.statement socket) = some child

theorem Block.filled_iff {b : Block} {socket : String} :
    b.Filled socket ↔ socket ∈ b.values.keys ++ b.statements.keys := by
  rw [List.mem_append, SortedMap.mem_keys, SortedMap.mem_keys]
  exact exists_or

namespace Rules

/-- The socket is named for the branch of this number, in any spelling that a number has. -/
inductive NamedFor : String → Nat → Prop where
  | condition {number : String} {n : Nat}
      (spelled : Text.natural? Text.wordCount number.toList = some n) :
      NamedFor ("IF" ++ number) n
  | body {number : String} {n : Nat}
      (spelled : Text.natural? Text.wordCount number.toList = some n) :
      NamedFor ("DO" ++ number) n

theorem branchNumber_iff {socket : String} {n : Nat} :
    branchNumber? socket = some n ↔ NamedFor socket n := by
  constructor
  · intro found
    unfold branchNumber? at found
    have whole : String.ofList socket.toList = socket := String.ofList_toList
    split at found
    · rename_i number chars
      rw [chars] at whole
      rw [← whole, show 'I' :: 'F' :: number = ['I', 'F'] ++ number from rfl, String.ofList_append]
      exact NamedFor.condition (by rw [String.toList_ofList]; exact found)
    · rename_i number chars
      rw [chars] at whole
      rw [← whole, show 'D' :: 'O' :: number = ['D', 'O'] ++ number from rfl, String.ofList_append]
      exact NamedFor.body (by rw [String.toList_ofList]; exact found)
    · cases found
  · intro named
    cases named with
    | condition spelled => simpa [branchNumber?] using spelled
    | body spelled => simpa [branchNumber?] using spelled

theorem natural_repr {n bound : Nat} (small : n < bound) :
    Text.natural? bound (toString n).toList = some n := by
  change Text.natural? bound n.repr.toList = some n
  unfold Text.natural?
  split
  · rename_i rest same
    have signed : '+' ∈ n.repr.toList := same ▸ List.mem_cons_self
    exact absurd (Text.isDigit_of_mem_repr signed) (by decide)
  · rw [Text.digits?_repr]
    simp [small]

structure Highest (b : Block) (p : Nat) : Prop where
  above : ∀ socket n, b.Filled socket → NamedFor socket n → n ≤ p
  reached : p = 0 ∨ ∃ socket, b.Filled socket ∧ NamedFor socket p

theorem Highest.unique {b : Block} {p q : Nat} (first : Highest b p) (second : Highest b q) :
    p = q := by
  have below : ∀ {m n}, Highest b m → Highest b n → m ≤ n := by
    intro m n low high
    rcases low.reached with rfl | ⟨socket, filled, named⟩
    · exact Nat.zero_le n
    · exact high.above socket m filled named
  exact Nat.le_antisymm (below first second) (below second first)

theorem highest_highestBranch (b : Block) : Highest b (highestBranch b) := by
  have member : ∀ n, n ∈ (b.values.keys ++ b.statements.keys).filterMap branchNumber? ↔
      ∃ socket, b.Filled socket ∧ NamedFor socket n := by
    intro n
    simp only [List.mem_filterMap, Block.filled_iff, branchNumber_iff]
  unfold highestBranch
  generalize (b.values.keys ++ b.statements.keys).filterMap branchNumber? = numbers at member
  rw [List.foldl_max, Nat.zero_max]
  cases largest : numbers.max? with
  | none =>
    rw [List.max?_eq_none_iff.mp largest] at member
    refine ⟨fun socket n filled named => ?_, Or.inl rfl⟩
    exact absurd ((member n).mpr ⟨socket, filled, named⟩) List.not_mem_nil
  | some p =>
    obtain ⟨listed, above⟩ := List.max?_eq_some_iff.mp largest
    exact ⟨fun socket n filled named => above n ((member n).mpr ⟨socket, filled, named⟩),
      Or.inr ((member p).mp listed)⟩

theorem number_of_natural {v : Json} {n : Nat}
    (read : v.number?.bind JsonNumber.natural? = some n) :
    v = .number (.int n) := by
  obtain ⟨x, number, natural⟩ := Option.bind_eq_some_iff.mp read
  cases v with
  | number y =>
    cases number
    cases x with
    | float x => cases natural
    | int k =>
      rw [JsonNumber.natural?] at natural
      split at natural
      · cases natural
      · have same : k.toNat = n := Option.some.inj natural
        rw [show k = n by omega]
  | null | bool _ | string _ | array _ | object _ => cases number

/-- The number of further branches that the state of a block asks for. Only an unsigned integer
counts. -/
inductive Declares : Option Json → Nat → Prop where
  | count {state : Json} {n : Nat}
      (member : state.member? "elseIfCount" = some (.number (.int n))) :
      Declares (some state) n
  | nothing {state : Option Json}
      (other : ∀ s (n : Nat), state = some s → s.member? "elseIfCount" ≠ some (.number (.int n))) :
      Declares state 0

theorem Declares.unique {state : Option Json} {m n : Nat} (first : Declares state m)
    (second : Declares state n) : m = n := by
  cases first with
  | count member =>
    cases second with
    | count again =>
      have same := Option.some.inj (member.symm.trans again)
      injection same with same
      injection same with same
      exact Int.ofNat.inj same
    | nothing other => exact absurd member (other _ _ rfl)
  | nothing other =>
    cases second with
    | count member => exact absurd member (other _ _ rfl)
    | nothing _ => rfl

theorem declares_declaredElseIfs (b : Block) : Declares b.extraState (declaredElseIfs b) := by
  unfold declaredElseIfs
  cases b.extraState with
  | none => exact Declares.nothing nofun
  | some state =>
    rw [Option.bind_some]
    by_cases declared : ∃ n : Nat, state.member? "elseIfCount" = some (.number (.int n))
    · obtain ⟨n, member⟩ := declared
      have read : JsonNumber.natural? (.int n) = some n := by simp [JsonNumber.natural?]
      rw [member, Option.bind_some, Json.number?, Option.bind_some, read]
      exact Declares.count member
    · have nothing : ((state.member? "elseIfCount").bind Json.number?).bind JsonNumber.natural? =
          none := by
        rw [Option.eq_none_iff_forall_not_mem]
        intro n found
        rw [Option.bind_assoc] at found
        obtain ⟨v, member, read⟩ := Option.bind_eq_some_iff.mp found
        exact declared ⟨n, number_of_natural read ▸ member⟩
      rw [nothing]
      refine Declares.nothing fun s n same member => declared ⟨n, ?_⟩
      rw [Option.some.inj same]
      exact member

theorem branchCount_eq (b : Block) :
    branchCount b = min 257 (1 + max (declaredElseIfs b) (highestBranch b)) := by
  unfold branchCount maxElseIf
  omega

theorem lt_branchCount {b : Block} {socket : String} {i : Nat} (filled : b.Filled socket)
    (named : NamedFor socket i) (within : i < 257) : i < branchCount b := by
  have high := (highest_highestBranch b).above socket i filled named
  rw [branchCount_eq]
  omega

theorem hasElse_iff {b : Block} : hasElse b = true ↔
    (∃ state, b.extraState = some state ∧ state.member? "hasElse" = some (.bool true)) ∨
      ∃ child, b.child? (.statement "ELSE") = some child := by
  have truth : ∀ v : Json, v.bool? = some true ↔ v = .bool true := by
    intro v
    cases v <;> simp [Json.bool?]
  rw [hasElse, Bool.or_eq_true, decide_eq_true_eq, SortedMap.contains, Option.isSome_iff_exists,
    Option.bind_assoc, Option.bind_eq_some_iff]
  simp only [Option.bind_eq_some_iff, truth, exists_eq_right]
  rfl

end Rules

/-! The text of a conditional -/

namespace Layout

def ifArm (part : String × String) : String := "if (" ++ part.1 ++ ") \x7b\n" ++ indent part.2

def elseArm (body : String) : String := "\x7b\n" ++ indent body

def ifStatement (branches : List (String × String)) (otherwise : Option String) : String :=
  "\x7d else ".intercalate (branches.map ifArm ++ (otherwise.map elseArm).toList) ++ "\x7d\n"

theorem intercalate_cons (separator first : String) (rest : List String) :
    separator.intercalate (first :: rest) = first ++ String.join (rest.map (separator ++ ·)) := by
  induction rest generalizing first with
  | nil => simp
  | cons second rest ih => rw [String.intercalate_cons_cons, ih, List.map_cons, String.join_cons,
      String.append_assoc, String.append_assoc]

theorem intercalate_concat (separator : String) {parts : List String} (some : parts ≠ [])
    (last : String) :
    separator.intercalate (parts ++ [last]) = separator.intercalate parts ++ separator ++ last := by
  cases parts with
  | nil => exact absurd rfl some
  | cons first rest =>
    rw [List.cons_append, intercalate_cons, intercalate_cons, List.map_append, String.join_append]
    simp [String.append_assoc]

theorem append_elseArm (code body : String) :
    code ++ "\x7d else " ++ elseArm body = code ++ "\x7d else \x7b\n" ++ indent body := by
  rw [elseArm, ← String.append_assoc, @String.append_assoc code]
  rfl

end Layout

namespace Generator

variable {g : Generator} {b : Block}

/-- The condition in a value socket: the expression that the block in it gives, and `false` if the
socket is empty or the block gives none. -/
inductive Condition (g : Generator) (b : Block) (socket : String) (r : Run) :
    String → Run → Prop where
  | given {child : BlockId} {code : String} {order : Order} {r' : Run}
      (held : b.child? (.value socket) = some child)
      (emitted : g.emit child r = (.expression code order, r')) (written : code ≠ "") :
      Condition g b socket r (Operand.ofExpression .loosest code order).wrapped r'
  | vacant (empty : b.child? (.value socket) = none) : Condition g b socket r "false" r
  | unusable {child : BlockId} {e : Emission} {r' r'' : Run}
      (held : b.child? (.value socket) = some child) (emitted : g.emit child r = (e, r'))
      (nothing : e.text = "" ∨ e.IsStatement) (after : r'' = r' ∨ ∃ d, r'' = r'.warn d) :
      Condition g b socket r "false" r''

theorem condition_operandOf (g : Generator) (b : Block) (socket : String) (r : Run) :
    g.Condition b socket r (g.operandOf b socket .loosest "false" r).1.wrapped
      (g.operandOf b socket .loosest "false" r).2 := by
  unfold operandOf resolve
  cases held : b.values.get? socket with
  | none => exact Condition.vacant held
  | some child =>
    dsimp only
    cases emitted : g.emit child r with
    | mk e r' =>
      cases e with
      | expression code order =>
        by_cases blank : code = ""
        · simp only [if_pos blank]
          exact Condition.unusable held emitted (Or.inl blank) (Or.inl rfl)
        · simp only [if_neg blank]
          exact Condition.given held emitted blank
      | statement code =>
        by_cases blank : code = ""
        · simp only [if_pos blank]
          exact Condition.unusable held emitted (Or.inl blank) (Or.inl rfl)
        · simp only [if_neg blank]
          exact Condition.unusable held emitted (Or.inr trivial) (Or.inr ⟨_, rfl⟩)

inductive InTurn (g : Generator) (b : Block) : Nat → Run → List (String × String) → Run → Prop where
  | nothing (i : Nat) (r : Run) : InTurn g b i r [] r
  | branch {i : Nat} {r r₁ r₂ r₃ : Run} {condition body : String} {parts : List (String × String)}
      (asked : g.Condition b ("IF" ++ toString i) r condition r₁)
      (inside : Body g.emit b ("DO" ++ toString i) r₁ body r₂)
      (later : InTurn g b (i + 1) r₂ parts r₃) : InTurn g b i r ((condition, body) :: parts) r₃

def numberedFrom (i count : Nat) : List Rules.Branch :=
  (List.range' i count).map fun i => ⟨"IF" ++ toString i, "DO" ++ toString i⟩

theorem numberedFrom_succ (i count : Nat) :
    numberedFrom i (count + 1) =
      ⟨"IF" ++ toString i, "DO" ++ toString i⟩ :: numberedFrom (i + 1) count := by
  rw [numberedFrom, List.range'_succ]
  rfl

theorem numbered_eq (count : Nat) : Rules.numbered count = numberedFrom 0 count := by
  rw [Rules.numbered, List.range_eq_range']
  rfl

theorem numberedFrom_append (i m n : Nat) :
    numberedFrom i (m + n) = numberedFrom i m ++ numberedFrom (i + m) n := by
  rw [numberedFrom, ← List.range'_append_1, List.map_append]
  rfl

theorem perform_bind {α β : Type} (g : Generator) (visit : Visit) (b : Block) (script : Script α)
    (next : α → Script β) (r : Run) :
    g.perform visit b (script.bind next) r =
      g.perform visit b (next (g.perform visit b script r).1) (g.perform visit b script r).2 := by
  induction script generalizing r with
  | done a => rfl
  | value socket min fallback k ih => exact ih _ _
  | body socket k ih => exact ih _ _
  | read k ih => exact ih _ _
  | write s k ih => exact ih _

theorem perform_branch (g : Generator) (b : Block) (keyword code : String) (i count : Nat)
    (r : Run) :
    ∃ condition body r₁ r₂, g.Condition b ("IF" ++ toString i) r condition r₁ ∧
      Body g.emit b ("DO" ++ toString i) r₁ body r₂ ∧
      g.perform g.emit b (Rules.branches keyword code (numberedFrom i (count + 1))) r =
        g.perform g.emit b (Rules.branches "\x7d else if"
          (code ++ keyword ++ " (" ++ condition ++ ") \x7b\n" ++ Layout.indent body)
          (numberedFrom (i + 1) count)) r₂ := by
  rw [numberedFrom_succ]
  exact ⟨_, _, _, _, g.condition_operandOf b _ r, body_bodyOf g.emit b _ _, rfl⟩

theorem perform_branches (g : Generator) (b : Block) (code : String) (i count : Nat) (r : Run) :
    ∃ parts r', g.InTurn b i r parts r' ∧ parts.length = count ∧
      g.perform g.emit b (Rules.branches "\x7d else if" code (numberedFrom i count)) r =
        (code ++ String.join ((parts.map Layout.ifArm).map ("\x7d else " ++ ·)), r') := by
  induction count generalizing i code r with
  | zero =>
    refine ⟨[], r, InTurn.nothing i r, rfl, ?_⟩
    rw [List.map_nil, List.map_nil, String.join_nil, String.append_empty]
    rfl
  | succ count ih =>
    obtain ⟨condition, body, r₁, r₂, asked, inside, step⟩ :=
      g.perform_branch b "\x7d else if" code i count r
    obtain ⟨parts, r', later, length, rest⟩ := ih
      (code ++ "\x7d else if" ++ " (" ++ condition ++ ") \x7b\n" ++ Layout.indent body) (i + 1) r₂
    have keyword : code ++ "\x7d else if" ++ " (" = code ++ "\x7d else " ++ "if (" := by
      rw [String.append_assoc, String.append_assoc]
      rfl
    refine ⟨_, r', InTurn.branch asked inside later, congrArg Nat.succ length, ?_⟩
    rw [step, rest, keyword, List.map_cons, List.map_cons, String.join_cons, Layout.ifArm]
    simp only [String.append_assoc]

theorem perform_all_branches (g : Generator) (b : Block) (count : Nat) (r : Run) :
    ∃ parts r', g.InTurn b 0 r parts r' ∧ parts.length = count + 1 ∧
      g.perform g.emit b (Rules.branches "if" "" (Rules.numbered (count + 1))) r =
        ("\x7d else ".intercalate (parts.map Layout.ifArm), r') := by
  obtain ⟨condition, body, r₁, r₂, asked, inside, step⟩ := g.perform_branch b "if" "" 0 count r
  obtain ⟨parts, r', later, length, rest⟩ := g.perform_branches b
    ("" ++ "if" ++ " (" ++ condition ++ ") \x7b\n" ++ Layout.indent body) 1 count r₂
  refine ⟨_, r', InTurn.branch asked inside later, congrArg Nat.succ length, ?_⟩
  rw [numbered_eq, step, rest, List.map_cons, Layout.intercalate_cons]
  rfl

inductive Otherwise (g : Generator) (b : Block) (r : Run) : Option String → Run → Prop where
  | absent : Otherwise g b r none r
  | present {body : String} {r' : Run} (inside : Body g.emit b "ELSE" r body r') :
      Otherwise g b r (some body) r'

theorem registered_growingIf (rules : g.rules = Rules.esp32) (kind : b.kind = "controls_if") :
    g.rules.get? b.kind = some Rules.growingIf := by
  rw [rules, kind]
  exact Rules.esp32_get (by simp [Rules.entries])

theorem own_growingIf (rules : g.rules = Rules.esp32) (kind : b.kind = "controls_if") (r : Run) :
    ∃ parts otherwise r₁ r₂, g.InTurn b 0 (r.dispatch b.id) parts r₁ ∧
      parts.length = Rules.branchCount b ∧ g.Otherwise b r₁ otherwise r₂ ∧
      otherwise.isSome = Rules.hasElse b ∧
      g.own g.emit b r = (.statement (Layout.ifStatement parts otherwise), r₂) := by
  obtain ⟨count, positive⟩ : ∃ count, Rules.branchCount b = count + 1 :=
    ⟨Rules.branchCount b - 1, by rw [Rules.branchCount_eq]; omega⟩
  obtain ⟨parts, r₁, taken, length, text⟩ := g.perform_all_branches b count (r.dispatch b.id)
  have own : ∀ elseSocket, (if Rules.hasElse b then some "ELSE" else none) = elseSocket →
      g.own g.emit b r = g.perform g.emit b
        (Rules.conditional (Rules.numbered (count + 1)) elseSocket)
        (r.dispatch b.id) := by
    rintro elseSocket rfl
    rw [← positive, Generator.own, registered_growingIf rules kind]
    rfl
  rw [positive]
  cases last : Rules.hasElse b with
  | false =>
    refine ⟨parts, none, r₁, r₁, taken, length, Otherwise.absent, rfl, ?_⟩
    rw [own none (by rw [last]; rfl), Rules.conditional]
    refine (g.perform_bind g.emit b _ _ _).trans ?_
    rw [text, Layout.ifStatement, Option.map_none, Option.toList_none, List.append_nil]
    rfl
  | true =>
    refine ⟨parts, some _, r₁, _, taken, length, Otherwise.present (body_bodyOf g.emit b _ _), rfl,
      ?_⟩
    rw [own (some "ELSE") (by rw [last]; rfl), Rules.conditional]
    refine (g.perform_bind g.emit b _ _ _).trans ?_
    have some : parts.map Layout.ifArm ≠ [] := by
      rw [ne_eq, List.map_eq_nil_iff, ← List.length_eq_zero_iff, length]
      exact Nat.succ_ne_zero count
    rw [text, Layout.ifStatement, Option.map_some, Option.toList_some,
      Layout.intercalate_concat _ some, Layout.append_elseArm]
    rfl

/-! What is dispatched -/

def branchSockets : List Link := Rules.branchLinks (Rules.numbered 257) ++ [.statement "ELSE"]

def head? (g : Generator) (b : Block) (link : Link) : Option BlockId :=
  (b.child? link).filter fun child => (g.enabled? child).isSome

def branchHeads (g : Generator) (b : Block) : List BlockId := branchSockets.filterMap (g.head? b)

def grownSockets (b : Block) : List Link :=
  Rules.branchLinks (Rules.numbered (Rules.branchCount b)) ++
    (if Rules.hasElse b then some "ELSE" else none).toList.map .statement

theorem head_none {link : Link} (empty : b.child? link = none) : g.head? b link = none := by
  rw [head?, empty]
  rfl

theorem mem_branchLinks {i count : Nat} {link : Link}
    (listed : link ∈ Rules.branchLinks (numberedFrom i count)) :
    ∃ n, i ≤ n ∧ n < i + count ∧
      (link = .value ("IF" ++ toString n) ∨ link = .statement ("DO" ++ toString n)) := by
  simp only [Rules.branchLinks, numberedFrom, List.flatMap_map, List.mem_flatMap, List.mem_range'_1,
    List.mem_cons, List.not_mem_nil, or_false, and_assoc] at listed
  exact listed

theorem vacant_beyond {b : Block} {link : Link} {count : Nat}
    (within : Rules.branchCount b + count ≤ 257)
    (listed : link ∈ Rules.branchLinks (numberedFrom (Rules.branchCount b) count)) :
    b.child? link = none := by
  obtain ⟨n, beyond, small, named⟩ := mem_branchLinks listed
  have spelled : Text.natural? Text.wordCount (toString n).toList = some n :=
    Rules.natural_repr (Nat.lt_trans (show n < 257 by omega) (by decide))
  rw [Option.eq_none_iff_forall_not_mem]
  intro child held
  have counted : n < Rules.branchCount b := by
    rcases named with rfl | rfl
    · exact Rules.lt_branchCount ⟨child, Or.inl held⟩ (.condition spelled) (by omega)
    · exact Rules.lt_branchCount ⟨child, Or.inr held⟩ (.body spelled) (by omega)
  omega

/-- No filled socket is passed over. -/
theorem branchHeads_eq (g : Generator) (b : Block) :
    g.branchHeads b = (grownSockets b).filterMap (g.head? b) := by
  obtain ⟨rest, limit⟩ : ∃ rest, 257 = Rules.branchCount b + rest :=
    ⟨257 - Rules.branchCount b, by rw [Rules.branchCount_eq]; omega⟩
  have branches : (Rules.branchLinks (Rules.numbered 257)).filterMap (g.head? b) =
      (Rules.branchLinks (Rules.numbered (Rules.branchCount b))).filterMap (g.head? b) := by
    have beyond : (Rules.branchLinks (numberedFrom (Rules.branchCount b) rest)).filterMap
        (g.head? b) = [] := by
      rw [List.filterMap_eq_nil_iff]
      intro link listed
      exact head_none (vacant_beyond (Nat.le_of_eq limit.symm) listed)
    rw [limit, numbered_eq, numberedFrom_append, Nat.zero_add, ← numbered_eq, Rules.branchLinks,
      List.flatMap_append, List.filterMap_append, ← Rules.branchLinks, ← Rules.branchLinks, beyond,
      List.append_nil]
  have last : [Link.statement "ELSE"].filterMap (g.head? b) =
      ((if Rules.hasElse b then some "ELSE" else none).toList.map Link.statement).filterMap
        (g.head? b) := by
    cases given : Rules.hasElse b with
    | true => rfl
    | false =>
      have empty : b.child? (.statement "ELSE") = none := by
        rw [Option.eq_none_iff_forall_not_mem]
        intro child held
        rw [Rules.hasElse_iff.mpr (Or.inr ⟨child, held⟩)] at given
        cases given
      rw [List.filterMap_cons, head_none empty]
      rfl
  rw [branchHeads, branchSockets, grownSockets, List.filterMap_append, List.filterMap_append,
    branches, last]

theorem heads_sublist (forest : g.workspace.Forest) (rules : g.rules = Rules.esp32)
    (links : List Link) : (links.filterMap (g.head? b)).Sublist (g.below b links) := by
  induction links with
  | nil => exact List.Sublist.refl []
  | cons link rest ih =>
    rw [below, List.flatMap_cons, ← below, List.filterMap_cons]
    cases found : g.head? b link with
    | none => exact ih.trans (List.sublist_append_right _ _)
    | some child =>
      obtain ⟨held, enabled⟩ := Option.filter_eq_some_iff.mp found
      obtain ⟨c, on⟩ := Option.isSome_iff_exists.mp enabled
      have first : [child].Sublist (g.slotTrace (b.child? link)) := by
        rw [held]
        exact List.singleton_sublist.mpr (self_mem_trace forest rules on)
      exact first.append ih

theorem profile_growingIf (rules : g.rules = Rules.esp32) (kind : b.kind = "controls_if") :
    g.Profile b (grownSockets b) := by
  refine profile_of_uniform (registered_growingIf rules kind) (Rules.numbered_nodup _ ?_)
    (Or.inl (Rules.conditional_course _ _ _))
  cases Rules.hasElse b with
  | true => exact Rules.else_apart
  | false => simp

theorem trace_growingIf (forest : g.workspace.Forest) (rules : g.rules = Rules.esp32) {id : BlockId}
    (on : g.enabled? id = some b) (kind : b.kind = "controls_if") :
    (id :: g.branchHeads b).Sublist (g.trace id) := by
  have profile : g.Profile b (grownSockets b) := profile_growingIf rules kind
  have statement : ∀ visit r, (g.own visit b r).1.IsStatement := by
    refine profile.sort.resolve_right fun expression => ?_
    obtain ⟨_, _, _, _, _, _, _, _, own⟩ := own_growingIf rules kind .new
    have value := expression g.emit .new
    rw [own] at value
    exact value
  have law := (traced_of (emit_dispatched_statement forest on profile statement
    fun _ child _ => traced forest rules child)).2
  rw [law, forest.numbered id b (enabled_iff.mp on).1, branchHeads_eq, below,
    List.flatMap_append, ← below]
  exact ((heads_sublist forest rules _).trans (List.sublist_append_left _ _)).cons_cons id

theorem Live.enabled {id : BlockId} (live : g.Live id) : ∃ b, g.enabled? id = some b := by
  cases live with
  | root _ on => exact ⟨_, on⟩
  | socket _ _ _ _ on => exact ⟨_, on⟩
  | next _ _ _ _ on => exact ⟨_, on⟩

/-- A conditional that grows has as many branches as its state declares and as the numbers of its
filled sockets ask for, one at least and 257 at most, and an alternative if its state or a filled
socket says so. Each branch takes its condition and its statements from the sockets of its number.
So whatever is in those sockets comes up once, in the order of the branches. -/
theorem growing_conditionals_lose_no_branch (history : List Workspace.Operation) (options : Options)
    (id : BlockId) (b : Block) :
    let g : Generator := ⟨.afterAll history, Rules.esp32, options⟩
    let dispatched := g.emitRoots.2.dispatched.toList
    g.workspace.get? id = some b → b.kind = "controls_if" →
      (∀ r, ∃ d p parts otherwise r₁ r₂, Rules.Declares b.extraState d ∧ Rules.Highest b p ∧
        g.own g.emit b r = (.statement (Layout.ifStatement parts otherwise), r₂) ∧
        parts.length = min 257 (1 + max d p) ∧
        (otherwise.isSome = true ↔
          (∃ state, b.extraState = some state ∧ state.member? "hasElse" = some (.bool true)) ∨
            ∃ child, b.child? (.statement "ELSE") = some child) ∧
        g.InTurn b 0 (r.dispatch id) parts r₁ ∧ g.Otherwise b r₁ otherwise r₂) ∧
      (id ∈ dispatched →
        (id :: g.branchHeads b).Sublist dispatched ∧
          ∀ head ∈ id :: g.branchHeads b, dispatched.count head = 1) := by
  intro g dispatched found kind
  have forest : g.workspace.Forest := Workspace.forest_afterAll history
  have rules : g.rules = Rules.esp32 := rfl
  clear_value g
  have number : b.id = id := forest.numbered id b found
  constructor
  · intro r
    obtain ⟨parts, otherwise, r₁, r₂, taken, length, last, given, own⟩ := own_growingIf rules kind r
    rw [number] at taken
    refine ⟨_, _, parts, otherwise, r₁, r₂, Rules.declares_declaredElseIfs b,
      Rules.highest_highestBranch b, own, ?_, ?_, taken, last⟩
    · rw [length, Rules.branchCount_eq]
    · rw [given, Rules.hasElse_iff]
  · intro member
    have order : dispatched = g.order := emitRoots_dispatched forest rules
    have once : dispatched.Nodup := order ▸ order_nodup forest rules
    rw [order] at member
    have on : g.enabled? id = some b := by
      obtain ⟨c, on⟩ := ((mem_order_iff forest rules id).mp member).enabled
      cases found.symm.trans (enabled_iff.mp on).1
      exact on
    have part : (id :: g.branchHeads b).Sublist dispatched := by
      rw [order]
      exact (trace_growingIf forest rules on kind).trans (trace_sublist_order forest rules member)
    refine ⟨part, fun head listed => ?_⟩
    have most := List.nodup_iff_count.mp once head
    have least := List.count_pos_iff.mpr (part.subset listed)
    omega

def grownBlocks : List Workspace.Operation :=
  [.add
      { BlockContent.new "controls_if" with
        extraState := some (.object [("elseIfCount", .ofNat 1)]) },
    .add (.new "logic_boolean"), .add (.new "esp32_delay_ms"), .add (.new "esp32_delay_ms"),
    .connect 0 (.statement "ELSE") 3, .connect 0 (.statement "DO2") 2, .connect 0 (.value "IF0") 1]

theorem third_branch_is_reached :
    let g : Generator := ⟨.afterAll grownBlocks, Rules.esp32, .default⟩
    let dispatched := g.emitRoots.2.dispatched.toList
    ∃ b, g.workspace.get? 0 = some b ∧ b.kind = "controls_if" ∧
      (∀ r, ∃ parts otherwise r', parts.length = 3 ∧ otherwise.isSome = true ∧
        g.own g.emit b r = (.statement (Layout.ifStatement parts otherwise), r')) ∧
      0 ∈ dispatched ∧ [0, 1, 2, 3].Sublist dispatched := by
  intro g dispatched
  obtain ⟨b, found, kind, declared, highest, last, heads⟩ : ∃ b, g.workspace.get? 0 = some b ∧
      b.kind = "controls_if" ∧ Rules.declaredElseIfs b = 1 ∧ Rules.highestBranch b = 2 ∧
      b.child? (.statement "ELSE") = some 3 ∧ g.branchHeads b = [1, 2, 3] :=
    ⟨_, rfl, rfl, rfl, by decide +kernel, rfl, by decide +kernel⟩
  obtain ⟨code, order⟩ := growing_conditionals_lose_no_branch grownBlocks .default 0 b found kind
  have live : g.Live 0 := Live.root (by decide) rfl
  have member : 0 ∈ dispatched := by
    have forest : g.workspace.Forest := Workspace.forest_afterAll grownBlocks
    have same : dispatched = g.order := emitRoots_dispatched forest rfl
    rw [same]
    exact (mem_order_iff forest rfl 0).mpr live
  refine ⟨b, found, kind, fun r => ?_, member, ?_⟩
  · obtain ⟨d, p, parts, otherwise, _, r', declares, high, own, length, given, _⟩ := code r
    refine ⟨parts, otherwise, r', ?_, given.mpr (Or.inr ⟨3, last⟩), own⟩
    rw [length, declares.unique (Rules.declares_declaredElseIfs b),
      high.unique (Rules.highest_highestBranch b), declared, highest]
    rfl
  · have part := (order member).1
    rw [heads] at part
    exact part

end Generator
end BlockSketch
