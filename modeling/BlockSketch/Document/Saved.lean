import BlockSketch.Json.Size
import BlockSketch.Number.Binary64

/-
Saved blocks: the editor's JSON form of one block, with its links lifted out. A link is an object
that names a block or, failing that, a shadow block.
-/
namespace BlockSketch

inductive FormatFault where
  | document (found : String)
  | blocks (found : String)
  | blockList (found : String)
  | block (found : String)
  | missingType
  deriving DecidableEq, Repr

def FormatFault.message : FormatFault → String
  | document found => "expected a workspace object or an array of blocks, found " ++ found
  | blocks found => "\"blocks\" must be an object or an array, found " ++ found
  | blockList found => "\"blocks.blocks\" must be an array, found " ++ found
  | block found => "expected a block object, found " ++ found
  | missingType => "block without a string \"type\""

structure SavedBlock where
  kind : String
  sourceId : Option String
  x : Option Binary64
  y : Option Binary64
  fields : List (String × Json)
  /-- The attached blocks by socket name, in the order of the names. -/
  inputs : List (String × Json)
  next : Option Json
  disabled : Bool
  extraState : Option Json

namespace SavedBlock

def present (v : Option Json) : Option Json := v.filter fun v => !v.isNull

/-- The block at the end of a link. A real block goes before its shadow. -/
def linkTarget (link : Json) : Option Json :=
  (present (link.member? "block")).or (present (link.member? "shadow"))

def membersOf : Option Json → List (String × Json)
  | some (.object members) => members
  | _ => []

def linkedBlocks (sockets : List (String × Json)) : List (String × Json) :=
  sockets.filterMap fun (socket, link) => (linkTarget link).map fun b => (socket, b)

def isDisabled (members : List (String × Json)) : Bool :=
  (Json.find? "enabled" members).bind Json.bool? = some false ||
    match Json.find? "disabledReasons" members with
    | some (.array (_ :: _)) => true
    | _ => false

def coordinate (members : List (String × Json)) (name : String) : Option Binary64 :=
  ((Json.find? name members).bind Json.number?).map JsonNumber.toBinary64

def ofMembers (kind : String) (members : List (String × Json)) : SavedBlock where
  kind
  sourceId := (Json.find? "id" members).bind Json.string?
  x := coordinate members "x"
  y := coordinate members "y"
  fields := membersOf (Json.find? "fields" members)
  inputs := linkedBlocks (membersOf (Json.find? "inputs" members))
  next := (Json.find? "next" members).bind linkTarget
  disabled := isDisabled members
  extraState := present (Json.find? "extraState" members)

def read : Json → Except FormatFault SavedBlock
  | .object members =>
    match Json.find? "type" members with
    | some (.string kind) => .ok (ofMembers kind members)
    | _ => .error .missingType
  | v => .error (.block v.typeName)

def linkedSize (b : SavedBlock) : Nat :=
  Json.sizeMembers b.inputs + (b.next.map Json.size).getD 0

theorem size_linkTarget_lt {link b : Json} (h : linkTarget link = some b) : b.size < link.size := by
  simp only [linkTarget, present, Option.or_eq_some_iff, Option.filter_eq_some_iff] at h
  rcases h with ⟨h, _⟩ | ⟨_, h, _⟩ <;> exact Json.size_member?_lt h

theorem size_linkedBlocks_le (sockets : List (String × Json)) :
    Json.sizeMembers (linkedBlocks sockets) ≤ Json.sizeMembers sockets := by
  induction sockets with
  | nil => simp [linkedBlocks, Json.sizeMembers]
  | cons s rest ih =>
    obtain ⟨socket, link⟩ := s
    simp only [linkedBlocks] at ih
    simp only [linkedBlocks, List.filterMap_cons, Json.sizeMembers]
    cases h : linkTarget link with
    | none => simp only [Option.map_none]; omega
    | some b =>
      have := size_linkTarget_lt h
      simp only [Option.map_some, Json.sizeMembers]; omega

theorem linkedSize_ofMembers_le (kind : String) (members : List (String × Json)) :
    (ofMembers kind members).linkedSize ≤ Json.sizeMembers members := by
  have inputsLe : ∀ v, Json.find? "inputs" members = some v →
      Json.sizeMembers (linkedBlocks (membersOf (some v))) ≤ v.size := by
    intro v _
    refine Nat.le_trans (size_linkedBlocks_le _) ?_
    cases v <;> simp [membersOf, Json.sizeMembers, Json.size]
  have nextLe : ∀ v, Json.find? "next" members = some v →
      ((linkTarget v).map Json.size).getD 0 ≤ v.size := by
    intro v _
    cases h : linkTarget v with
    | none => simp
    | some b => have := size_linkTarget_lt h; simp; omega
  simp only [linkedSize, ofMembers]
  cases hi : Json.find? "inputs" members with
  | none =>
    cases hn : Json.find? "next" members with
    | none => simp [membersOf, linkedBlocks, Json.sizeMembers]
    | some n =>
      have := nextLe n hn
      have := Json.size_find?_le hn
      simp only [membersOf, linkedBlocks, List.filterMap_nil, Json.sizeMembers, Option.bind_some]
      omega
  | some i =>
    have := inputsLe i hi
    cases hn : Json.find? "next" members with
    | none =>
      have := Json.size_find?_le hi
      simp only [Option.bind_none, Option.map_none, Option.getD_none]; omega
    | some n =>
      have := nextLe n hn
      have := Json.size_find?_add_le (by decide) hi hn
      simp only [Option.bind_some]; omega

theorem linkedSize_lt {v : Json} {b : SavedBlock} (h : read v = .ok b) : b.linkedSize < v.size := by
  cases v with
  | object members =>
    simp only [read] at h
    split at h
    · rename_i kind _
      cases h
      have := linkedSize_ofMembers_le kind members
      simp only [Json.size]; omega
    · cases h
  | _ => cases h

end SavedBlock
end BlockSketch
