import BlockSketch.Workspace.Block

/-
Workspaces: blocks by number, and how they are attached to each other. A block hangs from at most
one slot, and both ends know about it. Attaching a block below itself is refused, so the blocks
always form trees.
-/
namespace BlockSketch

structure Workspace where
  blocks : Array Block

inductive ConnectError where
  | unknownBlock (id : BlockId)
  | alreadyAttached (child : BlockId)
  | cycle (parent child : BlockId)
  | socketOccupied (parent : BlockId) (socket : String)
  deriving DecidableEq, Repr

def ConnectError.message : ConnectError → String
  | unknownBlock id => "no block with id " ++ toString id
  | alreadyAttached child => "block " ++ toString child ++ " already has a parent"
  | cycle parent child =>
    "attaching block " ++ toString child ++ " under block " ++ toString parent ++
      " would create a cycle"
  | socketOccupied parent socket =>
    "socket '" ++ socket ++ "' of block " ++ toString parent ++ " is already occupied"

namespace Workspace

def empty : Workspace := ⟨#[]⟩

def size (w : Workspace) : Nat := w.blocks.size

def get? (w : Workspace) (id : BlockId) : Option Block := w.blocks[id]?

def update (w : Workspace) (id : BlockId) (f : Block → Block) : Workspace := ⟨w.blocks.modify id f⟩

def add (w : Workspace) (content : BlockContent) : BlockId × Workspace :=
  (w.size, ⟨w.blocks.push (.detached w.size content)⟩)

def edit (w : Workspace) (id : BlockId) (f : BlockContent → BlockContent) : Workspace :=
  w.update id fun b => { b with toBlockContent := f b.toBlockContent }

def parent? (w : Workspace) (id : BlockId) : Option Parent := (w.get? id).bind (·.parent)

def slot? (w : Workspace) (id : BlockId) (link : Link) : Option BlockId :=
  (w.get? id).bind (·.child? link)

def climb (w : Workspace) : Nat → BlockId → List BlockId
  | 0, _ => []
  | count + 1, id =>
    id :: match w.parent? id with
      | some p => w.climb count p.block
      | none => []

/-- The block and all blocks above it. No walk is longer than there are blocks. -/
def lineage (w : Workspace) (id : BlockId) : List BlockId := w.climb w.size id

/-- Why `child` may not be attached anywhere below `parent`. A block with nothing below it is
nobody's ancestor, so its lineage needs no search. -/
def attachFault? (w : Workspace) (parent child : BlockId) : Option ConnectError :=
  match w.get? parent, w.get? child with
  | none, _ => some (.unknownBlock parent)
  | some _, none => some (.unknownBlock child)
  | some _, some c =>
    if c.parent.isSome then some (.alreadyAttached child)
    else if parent = child then some (.cycle parent child)
    else if c.isChildless then none
    else if (w.lineage parent).contains child then some (.cycle parent child)
    else none

def attach (w : Workspace) (parent : BlockId) (link : Link) (child : BlockId) : Workspace :=
  (w.update parent (·.fill link child)).update child (·.setParent (some ⟨parent, link⟩))

def detach (w : Workspace) (p : Parent) (child : BlockId) : Workspace :=
  (w.update child (·.setParent none)).update p.block (·.vacate p.link)

def connect (w : Workspace) (parent : BlockId) (link : Link) (child : BlockId) :
    Except ConnectError Workspace :=
  match w.attachFault? parent child with
  | some e => .error e
  | none =>
    if (w.slot? parent link).isSome then .error (.socketOccupied parent link.socketName)
    else .ok (w.attach parent link child)

/-- Takes a block out of its slot and gives back where it was; a root stays as it is. -/
def disconnect (w : Workspace) (child : BlockId) : Option Parent × Workspace :=
  match w.parent? child with
  | none => (none, w)
  | some p => (some p, w.detach p child)

def roots (w : Workspace) : List BlockId :=
  (w.blocks.toList.filter Block.isRoot).map (·.id)

def heightKey (w : Workspace) (id : BlockId) : Nat :=
  match w.get? id with
  | some b => b.position.y.orderKey
  | none => 0

/-- The roots from top to bottom; roots at one height in order of their numbers. -/
def sortedRoots (w : Workspace) : List BlockId :=
  w.roots.mergeSort fun a b => w.heightKey a ≤ w.heightKey b

def previous? (w : Workspace) (id : BlockId) : Option BlockId :=
  match w.parent? id with
  | some ⟨block, .next⟩ => some block
  | _ => none

def inValueWithin (w : Workspace) : Nat → BlockId → Bool
  | 0, _ => false
  | count + 1, id =>
    match w.parent? id with
    | some ⟨block, .next⟩ => w.inValueWithin count block
    | some ⟨_, .value _⟩ => true
    | _ => false

def inValuePosition (w : Workspace) (id : BlockId) : Bool := w.inValueWithin w.size id

def chainWithin (w : Workspace) : Nat → Option BlockId → List Block
  | 0, _ => []
  | _ + 1, none => []
  | count + 1, some id =>
    match w.get? id with
    | some b => b :: w.chainWithin count b.next
    | none => []

def chain (w : Workspace) (head : Option BlockId) : List Block := w.chainWithin w.size head

end Workspace
end BlockSketch
