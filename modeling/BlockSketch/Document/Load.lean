import BlockSketch.Document.Saved
import BlockSketch.Json.Parse
import BlockSketch.Json.Print
import BlockSketch.Workspace.Basic

/-
Loading a saved document into a workspace. Blocks wait on a stack for their turn: the blocks in the
sockets of a block come right after it, in the order of the socket names, and its successor after
all of them. So blocks are numbered in the order in which the document nests them. Links that the
catalogue does not allow are repaired and reported.
-/
namespace BlockSketch

inductive LoadError where
  | json (fault : Json.Fault)
  | format (fault : FormatFault)
  | connection (error : ConnectError)
  deriving DecidableEq, Repr

/-- The message of a load error. What exactly is wrong with JSON text is not part of it. -/
def LoadError.message : LoadError → String
  | json _ => "invalid workspace JSON"
  | format fault => "invalid workspace document: " ++ fault.message
  | connection error => "invalid workspace structure: " ++ error.message

structure Loaded where
  workspace : Workspace
  diagnostics : Array Diagnostic

namespace Document

abbrev Variables := List (String × String)

def declared? (entry : Json) : Option (String × String) :=
  match (entry.member? "name").bind Json.string?, (entry.member? "id").bind Json.string? with
  | some name, some id => some (id, name)
  | _, _ => none

/-- An entry that declares no variable is passed over; of two for one id the later counts. -/
def declarations (members : List (String × Json)) : Variables :=
  match Json.find? "variables" members with
  | some (.array entries) => (entries.filterMap declared?).reverse
  | _ => []

def topBlocks (members : List (String × Json)) : Except FormatFault (List Json) :=
  match Json.find? "blocks" members with
  | none => .ok []
  | some .null => .ok []
  | some (.array blocks) => .ok blocks
  | some (.object top) =>
    match Json.find? "blocks" top with
    | none => .ok []
    | some .null => .ok []
    | some (.array blocks) => .ok blocks
    | some other => .error (.blockList other.typeName)
  | some other => .error (.blocks other.typeName)

def split : Json → Except FormatFault (List Json × Variables)
  | .array blocks => .ok (blocks, [])
  | .object members =>
    match topBlocks members with
    | .ok blocks => .ok (blocks, declarations members)
    | .error f => .error f
  | other => .error (.document other.typeName)

inductive Target where
  | root
  | input (parent : BlockId) (socket : String)
  | next (prev : BlockId)
  deriving DecidableEq, Repr

structure Pending where
  value : Json
  target : Target
  /-- The height of a block that has none of its own. -/
  height : Binary64

def pendingSize : List Pending → Nat
  | [] => 0
  | p :: rest => p.value.size + pendingSize rest

theorem pendingSize_append (xs ys : List Pending) :
    pendingSize (xs ++ ys) = pendingSize xs + pendingSize ys := by
  induction xs with
  | nil => simp [pendingSize]
  | cons p rest ih => simp only [List.cons_append, pendingSize, ih, Nat.add_assoc]

def fieldValue (vars : Variables) (kind name : String) (v : Json) :
    FieldValue × Option Diagnostic :=
  match v with
  | .string s => (.text s, none)
  | .number n => (.number n.toBinary64, none)
  | .bool b => (.bool b, none)
  | .null => (.text "", none)
  | .array _ => (.text v.compact, none)
  | .object members =>
    let ownName := (Json.find? "name" members).bind Json.string?
    match (Json.find? "id" members).bind Json.string? with
    | some id =>
      match (vars.lookup id).or ownName with
      | some var => (.text var, none)
      | none =>
        (.text id, some (.warning Diagnostic.unknownVariable none
          ("field '" ++ name ++ "' of '" ++ kind ++
            "' refers to unknown variable id '" ++ id ++ "'") none []))
    | none =>
      match ownName with
      | some var => (.text var, none)
      | none => (.text v.compact, none)

/-- The content of a saved block. Fields of the shape that were not saved get their defaults. -/
def content (c : Catalogue) (vars : Variables) (b : SavedBlock) (y : Binary64) :
    BlockContent × List Diagnostic :=
  let values := b.fields.map fun (name, v) => (name, fieldValue vars b.kind name v)
  let saved : BlockContent :=
    { sourceId := b.sourceId, kind := b.kind, fields := .ofList (values.map fun (n, v) => (n, v.1)),
      disabled := b.disabled, position := ⟨b.x.getD .zero, y⟩, extraState := b.extraState }
  let specs := (c.lookup b.kind).elim [] (·.fields)
  let full := specs.foldl
    (fun content f =>
      if content.fields.contains f.name then content else content.setField f.name (.text f.default))
    saved
  (full, values.filterMap fun (_, v) => v.2)

/-- A block of one kind may follow a block of the other. Unknown kinds follow and are followed. -/
def chains (c : Catalogue) (prev next : String) : Bool :=
  ((c.lookup prev).elim true (·.next)) && ((c.lookup next).elim true (·.previous))

/-- The kind of socket that an input is: as the parent's shape says, or else by what sits in it. -/
def classify (c : Catalogue) (parent socket child : String) (childHasNext : Bool) : SocketKind :=
  match (c.lookup parent).bind (·.socketKind? socket) with
  | some kind => kind
  | none =>
    match c.lookup child with
    | some shape => if shape.isValueKind then .value else .statement
    | none => if childHasNext then .statement else .value

def kindOf (w : Workspace) (id : BlockId) : String :=
  match w.get? id with
  | some b => b.kind
  | none => ""

/-- Attaches a block to a socket. A value that does not fit stays there and is reported. -/
def attachInput (c : Catalogue) (l : Loaded) (parent : BlockId) (socket : String) (id : BlockId)
    (kind : String) (hasNext : Bool) : Except ConnectError Loaded :=
  let parentKind := kindOf l.workspace parent
  match classify c parentKind socket kind hasNext with
  | .value =>
    match l.workspace.connect parent (.value socket) id with
    | .error e => .error e
    | .ok w =>
      if c.accepts parentKind socket kind then .ok { l with workspace := w }
      else .ok ⟨w, l.diagnostics.push (.warning Diagnostic.misfit (some id)
        ("'" ++ kind ++ "' does not fit socket '" ++ socket ++ "' of '" ++ parentKind ++ "'")
        none [parent])⟩
  | .statement =>
    match l.workspace.connect parent (.statement socket) id with
    | .error e => .error e
    | .ok w => .ok { l with workspace := w }

/-- Attaches a block behind another. If it may not follow, it stays a root at the height of the
block it was to follow. -/
def attachNext (c : Catalogue) (l : Loaded) (prev id : BlockId) (kind : String)
    (height : Binary64) : Except ConnectError Loaded :=
  let prevKind := kindOf l.workspace prev
  if chains c prevKind kind then
    match l.workspace.connect prev .next id with
    | .error e => .error e
    | .ok w => .ok { l with workspace := w }
  else
    let lowered :=
      l.workspace.edit id fun b => { b with position := { b.position with y := height } }
    .ok ⟨lowered, l.diagnostics.push (.warning Diagnostic.severedLink (some id)
      ("'" ++ kind ++ "' cannot follow '" ++ prevKind ++ "'; it was detached") none [prev])⟩

def place (c : Catalogue) (vars : Variables) (l : Loaded) (b : SavedBlock) (target : Target)
    (height y : Binary64) : Except ConnectError Loaded :=
  let (content, warnings) := content c vars b y
  let (id, w) := l.workspace.add content
  let l : Loaded := ⟨w, l.diagnostics ++ warnings⟩
  match target with
  | .root => .ok l
  | .input parent socket => attachInput c l parent socket id b.kind b.next.isSome
  | .next prev => attachNext c l prev id b.kind height

def followers (b : SavedBlock) (id : BlockId) (y : Binary64) : List Pending :=
  (b.inputs.map fun (socket, v) => ⟨v, .input id socket, y⟩) ++
    b.next.toList.map fun v => ⟨v, .next id, y⟩

theorem pendingSize_followers (b : SavedBlock) (id : BlockId) (y : Binary64) :
    pendingSize (followers b id y) = b.linkedSize := by
  have inputs : ∀ sockets : List (String × Json),
      pendingSize (sockets.map fun (socket, v) => ⟨v, .input id socket, y⟩) =
        Json.sizeMembers sockets := by
    intro sockets
    induction sockets with
    | nil => rfl
    | cons s rest ih => simp only [List.map_cons, pendingSize, Json.sizeMembers, ih]
  rw [followers, pendingSize_append, inputs, SavedBlock.linkedSize]
  cases b.next <;> simp [pendingSize]

def walk (c : Catalogue) (vars : Variables) (pending : List Pending) (l : Loaded) :
    Except LoadError Loaded :=
  match pending with
  | [] => .ok l
  | p :: rest =>
    match _read : SavedBlock.read p.value with
    | .error f => .error (.format f)
    | .ok b =>
      let y := b.y.getD p.height
      match place c vars l b p.target p.height y with
      | .error e => .error (.connection e)
      | .ok placed => walk c vars (followers b l.workspace.size y ++ rest) placed
  termination_by pendingSize pending
  decreasing_by
    have smaller := SavedBlock.linkedSize_lt _read
    have size := pendingSize_followers b l.workspace.size (b.y.getD p.height)
    rw [pendingSize_append, pendingSize]
    omega

def load (c : Catalogue) (document : Json) : Except LoadError Loaded :=
  match split document with
  | .error f => .error (.format f)
  | .ok (blocks, vars) =>
    walk c vars (blocks.map fun v => ⟨v, .root, .zero⟩) ⟨.empty, #[]⟩

def loadText (c : Catalogue) (source : String) : Except LoadError Loaded :=
  match Json.parse source with
  | .error f => .error (.json f)
  | .ok document => load c document

end Document
end BlockSketch
