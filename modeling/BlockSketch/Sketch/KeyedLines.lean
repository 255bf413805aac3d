import Std.Data.HashMap

/-
Lines under keys: the last line written for a key stands, at the place where the key first came up.
-/
namespace BlockSketch

structure KeyedLines where
  entries : Array (String × String)
  index : Std.HashMap String Nat

namespace KeyedLines

def empty : KeyedLines := ⟨#[], ∅⟩

def insert (table : KeyedLines) (key line : String) : Option String × KeyedLines :=
  match table.index[key]? with
  | some i =>
    (table.entries[i]?.map Prod.snd,
      { table with entries := table.entries.setIfInBounds i (key, line) })
  | none =>
    (none, ⟨table.entries.push (key, line), table.index.insert key table.entries.size⟩)

def get? (table : KeyedLines) (key : String) : Option String :=
  table.index[key]?.bind fun i => table.entries[i]?.map Prod.snd

def contains (table : KeyedLines) (key : String) : Bool := table.index.contains key

def lines (table : KeyedLines) : List String := table.entries.toList.map Prod.snd

def size (table : KeyedLines) : Nat := table.entries.size

def isEmpty (table : KeyedLines) : Bool := table.entries.isEmpty

end KeyedLines
end BlockSketch
