/-
Integers as texts. A reading accepts an optional sign and one or more ASCII digits, leading zeros
included; the written form is the canonical decimal.
-/
namespace BlockSketch.Text

def digits? (cs : List Char) : Option Nat :=
  if cs ≠ [] ∧ cs.all Char.isDigit then some (Nat.ofDigitChars 10 cs 0) else none

/-- A natural number below `bound`; one leading plus sign is allowed. -/
def natural? (bound : Nat) (cs : List Char) : Option Nat :=
  (digits? (match cs with | '+' :: rest => rest | _ => cs)).filter (· < bound)

def wordCount : Nat := 0x10000000000000000

def wordMin : Int := -0x8000000000000000

def wordMax : Int := 0x7FFFFFFFFFFFFFFF

def integer? (cs : List Char) : Option Int :=
  let value : Option Int := match cs with
    | '-' :: rest => (digits? rest).map fun n => -(n : Int)
    | '+' :: rest => (digits? rest).map Int.ofNat
    | _ => (digits? cs).map Int.ofNat
  value.filter fun n => wordMin ≤ n && n ≤ wordMax

theorem isDigit_of_mem_repr {n : Nat} {c : Char} (member : c ∈ n.repr.toList) :
    c.isDigit = true := by
  rw [Nat.toList_repr] at member
  exact Nat.isDigit_of_mem_toDigits (by decide) (by decide) member

theorem repr_ne_nil (n : Nat) : n.repr.toList ≠ [] := by
  rw [Nat.toList_repr]
  exact Nat.toDigits_ne_nil

theorem digits?_repr (n : Nat) : digits? n.repr.toList = some n := by
  have all : n.repr.toList.all Char.isDigit = true :=
    List.all_eq_true.mpr fun _ => isDigit_of_mem_repr
  rw [digits?, if_pos ⟨repr_ne_nil n, all⟩, Nat.toList_repr]
  rw [Nat.ofDigitChars_toDigits (by decide) (by decide)]

end BlockSketch.Text
