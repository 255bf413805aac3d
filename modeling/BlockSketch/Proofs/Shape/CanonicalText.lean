import BlockSketch.Proofs.Json.Unambiguous
import BlockSketch.Shape.Catalogue

/-
The canonical text of a catalogue stands for the catalogue. The JSON of a shape is made of named
parts, some of which are left out when they are empty or absent. Since the names differ, it shows
which ones were left out, and so every part can be recovered. Each shape names its own kind, so the
list of the shapes tells the whole catalogue, and in what order they were defined does not matter.
-/
namespace BlockSketch

/-! Objects made of parts -/

namespace Json

def written (parts : List (String × Option Json)) : List (String × Json) :=
  parts.filterMap fun p => p.2.map (p.1, ·)

theorem name_of_written {parts : List (String × Option Json)} {m : String × Json}
    (member : m ∈ written parts) : m.1 ∈ parts.map Prod.fst := by
  obtain ⟨p, listed, given⟩ := List.mem_filterMap.mp member
  obtain ⟨v, -, rfl⟩ := Option.map_eq_some_iff.mp given
  exact List.mem_map_of_mem listed

theorem written_inj {xs ys : List (String × Option Json)}
    (names : xs.map Prod.fst = ys.map Prod.fst) (apart : (xs.map Prod.fst).Nodup)
    (same : written xs = written ys) : xs = ys := by
  induction xs generalizing ys with
  | nil => exact (List.map_eq_nil_iff.mp names.symm).symm
  | cons x xs ih =>
    cases ys with
    | nil => cases names
    | cons y ys =>
      obtain ⟨name, a⟩ := x
      obtain ⟨other, b⟩ := y
      rw [List.map_cons, List.nodup_cons] at apart
      obtain ⟨rfl, later⟩ := List.cons.inj names
      have absent : ∀ v, (name, v) ∉ written xs ∧ (name, v) ∉ written ys := by
        intro v
        constructor
        · intro member
          exact apart.1 (name_of_written member)
        · intro member
          exact apart.1 (later ▸ name_of_written member)
      cases a with
      | none =>
        cases b with
        | none => rw [ih later apart.2 same]
        | some w =>
          refine absurd ?_ (absent w).1
          rw [show written xs = (name, w) :: written ys from same]
          exact List.mem_cons_self
      | some v =>
        cases b with
        | none =>
          refine absurd ?_ (absent v).2
          rw [show written ys = (name, v) :: written xs from same.symm]
          exact List.mem_cons_self
        | some w =>
          obtain ⟨value, rest⟩ := List.cons.inj same
          rw [(Prod.mk.inj value).2, ih later apart.2 rest]

theorem injective_of_parts {α : Type} {toJson : α → Json} {parts : α → List (String × Option Json)}
    (names : List String) (apart : names.Nodup) (named : ∀ a, (parts a).map Prod.fst = names)
    (form : ∀ a, toJson a = object (written (parts a))) (injective : Function.Injective parts) :
    Function.Injective toJson := by
  intro a b same
  rw [form, form, object.injEq] at same
  have different : ((parts a).map Prod.fst).Nodup := named a ▸ apart
  exact injective (written_inj ((named a).trans (named b).symm) different same)

theorem floatless_written {parts : List (String × Option Json)}
    (each : ∀ p ∈ parts, ∀ v ∈ p.2, v.Floatless) : (object (written parts)).Floatless := by
  refine Floatless.object fun m member => ?_
  obtain ⟨p, listed, given⟩ := List.mem_filterMap.mp member
  obtain ⟨v, here, rfl⟩ := Option.map_eq_some_iff.mp given
  exact each p listed v here

def listPart {α : Type} (write : α → Json) (xs : List α) : Option Json :=
  if xs.isEmpty then none else some (array (xs.map write))

section Parts

variable {α : Type} {write : α → Json}

theorem items_inj (injective : Function.Injective write) {xs ys : List α}
    (same : xs.map write = ys.map write) : xs = ys :=
  (List.map_inj_right fun _ _ => @injective _ _).mp same

theorem listPart_inj (injective : Function.Injective write) {xs ys : List α}
    (same : listPart write xs = listPart write ys) : xs = ys := by
  unfold listPart at same
  cases xs with
  | nil =>
    cases ys with
    | nil => rfl
    | cons y ys => cases same
  | cons x xs =>
    cases ys with
    | nil => cases same
    | cons y ys => exact items_inj injective (array.inj (Option.some.inj same))

theorem optional_inj (injective : Function.Injective write) {a b : Option α}
    (same : a.map write = b.map write) : a = b :=
  (Option.map_inj_right fun _ _ => @injective _ _).mp same

theorem nullable_inj (injective : Function.Injective write) (present : ∀ a, write a ≠ null)
    {a b : Option α} (same : a.elim null write = b.elim null write) : a = b := by
  cases a with
  | none =>
    cases b with
    | none => rfl
    | some b => exact absurd same.symm (present b)
  | some a =>
    cases b with
    | none => exact absurd same (present a)
    | some b => exact congrArg some (injective same)

end Parts

theorem string_injective : Function.Injective Json.string := fun _ _ same => string.inj same

theorem ofInt_injective : Function.Injective Json.ofInt :=
  fun _ _ same => JsonNumber.int.inj (number.inj same)

end Json

open Json

/-! Shapes and their JSON -/

theorem ValueCheck.name_injective : Function.Injective ValueCheck.name := by
  intro a b same
  cases a <;> cases b <;> simp_all [ValueCheck.name]

theorem SocketKind.name_injective : Function.Injective SocketKind.name := by
  intro a b same
  cases a <;> cases b <;> simp_all [SocketKind.name]

theorem checkJson_injective : Function.Injective Shape.checkJson :=
  fun _ _ same => ValueCheck.name_injective (string.inj same)

def DropdownOption.toJson (o : DropdownOption) : Json :=
  object [("label", .string o.label), ("value", .string o.value)]

theorem DropdownOption.toJson_injective : Function.Injective DropdownOption.toJson := by
  intro a b same
  simp only [toJson, object.injEq, List.cons.injEq, Prod.mk.injEq, true_and, string.injEq, and_true]
    at same
  cases a
  cases b
  exact (DropdownOption.mk.injEq ..).mpr same

theorem Validator.toJson_injective : Function.Injective Validator.toJson := by
  intro a b same
  cases a <;> cases b <;>
    simp only [toJson, object.injEq, List.cons.injEq, Prod.mk.injEq, true_and, string.injEq,
      and_true, String.reduceEq, false_and, array.injEq] at same
  · have absent : ∀ n, ofInt n ≠ null := fun _ => Json.noConfusion
    rw [nullable_inj ofInt_injective absent same.1, nullable_inj ofInt_injective absent same.2]
  · rw [same]
  · rw [items_inj string_injective same]

namespace FieldSpec

def parts (f : FieldSpec) : List (String × Option Json) :=
  [("name", some (.string f.name)), ("default", some (.string f.default)),
    ("options", listPart DropdownOption.toJson f.options),
    ("validator", f.validator.map Validator.toJson)]

theorem toJson_eq (f : FieldSpec) : f.toJson = object (written f.parts) := by
  unfold toJson parts listPart
  cases f.options.isEmpty <;> cases f.validator <;> rfl

theorem parts_injective : Function.Injective parts := by
  intro a b same
  simp only [parts, List.cons.injEq, Prod.mk.injEq, true_and, Option.some.injEq, string.injEq,
    and_true] at same
  obtain ⟨name, default, options, validator⟩ := same
  cases a
  cases b
  exact (FieldSpec.mk.injEq ..).mpr ⟨name, default,
    listPart_inj DropdownOption.toJson_injective options,
    optional_inj Validator.toJson_injective validator⟩

theorem toJson_injective : Function.Injective toJson :=
  injective_of_parts ["name", "default", "options", "validator"] (by decide) (fun _ => rfl)
    toJson_eq parts_injective

end FieldSpec

namespace ValueSocket

def toJson (v : ValueSocket) : Json :=
  object (("name", .string v.name) :: Shape.checkMember v.check)

def parts (v : ValueSocket) : List (String × Option Json) :=
  [("name", some (.string v.name)), ("check", v.check.map Shape.checkJson)]

theorem toJson_eq (v : ValueSocket) : v.toJson = object (written v.parts) := by
  unfold toJson parts
  cases v.check <;> rfl

theorem parts_injective : Function.Injective parts := by
  intro a b same
  simp only [parts, List.cons.injEq, Prod.mk.injEq, true_and, Option.some.injEq, string.injEq,
    and_true] at same
  cases a
  cases b
  exact (ValueSocket.mk.injEq ..).mpr ⟨same.1, optional_inj checkJson_injective same.2⟩

theorem toJson_injective : Function.Injective toJson :=
  injective_of_parts ["name", "check"] (by decide) (fun _ => rfl) toJson_eq parts_injective

end ValueSocket

namespace RepeatingSocket

def toJson (r : RepeatingSocket) : Json :=
  object ([("prefix", .string r.stem), ("kind", .string r.kind.name)] ++ Shape.checkMember r.check)

def parts (r : RepeatingSocket) : List (String × Option Json) :=
  [("prefix", some (.string r.stem)), ("kind", some (.string r.kind.name)),
    ("check", r.check.map Shape.checkJson)]

theorem toJson_eq (r : RepeatingSocket) : r.toJson = object (written r.parts) := by
  unfold toJson parts
  cases r.check <;> rfl

theorem parts_injective : Function.Injective parts := by
  intro a b same
  simp only [parts, List.cons.injEq, Prod.mk.injEq, true_and, Option.some.injEq, string.injEq,
    and_true] at same
  obtain ⟨stem, kind, check⟩ := same
  cases a
  cases b
  exact (RepeatingSocket.mk.injEq ..).mpr
    ⟨stem, SocketKind.name_injective kind, optional_inj checkJson_injective check⟩

theorem toJson_injective : Function.Injective toJson :=
  injective_of_parts ["prefix", "kind", "check"] (by decide) (fun _ => rfl) toJson_eq
    parts_injective

end RepeatingSocket

def Output.toJson (o : Output) : Json := object [("check", o.check.elim .null Shape.checkJson)]

theorem Output.toJson_injective : Function.Injective Output.toJson := by
  intro a b same
  simp only [toJson, object.injEq, List.cons.injEq, Prod.mk.injEq, true_and, and_true] at same
  have check := nullable_inj checkJson_injective (fun _ => Json.noConfusion) same
  cases a
  cases b
  exact congrArg Output.mk check

namespace Shape

def parts (s : Shape) : List (String × Option Json) :=
  [("kind", some (.string s.kind)), ("tooltip", some (.string s.tooltip)),
    ("fields", some (.array (s.fields.map FieldSpec.toJson))),
    ("value_inputs", some (.array (s.valueSockets.map ValueSocket.toJson))),
    ("statement_inputs", some (.array (s.statementSockets.map .string))),
    ("repeating", listPart RepeatingSocket.toJson s.repeating),
    ("output", s.output.map Output.toJson), ("previous", some (.bool s.previous)),
    ("next", some (.bool s.next))]

theorem toJson_eq (s : Shape) : s.toJson = object (written s.parts) := by
  unfold toJson parts listPart
  cases s.repeating.isEmpty <;> cases s.output <;> rfl

theorem parts_injective : Function.Injective parts := by
  intro a b same
  simp only [parts, List.cons.injEq, Prod.mk.injEq, true_and, Option.some.injEq,
    string.injEq, array.injEq, bool.injEq, and_true] at same
  obtain ⟨kind, tooltip, fields, values, statements, repeating, output, previous, next⟩ := same
  cases a
  cases b
  exact (Shape.mk.injEq ..).mpr ⟨kind, tooltip, items_inj FieldSpec.toJson_injective fields,
    items_inj ValueSocket.toJson_injective values, items_inj string_injective statements,
    listPart_inj RepeatingSocket.toJson_injective repeating,
    optional_inj Output.toJson_injective output, previous, next⟩

theorem toJson_injective : Function.Injective toJson :=
  injective_of_parts ["kind", "tooltip", "fields", "value_inputs", "statement_inputs",
    "repeating", "output", "previous", "next"] (by decide) (fun _ => rfl) toJson_eq parts_injective

end Shape

/-! No floats -/

namespace Json

variable {α : Type} {write : α → Json}

theorem floatless_some {v : Json} (floatless : v.Floatless) : ∀ w ∈ some v, w.Floatless := by
  intro w member
  rw [← Option.mem_some.mp member]
  exact floatless

theorem floatless_items (each : ∀ a, (write a).Floatless) (xs : List α) :
    (array (xs.map write)).Floatless := by
  refine Floatless.array fun v member => ?_
  obtain ⟨a, -, rfl⟩ := List.mem_map.mp member
  exact each a

theorem floatless_optional (each : ∀ a, (write a).Floatless) (part : Option α) :
    ∀ v ∈ part.map write, v.Floatless := by
  intro v member
  obtain ⟨a, -, rfl⟩ := Option.map_eq_some_iff.mp member
  exact each a

theorem floatless_listPart (each : ∀ a, (write a).Floatless) (xs : List α) :
    ∀ v ∈ listPart write xs, v.Floatless := by
  unfold listPart
  split
  · exact nofun
  · exact floatless_some (floatless_items each xs)

end Json

theorem floatless_check (c : ValueCheck) : (Shape.checkJson c).Floatless := Floatless.string _

theorem DropdownOption.floatless (o : DropdownOption) : o.toJson.Floatless := by
  apply Floatless.object
  simp only [List.forall_mem_cons, List.not_mem_nil, false_imp_iff, implies_true, and_true]
  exact ⟨.string _, .string _⟩

theorem Validator.floatless (v : Validator) : v.toJson.Floatless := by
  have bound : ∀ n : Option Int, (n.elim null ofInt).Floatless := by
    intro n
    cases n with
    | none => exact .null
    | some n => exact .int n
  cases v <;> apply Floatless.object <;>
    simp only [List.forall_mem_cons, List.not_mem_nil, false_imp_iff, implies_true, and_true]
  · exact ⟨.string _, bound _, bound _⟩
  · exact ⟨.string _, .string _⟩
  · exact ⟨.string _, floatless_items .string _⟩

theorem FieldSpec.floatless (f : FieldSpec) : f.toJson.Floatless := by
  rw [toJson_eq]
  apply floatless_written
  simp only [parts, List.forall_mem_cons, List.not_mem_nil, false_imp_iff, implies_true, and_true]
  exact ⟨floatless_some (.string _), floatless_some (.string _),
    floatless_listPart DropdownOption.floatless _, floatless_optional Validator.floatless _⟩

theorem ValueSocket.floatless (v : ValueSocket) : v.toJson.Floatless := by
  rw [toJson_eq]
  apply floatless_written
  simp only [parts, List.forall_mem_cons, List.not_mem_nil, false_imp_iff, implies_true, and_true]
  exact ⟨floatless_some (.string _), floatless_optional floatless_check _⟩

theorem RepeatingSocket.floatless (r : RepeatingSocket) : r.toJson.Floatless := by
  rw [toJson_eq]
  apply floatless_written
  simp only [parts, List.forall_mem_cons, List.not_mem_nil, false_imp_iff, implies_true, and_true]
  exact ⟨floatless_some (.string _), floatless_some (.string _),
    floatless_optional floatless_check _⟩

theorem Output.floatless (o : Output) : o.toJson.Floatless := by
  apply Floatless.object
  simp only [List.forall_mem_cons, List.not_mem_nil, false_imp_iff, implies_true, and_true]
  cases o.check with
  | none => exact .null
  | some c => exact floatless_check c

theorem Shape.floatless (s : Shape) : s.toJson.Floatless := by
  rw [toJson_eq]
  apply floatless_written
  simp only [parts, List.forall_mem_cons, List.not_mem_nil, false_imp_iff, implies_true, and_true]
  exact ⟨floatless_some (.string _), floatless_some (.string _),
    floatless_some (floatless_items FieldSpec.floatless _),
    floatless_some (floatless_items ValueSocket.floatless _),
    floatless_some (floatless_items .string _), floatless_listPart RepeatingSocket.floatless _,
    floatless_optional Output.floatless _, floatless_some (.bool _), floatless_some (.bool _)⟩

/-! Catalogues -/

namespace Catalogue

def attempt (c : Catalogue) (shape : Shape) : Catalogue :=
  match c.define shape with
  | .ok (_, next) => next
  | .error _ => c

def afterAll (shapes : List Shape) : Catalogue := shapes.foldl attempt empty

def lastAccepted (shapes : List Shape) (kind : String) : Option Shape :=
  shapes.reverse.find? fun s => s.fault?.isNone && s.kind = kind

theorem attempt_cases (c : Catalogue) (shape : Shape) :
    shape.fault?.isNone = true ∧ c.attempt shape = ⟨c.shapes.insert shape.kind shape⟩ ∨
      shape.fault?.isNone = false ∧ c.attempt shape = c := by
  unfold attempt define
  cases shape.fault? with
  | none => exact Or.inl ⟨rfl, rfl⟩
  | some fault => exact Or.inr ⟨rfl, rfl⟩

theorem lookup_attempt (c : Catalogue) (shape : Shape) (kind : String) :
    (c.attempt shape).lookup kind =
      if shape.fault?.isNone && shape.kind = kind then some shape else c.lookup kind := by
  rcases attempt_cases c shape with ⟨accepted, same⟩ | ⟨refused, same⟩
  · rw [same, lookup, SortedMap.get?_insert, accepted]
    simp [lookup]
  · rw [same, refused]
    simp

theorem lookup_foldl_attempt (shapes : List Shape) (c : Catalogue) (kind : String) :
    (shapes.foldl attempt c).lookup kind = (lastAccepted shapes kind).or (c.lookup kind) := by
  induction shapes generalizing c with
  | nil => rfl
  | cons shape rest ih =>
    rw [List.foldl_cons, ih, lookup_attempt]
    unfold lastAccepted
    rw [List.reverse_cons, List.find?_append, Option.or_assoc, List.find?_singleton]
    split <;> rfl

theorem lookup_afterAll (shapes : List Shape) (kind : String) :
    (afterAll shapes).lookup kind = lastAccepted shapes kind := by
  unfold afterAll
  rw [lookup_foldl_attempt]
  exact Option.or_none

def Keyed (c : Catalogue) : Prop := ∀ e ∈ c.shapes.entries, e.1 = e.2.kind

theorem keyed_attempt {c : Catalogue} (keyed : c.Keyed) (shape : Shape) :
    (c.attempt shape).Keyed := by
  rcases attempt_cases c shape with ⟨-, same⟩ | ⟨-, same⟩
  · rw [same]
    intro e member
    rcases SortedMap.mem_insertEntry member with rfl | old
    · rfl
    · exact keyed e old
  · rw [same]
    exact keyed

theorem keyed_foldl_attempt (shapes : List Shape) {c : Catalogue} (keyed : c.Keyed) :
    (shapes.foldl attempt c).Keyed := by
  induction shapes generalizing c with
  | nil => exact keyed
  | cons shape rest ih => exact ih (keyed_attempt keyed shape)

theorem keyed_afterAll (shapes : List Shape) : (afterAll shapes).Keyed :=
  keyed_foldl_attempt shapes fun _ member => nomatch member

theorem lookup_of_shapes {c d : Catalogue} (first : c.Keyed) (second : d.Keyed)
    (same : c.shapes.entries.map Prod.snd = d.shapes.entries.map Prod.snd) (kind : String) :
    c.lookup kind = d.lookup kind := by
  have rebuilt : ∀ {c : Catalogue}, c.Keyed →
      (c.shapes.entries.map Prod.snd).map (fun s => (s.kind, s)) = c.shapes.entries := by
    intro c keyed
    have same : ∀ e ∈ c.shapes.entries, (e.2.kind, e.2) = e :=
      fun e member => Prod.ext (keyed e member).symm rfl
    rw [List.map_map]
    exact (List.map_congr_left same).trans (List.map_id' _)
  unfold lookup SortedMap.get?
  rw [← rebuilt first, ← rebuilt second, same]

theorem floatless (c : Catalogue) : c.toJson.Floatless :=
  Json.floatless_items (fun e : String × Shape => e.2.floatless) _

theorem lookup_of_canonicalText {c d : Catalogue} (first : c.Keyed) (second : d.Keyed)
    (same : c.canonicalText = d.canonicalText) (kind : String) : c.lookup kind = d.lookup kind := by
  apply lookup_of_shapes first second
  have values : c.toJson = d.toJson := Json.compact_injective c.floatless d.floatless same
  apply Json.items_inj Shape.toJson_injective
  rw [List.map_map, List.map_map]
  exact Json.array.inj values

theorem canonicalText_of_lookup {c d : Catalogue} (same : ∀ kind, c.lookup kind = d.lookup kind) :
    c.canonicalText = d.canonicalText := by
  unfold canonicalText toJson
  rw [SortedMap.ext_get? same]

/-- Two catalogues have the same canonical text exactly if they give every kind the same shape, that
is, if the last accepted shapes are the same. -/
theorem canonicalText_tells_catalogues_apart (first second : List Shape) :
    ((afterAll first).canonicalText = (afterAll second).canonicalText ↔
        ∀ kind, (afterAll first).lookup kind = (afterAll second).lookup kind) ∧
      ((afterAll first).canonicalText = (afterAll second).canonicalText ↔
        ∀ kind, lastAccepted first kind = lastAccepted second kind) ∧
      ∀ kind, (afterAll first).lookup kind = lastAccepted first kind := by
  have told : (afterAll first).canonicalText = (afterAll second).canonicalText ↔
      ∀ kind, (afterAll first).lookup kind = (afterAll second).lookup kind := by
    constructor
    · exact lookup_of_canonicalText (keyed_afterAll first) (keyed_afterAll second)
    · exact canonicalText_of_lookup
  refine ⟨told, ?_, lookup_afterAll first⟩
  rw [told]
  simp only [lookup_afterAll]

end Catalogue

end BlockSketch
