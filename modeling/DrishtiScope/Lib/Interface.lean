import DrishtiScope.Go.Marshal

open Go

-- The types of TypeScript that interfaces of messages are made of, and the JSON values that have them.
inductive Interface
  | number
  | string
  | oneOf (names : List String)
  | array (t : Interface)
  | object
  | required (name : String) (t : Interface)
  | optional (name : String) (t : Interface)
  | and (t u : Interface)

namespace Interface

-- An object may have further properties.
def record (fields : List Interface) : Interface :=
  fields.foldr .and .object

variable {ν μ : Type}

-- If an object has several properties of one name, the last one counts.
def property (fields : List (Bytes × Json ν)) (name : String) : Option (Json ν) :=
  fields.reverse.lookup (str name)

def Has : Interface → Json ν → Prop
  | .number, .number _              => True
  | .string, .string _              => True
  | .oneOf names, .string s         => s ∈ names.map str
  | .array t, .array vs             => ∀ v ∈ vs, t.Has v
  | .object, .object _              => True
  | .required name t, .object fields => ∃ v, property fields name = some v ∧ t.Has v
  | .optional name t, .object fields => ∀ v, property fields name = some v → t.Has v
  | .and t u, v                     => t.Has v ∧ u.Has v
  | _, _                            => False

variable {ts : List Interface} {t : Interface} {fields : List (String × Json ν)} {name : String} {α : Type} 
  {xs : List α} {f : α → Json ν}

theorem has_record {fields : List (Bytes × Json ν)} : (record ts).Has (.object fields) ↔ ∀ t ∈ ts, t.Has (.object fields) := by
  induction ts
  case nil          => simp [record, Has]
  case cons t ts hi => rw [List.forall_mem_cons, ← hi, record, List.foldr_cons, Has, record]

theorem property_struct : 
    property (fields.map fun (name, v) => (str name, v)) name = fields.reverse.lookup name := by
  rw [property, ← List.map_reverse]
  induction fields.reverse
  case nil              => rfl
  case cons field rest hi =>
    have ⟨name', v⟩ := field
    have he : (str name == str name') = (name == name') := by
      rw [Bool.eq_iff_iff, beq_iff_eq, beq_iff_eq]
      exact Json.str_injective.eq_iff
    rw [List.map_cons, List.lookup_cons, List.lookup_cons, hi, he]

theorem lookup_map {g : Json ν → Json ν} : 
    (fields.map fun (name, v) => (name, g v)).lookup name = (fields.lookup name).map g := by
  induction fields
  case nil              => rfl
  case cons field rest hi =>
    have ⟨name', v⟩ := field
    rw [List.map_cons, List.lookup_cons, List.lookup_cons, hi]
    cases name == name' <;> rfl

-- A struct has its properties under the names of its fields.
theorem has_required : 
    (required name t).Has (Json.struct fields).toValid ↔ 
      ∃ v, fields.reverse.lookup name = some v ∧ t.Has v.toValid := by
  rw [Json.toValid_struct, Json.struct, Has, property_struct, ← List.map_reverse, lookup_map]
  simp

theorem has_optional : 
    (optional name t).Has (Json.struct fields).toValid ↔ 
      ∀ v, fields.reverse.lookup name = some v → t.Has v.toValid := by
  rw [Json.toValid_struct, Json.struct, Has, property_struct, ← List.map_reverse, lookup_map]
  simp

theorem has_record_struct : 
    (record ts).Has (Json.struct fields).toValid ↔ ∀ t ∈ ts, t.Has (Json.struct fields).toValid := by
  rw [Json.toValid_struct]
  exact has_record

theorem has_array : (array t).Has (Json.array (xs.map f)).toValid ↔ ∀ x ∈ xs, t.Has (f x).toValid := by
  rw [Json.toValid, Json.toValidElements_eq, Has, List.map_map, List.forall_mem_map]
  rfl

theorem property_mapFields {f : ν → μ} {fields : List (Bytes × Json ν)} : 
    property (Json.mapFields f fields) name = (property fields name).map (Json.map f) := by
  rw [property, property, Json.mapFields_eq, ← List.map_reverse]
  induction fields.reverse
  case nil                => rfl
  case cons field rest hi =>
    obtain ⟨key, v⟩ := field
    rw [List.map_cons, Json.mapField, List.lookup_cons, List.lookup_cons, hi]
    cases str name == key <;> rfl

-- A type says that something is a number, but not which one.
theorem has_map {f : ν → μ} {v : Json ν} : t.Has (v.map f) ↔ t.Has v := by
  induction t generalizing v
  case number | string | oneOf | object => cases v <;> rfl
  case and t u ht hu                    => exact and_congr ht hu
  case array t hi                       =>
    cases v
    case array vs => simp only [Json.map, Json.mapElements_eq, Has, List.forall_mem_map, hi]
    all_goals rfl
  case required name t hi               =>
    cases v
    case object fields => 
      simp only [Json.map, Has, property_mapFields, Option.map_eq_some_iff, exists_exists_and_eq_and, hi]
    all_goals rfl
  case optional name t hi               =>
    cases v
    case object fields => 
      simp only [Json.map, Has, property_mapFields, Option.map_eq_some_iff, forall_exists_index, and_imp, 
        forall_apply_eq_imp_iff₂, hi]
    all_goals rfl

end Interface
