import TreeEval.Value.Basic

/-!
# Traits of values

A trait says what a value can take part in, whatever its type: addition, comparison, iteration and
so on. A set of traits is a word with one bit for each, in the order in which they are declared.
-/

namespace TreeEval

/-- Something that values of several types can do. -/
inductive Trait where
  /-- Can be added. -/
  | adder
  /-- Can be ordered. -/
  | comparer
  /-- Can hold other values. -/
  | container
  /-- Can be looped over. -/
  | iterable
  /-- Is a sequence of values. -/
  | lister
  /-- Leads from keys to values. -/
  | mapper
  /-- Has a size. -/
  | sizer
deriving DecidableEq

namespace Trait

/-- All traits, in the order of their bits. -/
def all : List Trait := [adder, comparer, container, iterable, lister, mapper, sizer]

/-- The name of a trait. -/
def name : Trait → String
  | adder => "ADDER"
  | comparer => "COMPARER"
  | container => "CONTAINER"
  | iterable => "ITERABLE"
  | lister => "LISTER"
  | mapper => "MAPPER"
  | sizer => "SIZER"

/-- The trait that has a given name. -/
def ofName? (name : String) : Option Trait := all.find? (·.name = name)

/-- The bit that stands for a trait. -/
def bit : Trait → UInt16
  | adder => 1
  | comparer => 2
  | container => 4
  | iterable => 8
  | lister => 16
  | mapper => 32
  | sizer => 64

end Trait

/-- A set of traits. -/
structure TraitSet where
  /-- One bit for each trait. -/
  bits : UInt16
deriving DecidableEq

namespace TraitSet

/-- The set of the traits in a list. -/
def ofList (traits : List Trait) : TraitSet :=
  ⟨traits.foldl (fun bits t => bits ||| t.bit) 0⟩

/-- Whether every trait of another set is in this one. -/
def includes (s other : TraitSet) : Bool := s.bits &&& other.bits = other.bits

/-- Whether a trait is in the set. -/
def contains (s : TraitSet) (t : Trait) : Bool := s.bits &&& t.bit ≠ 0

/-- The members in the order of their bits. -/
def toList (s : TraitSet) : List Trait := Trait.all.filter s.contains

end TraitSet

/-- The traits of the values of a type. Sentinels and null have none. -/
def ValueType.traits : ValueType → List Trait
  | null | error | unknown => []
  | bool => [.comparer]
  | int | uint | double => [.adder, .comparer]
  | string | bytes => [.adder, .comparer, .sizer]
  | list => [.adder, .container, .iterable, .lister, .sizer]
  | map => [.container, .iterable, .mapper, .sizer]

namespace Value

/-- The traits of a value. -/
def traits (v : Value) : TraitSet := TraitSet.ofList v.type.traits

/-- Whether a value has all traits of a set. -/
def hasTraits (v : Value) (traits : TraitSet) : Bool := v.traits.includes traits

/-- A value has a size exactly when it has the trait. -/
theorem contains_sizer (v : Value) : v.traits.contains .sizer = v.size?.isSome := by
  cases v <;> simp only [traits, type, size?, Option.isSome_some, Option.isSome_none] <;> decide

/-- A value can be looped over exactly when it has the trait. -/
theorem contains_iterable (v : Value) : v.traits.contains .iterable = v.items?.isSome := by
  cases v <;> simp only [traits, type, items?, Option.isSome_some, Option.isSome_none] <;> decide

end Value

end TreeEval
