import Concord.Format.Option
import Concord.Map.Ordered

/-!
# The options handed to a formatter

A set of formatter options has typed values for some of the nine options that rules can drive, and
any other named values, which pass through in the order in which they were first given. A name of
one of the nine never passes through: `FormatOptions.set` gives it to the typed part or, if the
value is of no use, drops it.
-/

namespace Concord

/-- Options for one run of a formatter. -/
structure FormatOptions where
  /-- The values of the options that rules can drive. -/
  typed : FormatOption → Option FormatValue
  /-- All other options. -/
  extra : OrderedMap Json

namespace FormatOptions

/-- No options. -/
def empty : FormatOptions := ⟨fun _ => none, .empty⟩

instance : Inhabited FormatOptions := ⟨empty⟩

/-- The value of an option. -/
def get? (o : FormatOptions) (key : FormatOption) : Option FormatValue := o.typed key

/-- Whether an option has a value. -/
def contains (o : FormatOptions) (key : FormatOption) : Bool := (o.typed key).isSome

/-- The options with a value for one of the nine. -/
def insert (o : FormatOptions) (key : FormatOption) (value : FormatValue) : FormatOptions :=
  { o with typed := fun k => if k = key then some value else o.typed k }

/-- The options with a named JSON value. -/
def set (o : FormatOptions) (name : String) (value : Json) : FormatOptions :=
  match FormatOption.ofName? name with
  | some key =>
    match key.read? value with
    | some v => o.insert key v
    | none => o
  | none => { o with extra := o.extra.insert name value }

/-- The options that have a typed value, in the order of `FormatOption.all`. -/
def typedEntries (o : FormatOptions) : List (FormatOption × FormatValue) :=
  FormatOption.all.filterMap fun key => (o.typed key).map (key, ·)

/-- Whether there are no options at all. -/
def isEmpty (o : FormatOptions) : Bool := o.typedEntries.isEmpty && o.extra.isEmpty

/-- The options of `upper` over those of `lower`. -/
def overlay (lower upper : FormatOptions) : FormatOptions where
  typed key := (upper.typed key).or (lower.typed key)
  extra := lower.extra.overlay upper.extra

/-- The options that a map describes, its entries set one after another. -/
def ofMap (m : OrderedMap Json) : FormatOptions :=
  m.entries.foldl (fun o entry => o.set entry.1 entry.2) empty

/-- The options that the fields of an object describe. An object is a map: of a repeated name the
last value counts, whether it is of use or not. -/
def ofFields (fields : List (String × Json)) : FormatOptions := ofMap (.ofList fields)

/-- The options as a map: the typed ones are written first, then those that pass through. -/
def toMap (o : FormatOptions) : OrderedMap Json :=
  (OrderedMap.ofList (o.typedEntries.map fun (key, value) => (key.name, value.toJson))).overlay
    o.extra

/-- The options as named values. -/
def toFields (o : FormatOptions) : List (String × Json) := o.toMap.entries

/-- The options as an object. -/
def toJson (o : FormatOptions) : Json := .object o.toFields

end FormatOptions

end Concord
