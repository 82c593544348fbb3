/-
  Log filters: which events a log takes.

  A filter is a list of directives with commas between them.

  * `LogFilter.parse?` reads a filter; it refuses the whole if a directive is
    ill-formed.
  * `LogFilter.enables` says whether an event is taken: the most specific
    directive about it decides, and an event that none is about is not taken.

  A directive that names a span, or a value for a field, says nothing about
  events outside of spans.
-/
import ScopedResources.Level
import ScopedResources.LogFilter.Directive

namespace ScopedResources

/-- A log filter: its directives, in the order they are written. -/
structure LogFilter where
  directives : List LogFilter.Directive
  deriving DecidableEq, Repr

namespace LogFilter

/-! ## Reading -/

def splitCommas : List Char → List (List Char)
  | [] => [[]]
  | c :: rest =>
    if c = ',' then [] :: splitCommas rest
    else
      match splitCommas rest with
      | [] => [[c]]
      | part :: parts => (c :: part) :: parts

/-- The filter that a text holds.  Empty parts between commas do not count. -/
def parse? (text : String) : Option LogFilter :=
  (((splitCommas text.toList).filter (· ≠ [])).mapM Directive.read?).map LogFilter.mk

/-! ## Specificity -/

/-- How specific a directive is: by the length of its target, then by the
    number of its fields. -/
def Directive.specificity (d : Directive) : Nat × Nat :=
  (match d.target with
    | some t => t.utf8ByteSize + 1
    | none => 0,
    d.fields.length)

/-- The target of a directive and the names of its fields. -/
def Directive.texts (d : Directive) : List String :=
  d.target.toList ++ d.fields.map (·.name)

/-- Whether one text comes before another in a dictionary. -/
def comesBefore (s t : String) : Bool :=
  s.toList.lex t.toList fun a b => a.toNat < b.toNat

/-- Whether one directive is at least as specific as another.  Of two with equal
    numbers the one whose texts come later counts as more specific. -/
def Directive.covers (d other : Directive) : Bool :=
  let (target, fields) := d.specificity
  let (target', fields') := other.specificity
  target' < target || (target' == target &&
    (fields' < fields || (fields' == fields && !d.texts.lex other.texts comesBefore)))

/-- The most specific of some directives; of two equally specific ones the
    later. -/
def mostSpecific? (directives : List Directive) : Option Directive :=
  directives.foldl
    (fun best d =>
      match best with
      | some b => if d.covers b then some d else some b
      | none => some d)
    none

/-! ## Events -/

/-- Whether a directive is about an event outside of spans, given the target and
    the fields of the event. -/
def Directive.concerns (d : Directive) (target : String) (fields : List String) : Bool :=
  d.span.isNone && d.fields.all (·.value.isNone) &&
    (match d.target with
      | some t => t.toList.isPrefixOf target.toList
      | none => true) &&
    d.fields.all fun field => fields.contains field.name

/-- Whether a filter takes an event with this target, level and fields.  A
    filter without any directive takes errors only. -/
def enables (filter : LogFilter) (target : String) (level : Level) (fields : List String) :
    Bool :=
  if filter.directives = [] then level.rank ≤ 1
  else
    match mostSpecific? (filter.directives.filter (·.concerns target fields)) with
    | some d => level.rank ≤ d.threshold
    | none => false

end LogFilter

end ScopedResources
