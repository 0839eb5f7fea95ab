/-!
# TOML tables

The items of a TOML document and how its statements build the tables.  A table remembers how it
came to be, since that decides how it may be added to: a header may open a table that so far was
only implied, and a dotted key may go on in a table that dotted keys made.
-/

namespace Timelock.Toml

/-- How a table came to be. -/
inductive Origin where
  | declared
  /-- It stands above a table with a header. -/
  | implied
  /-- Dotted keys made it. -/
  | dotted
  | inline
  deriving DecidableEq

inductive Item where
  | string (value : String)
  | integer (value : Int)
  | boolean (value : Bool)
  | float
  | dateTime
  | array (items : List Item)
  | table (origin : Origin) (entries : List (String × Item))
  /-- Tables that follow one another under one header. -/
  | tables (elements : List (List (String × Item)))

abbrev Entries := List (String × Item)

namespace Entries

def set (es : Entries) (k : String) (v : Item) : Entries :=
  es.map (fun e ↦ if e.1 = k then (k, v) else e)

/-- A new entry; its key must be free. -/
def add? (es : Entries) (k : String) (v : Item) : Option Entries :=
  match es.lookup k with
  | none => some (es ++ [(k, v)])
  | some _ => none

def changeLast? (f : Entries → Option Entries) : List Entries → Option (List Entries)
  | [] => none
  | [t] => do return [← f t]
  | t :: ts => do return t :: (← changeLast? f ts)

end Entries

/-- Which tables a path may lead into, and what it makes where there is none. -/
structure Route where
  made : Origin
  /-- Whether a path may enter a table, given whether the path ends there. -/
  enters : (last : Bool) → Origin → Bool
  entersElement : (last : Bool) → Bool

namespace Route

/-- The way of a header: through any tables that are not in braces. -/
def header : Route := ⟨.implied, fun _ o ↦ o ≠ .inline, fun _ ↦ true⟩

/-- The way of a dotted key: through implied tables to one that dotted keys made. -/
def key : Route :=
  ⟨.dotted, fun last o ↦ o = .dotted || (!last && o = .implied), fun last ↦ !last⟩

def follow (r : Route) (f : Entries → Option Entries) : List String → Entries → Option Entries
  | [], es => f es
  | k :: ks, es =>
      let last := ks.isEmpty
      match es.lookup k with
      | none => do return es ++ [(k, .table r.made (← r.follow f ks []))]
      | some (.table o sub) =>
          if r.enters last o then do return es.set k (.table o (← r.follow f ks sub)) else none
      | some (.tables ts) =>
          if r.entersElement last then do
            return es.set k (.tables (← Entries.changeLast? (r.follow f ks) ts))
          else none
      | some _ => none

end Route

structure Key where
  path : List String
  name : String
  deriving DecidableEq

namespace Entries

def put? (es : Entries) (k : Key) (v : Item) : Option Entries :=
  Route.key.follow (·.add? k.name v) k.path es

/-- Open a table by its header; it may have been implied before. -/
def declare? (es : Entries) (k : Key) : Option Entries :=
  Route.header.follow (fun es ↦
    match es.lookup k.name with
    | none => some (es ++ [(k.name, .table .declared [])])
    | some (.table .implied sub) => some (es.set k.name (.table .declared sub))
    | some _ => none) k.path es

def declareElement? (es : Entries) (k : Key) : Option Entries :=
  Route.header.follow (fun es ↦
    match es.lookup k.name with
    | none => some (es ++ [(k.name, .tables [[]])])
    | some (.tables ts) => some (es.set k.name (.tables (ts ++ [[]])))
    | some _ => none) k.path es

def ofPairs? (ps : List (Key × Item)) : Option Entries :=
  ps.foldlM (fun es p ↦ es.put? p.1 p.2) []

end Entries

inductive Statement where
  | pair (key : Key) (value : Item)
  | header (key : Key)
  | elementHeader (key : Key)

/-- The tables so far, and the path of the table that pairs go to. -/
structure Building where
  root : Entries := []
  current : List String := []

namespace Building

def add? (b : Building) : Statement → Option Building
  | .pair k v => do
      return { b with root := ← Route.header.follow (·.put? k v) b.current b.root }
  | .header k => do return ⟨← b.root.declare? k, k.path ++ [k.name]⟩
  | .elementHeader k => do return ⟨← b.root.declareElement? k, k.path ++ [k.name]⟩

def ofStatements? (ss : List Statement) : Option Entries := do
  return (← ss.foldlM Building.add? {}).root

end Building

end Timelock.Toml
