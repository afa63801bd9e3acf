import ScimLdap.Toml.Value

/-!
# Tables under construction

A TOML document spells one table piece by piece: a header opens a table, a dotted key adds to tables inside
the one that is open, a value stands under a key. What may be added to later hangs on how a table came to
be, so a node keeps that:

* a header may open a table that stands there only because a longer header went through it, but no table
  twice, and none that dotted keys made;
* dotted keys may add to tables that dotted keys made, but not to one that a header opened;
* a value, also an inline table or a list in brackets, is finished where it is written.
-/

namespace ScimLdap.Toml

/-- How a table came to be: by its own header, by a longer header that goes through it, or by a dotted key. -/
inductive Origin where
  | header
  | implied
  | dotted
  deriving DecidableEq, Repr, Inhabited

/-- What stands under a key: a finished value, a table, or a list of tables with the last one apart, since
    headers go on in that one. -/
inductive Node where
  | value (v : Value)
  | table (origin : Origin) (entries : List (String × Node))
  | tables (earlier : List (List (String × Node))) (last : List (String × Node))
  deriving Inhabited

namespace Node

abbrev Entries := List (String × Node)

/-- Changes what stands under a key, if the change admits it. A key that is new comes last, so the table keeps
    the order of the document. -/
def update (key : String) (change : Option Node → Option Node) : Entries → Option Entries
  | [] => (change none).map (fun n => [(key, n)])
  | (k, n) :: rest =>
    if k = key then (change (some n)).map (fun n => (k, n) :: rest)
    else (update key change rest).map ((k, n) :: ·)

/-- Changes the table to which a header leads. Tables on the way come to be where there are none, and lists of
    tables are entered at their last table. -/
def within (change : Entries → Option Entries) : List String → Entries → Option Entries
  | [] => change
  | key :: keys => update key fun
    | none => (within change keys []).map (table .implied)
    | some (table origin entries) => (within change keys entries).map (table origin)
    | some (tables earlier last) => (within change keys last).map (tables earlier)
    | some (value _) => none

/-- Changes the table to which the front of a dotted key leads. The way may go through tables that headers have
    implied, but it has to end at one that dotted keys made. -/
def withinDotted (change : Entries → Option Entries) : List String → Entries → Option Entries
  | [] => change
  | key :: keys => update key fun
    | none => (withinDotted change keys []).map (table .dotted)
    | some (table .dotted entries) => (withinDotted change keys entries).map (table .dotted)
    | some (table .implied entries) =>
      if keys.isEmpty then none else (withinDotted change keys entries).map (table .implied)
    | some (tables earlier last) =>
      if keys.isEmpty then none else (withinDotted change keys last).map (tables earlier)
    | some _ => none

def openTable : Option Node → Option Node
  | none => some (table .header [])
  | some (table .implied entries) => some (table .header entries)
  | some _ => none

def openItem : Option Node → Option Node
  | none => some (tables [] [])
  | some (tables earlier last) => some (tables (earlier ++ [last]) [])
  | some _ => none

def setValue (v : Value) : Option Node → Option Node
  | none => some (value v)
  | some _ => none

def assign (front : List String) (key : String) (v : Value) (entries : Entries) : Option Entries :=
  withinDotted (update key (setValue v)) front entries

mutual

def toValue : Node → Value
  | value v => v
  | table _ entries => .table (toEntries entries)
  | tables earlier last => .array (toItems earlier ++ [.table (toEntries last)])

def toEntries : List (String × Node) → Toml.Entries
  | [] => []
  | (key, n) :: rest => (key, toValue n) :: toEntries rest

def toItems : List (List (String × Node)) → List Value
  | [] => []
  | entries :: rest => .table (toEntries entries) :: toItems rest

end

end Node

end ScimLdap.Toml
