import Quire.Toml.Scalar

/-!
# Tables of a configuration file

A file is a list of statements: an entry under a key, the header of a table, or the header of one
more table of a list. Put together they make up one table, in which no key may be given twice. A key
with dots makes the tables on its way, and goes only through tables that were made so; a header also
goes through those that other headers made, and may claim for itself once a table that was made on
the way of another.
-/

namespace Quire.Toml

/-! ## 1. Values and statements -/

/-- A key, with dots where it has more than one part. -/
abbrev Key := List String

/-- What an entry has. -/
inductive Value where
  | string (s : String)
  | scalar (s : Scalar)
  | array (items : List Value)
  | table (entries : List (Key × Value))

/-- A statement of a file. -/
inductive Statement where
  | entry (key : Key) (value : Value)
  | table (key : Key)
  | tableOfList (key : Key)

/-! ## 2. Nodes -/

/-- What stands under one part of a key while tables are put together. -/
inductive Node where
  | value (v : Value)
  /-- A table: whether it was made only on the way, and whether that was by a key with dots. -/
  | table (onTheWay dotted : Bool) (entries : List (String × Node))
  /-- A list of tables, the latest first. -/
  | tables (latest : List (String × Node)) (earlier : List (List (String × Node)))

/-- The entries of a table. -/
abbrev Entries := List (String × Node)

namespace Entries

/-- What stands under a part of a key. -/
def get? (k : String) (es : Entries) : Option Node :=
  es.lookup k

/-- The entries with something put under a part of a key, in the place of what was there. -/
def put (k : String) (n : Node) : Entries → Entries
  | [] => [(k, n)]
  | (l, m) :: es => if l = k then (k, n) :: es else (l, m) :: put k n es

/-- The entries with those of the table at a key changed, or nothing if the key does not lead to a
table that may be changed. Tables that are missing are made. `dotted` says that it is a key of an
entry that is followed, and `isDotted` that the table at hand was made by one; the change is told
which table it comes to. -/
def atTable (dotted isDotted : Bool) (change : Bool → Entries → Option Entries) :
    Key → Entries → Option Entries
  | [], es => change isDotted es
  | k :: ks, es =>
    match es.get? k with
    | none => (atTable dotted dotted change ks []).map fun inner =>
        es.put k (.table true dotted inner)
    | some (.table onTheWay made inner) =>
      if dotted && !onTheWay then none
      else (atTable dotted made change ks inner).map fun inner =>
        es.put k (.table onTheWay made inner)
    | some (.tables latest earlier) =>
      (atTable dotted false change ks latest).map fun latest => es.put k (.tables latest earlier)
    | some (.value _) => none

/-- The entries with a value under a key. The last part of the key has to be new in a table that,
just if the key has dots, was made by such keys. -/
def addValue (key : Key) (v : Value) (es : Entries) : Option Entries :=
  match key.getLast? with
  | none => none
  | some last =>
    atTable true false
      (fun isDotted inner =>
        if isDotted == (key.length == 1) then none
        else match inner.get? last with
          | none => some (inner.put last (.value v))
          | some _ => none)
      key.dropLast es

/-- The entries with a table that a header names. -/
def addTable (key : Key) (es : Entries) : Option Entries :=
  match key.getLast? with
  | none => none
  | some last =>
    atTable false false
      (fun _ inner =>
        match inner.get? last with
        | none => some (inner.put last (.table false false []))
        | some (.table true false entries) => some (inner.put last (.table false false entries))
        | some _ => none)
      key.dropLast es

/-- The entries with one more table of a list that a header names. -/
def addTableOfList (key : Key) (es : Entries) : Option Entries :=
  match key.getLast? with
  | none => none
  | some last =>
    atTable false false
      (fun _ inner =>
        match inner.get? last with
        | none => some (inner.put last (.tables [] []))
        | some (.tables latest earlier) => some (inner.put last (.tables [] (latest :: earlier)))
        | some _ => none)
      key.dropLast es

/-- The entries with those of the table that the latest header named changed. -/
def atHeader (change : Entries → Option Entries) : Key → Entries → Option Entries
  | [], es => change es
  | k :: ks, es =>
    match es.get? k with
    | some (.table onTheWay made inner) =>
      (atHeader change ks inner).map fun inner => es.put k (.table onTheWay made inner)
    | some (.tables latest earlier) =>
      (atHeader change ks latest).map fun latest => es.put k (.tables latest earlier)
    | _ => none

end Entries

/-! ## 3. Putting statements together -/

/-- The entries that values under keys make up, as in a table between braces. -/
def Entries.ofList (entries : List (Key × Value)) : Option Entries :=
  entries.foldlM (fun es (key, v) => Entries.addValue key v es) []

/-- The entries after one more statement, and the key of the latest header. -/
def Statement.addTo : Key × Entries → Statement → Option (Key × Entries)
  | (header, es), .entry key v =>
    (Entries.atHeader (Entries.addValue key v) header es).map fun es => (header, es)
  | (_, es), .table key => (Entries.addTable key es).map fun es => (key, es)
  | (_, es), .tableOfList key => (Entries.addTableOfList key es).map fun es => (key, es)

/-- The table that statements make up. -/
def Entries.ofStatements (statements : List Statement) : Option Entries :=
  (statements.foldlM Statement.addTo ([], [])).map (·.2)

end Quire.Toml
