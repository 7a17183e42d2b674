import IdeExport.Data.Value
/-!
# TOML tables

A document grows one header or one assignment at a time.  How a table came to be says what may still be added
to it: a table that a header opened is defined once, one that dotted keys made grows by dotted keys only, and
one that is merely on the way to another may still be opened.  Values, inline tables among them, are closed.
-/
namespace IdeExport
namespace Toml

inductive Origin
  /-- A header opened it. -/
  | header
  /-- It is on the way to the table of a header. -/
  | implied
  /-- It is on the way to the key of an assignment. -/
  | dotted
  deriving DecidableEq, Repr

inductive Node
  | value (v : Value)
  | table (origin : Origin) (entries : List (Text × Node))
  /-- An array of tables, the last of which is open. -/
  | tables (closed : List (List (Text × Node))) (last : List (Text × Node))
  deriving Repr

abbrev Entries := List (Text × Node)

/-- Change what a key stands for, or add the key.  The change may refuse. -/
def change? (key : Text) (change : Option Node → Option Node) : Entries → Option Entries
  | [] => (change none).map (fun node => [(key, node)])
  | (k, node) :: entries =>
    if k = key then (change (some node)).map (fun node => (k, node) :: entries)
    else (change? key change entries).map ((k, node) :: ·)

/-- Assign a value to a dotted key.  A table that the last part of the key is put into must be dotted; on the way
to it an implied one may be passed as well, or the open one of an array of tables. -/
def assign? : List Text → Value → Entries → Option Entries
  | [], _, _ => none
  | [key], v, entries =>
    change? key (fun
      | none => some (.value v)
      | some _ => none) entries
  | key :: keys, v, entries =>
    change? key (fun
      | none => (assign? keys v []).map (.table .dotted)
      | some (.table .dotted inner) => (assign? keys v inner).map (.table .dotted)
      | some (.table .implied inner) =>
        if keys.length ≤ 1 then none else (assign? keys v inner).map (.table .implied)
      | some (.tables closed last) =>
        if keys.length ≤ 1 then none else (assign? keys v last).map (.tables closed)
      | some _ => none) entries

/-- Work in the table that a header names, or in the last one of an array of tables. -/
def within? (path : List Text) (work : Entries → Option Entries) (entries : Entries) : Option Entries :=
  match path with
  | [] => work entries
  | key :: keys =>
    change? key (fun
      | none => (within? keys work []).map (.table .implied)
      | some (.table origin inner) => (within? keys work inner).map (.table origin)
      | some (.tables closed last) => (within? keys work last).map (.tables closed)
      | some (.value _) => none) entries

def openTable? (path : List Text) (entries : Entries) : Option Entries :=
  match path.getLast? with
  | none => none
  | some key =>
    within? path.dropLast (change? key (fun
      | none => some (.table .header [])
      | some (.table .implied inner) => some (.table .header inner)
      | some _ => none)) entries

def openElement? (path : List Text) (entries : Entries) : Option Entries :=
  match path.getLast? with
  | none => none
  | some key =>
    within? path.dropLast (change? key (fun
      | none => some (.tables [] [])
      | some (.tables closed last) => some (.tables (closed ++ [last]) [])
      | some _ => none)) entries

/-! ## The value of a document -/

mutual

def Node.toValue : Node → Value
  | .value v => v
  | .table _ entries => .object (entriesToFields entries)
  | .tables closed last => .array (tablesToValues closed ++ [.object (entriesToFields last)])

def entriesToFields : List (Text × Node) → List (Text × Value)
  | [] => []
  | (key, node) :: entries => (key, node.toValue) :: entriesToFields entries

def tablesToValues : List (List (Text × Node)) → List Value
  | [] => []
  | entries :: tables => .object (entriesToFields entries) :: tablesToValues tables

end

end Toml
end IdeExport
