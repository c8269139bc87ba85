import Workflow.Toml.Text

/-!
The tables of a TOML document under construction, and which of its keys are closed. A key is
frozen, with all that lies below it, once it holds an array or an inline table; it is explicit once
a header or a dotted key has opened it.
-/

namespace Workflow.Toml

structure Marks where
  frozen : List Key
  explicit : List Key
  /-- Keys that become explicit with the next header. -/
  pending : List Key

namespace Marks

def none : Marks := ⟨[], [], []⟩

def isFrozen (m : Marks) (key : Key) : Bool := m.frozen.any (·.isPrefixOf key)

def isExplicit (m : Marks) (key : Key) : Bool := m.explicit.contains key

def freeze (m : Marks) (key : Key) : Marks := { m with frozen := key :: m.frozen }

def opened (m : Marks) (key : Key) : Marks := { m with explicit := key :: m.explicit }

def defer (m : Marks) (keys : List Key) : Marks := { m with pending := keys ++ m.pending }

/-- The pending keys become explicit. -/
def settle (m : Marks) : Marks := { m with explicit := m.pending ++ m.explicit, pending := [] }

/-- Forgets a key and all below it. -/
def clear (m : Marks) (key : Key) : Marks :=
  { m with
    frozen := m.frozen.filter (!key.isPrefixOf ·)
    explicit := m.explicit.filter (!key.isPrefixOf ·) }

end Marks

/-- Applies a change to the table at a key, and makes the tables on the way that are not there.
Where `throughArrays` is set, an array of tables stands for its last table. A key on the way that
holds anything else is not overwritten. -/
def changeAt (throughArrays : Bool) (change : Entries → Except Problem Entries) :
    Key → Entries → Except Problem Entries
  | [], entries => change entries
  | name :: key, entries =>
    match entries.lookup name with
    | none => (changeAt throughArrays change key []).map fun inner =>
        entries.put name (.table inner)
    | some (.table inner) => (changeAt throughArrays change key inner).map fun inner =>
        entries.put name (.table inner)
    | some (.list items) =>
      match throughArrays, items.getLast? with
      | true, some (.table inner) => (changeAt throughArrays change key inner).map fun inner =>
          entries.put name (.list (items.dropLast ++ [.table inner]))
      | _, _ => .error .overwritten
    | some _ => .error .overwritten

/-- Adds a table to the array of tables at a name. -/
def appendTable (name : String) (entries : Entries) : Except Problem Entries :=
  match entries.lookup name with
  | none => .ok (entries.put name (.list [.table []]))
  | some (.list items) => .ok (entries.put name (.list (items ++ [.table []])))
  | some _ => .error .overwritten

/-- Adds an entry under a name that is not there yet. -/
def addEntry (name : String) (v : Value) (taken : Problem) (entries : Entries) :
    Except Problem Entries :=
  if entries.hasKey name then .error taken else .ok (entries.put name v)

end Workflow.Toml
