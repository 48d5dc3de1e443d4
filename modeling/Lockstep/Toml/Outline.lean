import Lockstep.Toml.Value

/-!
# The outline of a document

While a document is read its tables stay open: headers and dotted keys may add to tables that were
only implied so far.  An `Outline` remembers for every table how it came about, and from that
follows who may still add to it.

* `Body.within` changes the table that a path leads to, making the tables it passes;
* `Body.assign` carries out `key = value`;
* `Draft` is a document under construction: `Draft.openTable`, `Draft.openItem` are the headers
  `[key]` and `[[key]]`.
-/

namespace Lockstep.Toml

/-- How a table came about. -/
inductive Origin where
  /-- By a dotted key. -/
  | dotted
  /-- As a table on the way to a header. -/
  | implied
  /-- By its own header, or as a list item. -/
  | declared
  deriving DecidableEq, Repr

/-- A value that is finished, a table, or a list of tables. -/
inductive Outline where
  | leaf (v : Value)
  | table (origin : Origin) (entries : List (String × Outline))
  | tables (items : List (List (String × Outline)))

instance : Inhabited Outline := ⟨.leaf default⟩

/-- The entries of a table, in the order in which they were made. -/
abbrev Body := List (String × Outline)

namespace Body

/-- The entry of a key. -/
def find? (body : Body) (key : String) : Option Outline :=
  (List.find? (fun entry => entry.1 == key) body).map Prod.snd

/-- The body with another outline for a key it has. -/
def replace (body : Body) (key : String) (o : Outline) : Body :=
  body.map fun entry => if entry.1 = key then (key, o) else entry

/-- The body without a key. -/
def remove (body : Body) (key : String) : Body := body.filter fun entry => entry.1 ≠ key

/-- Changes the table that a path leads to from a table of origin `here`.  Tables that are missing
are made with origin `made`; a list of tables is entered at its last item.  Dotted keys may not
pass a declared table. -/
def within (made : Origin) (change : Origin → Body → Option Body) :
    (here : Origin) → List String → Body → Option Body
  | here, [], body => change here body
  | _, key :: path, body =>
    match body.find? key with
    | none => do
      let inner ← within made change made path []
      return body ++ [(key, .table made inner)]
    | some (.leaf _) => none
    | some (.table origin entries) =>
      if made = .dotted ∧ origin = .declared then none
      else do
        let inner ← within made change origin path entries
        return body.replace key (.table origin inner)
    | some (.tables items) =>
      match items.getLast? with
      | none => none
      -- headers below a list of tables belong to its last item
      | some last => do
        let inner ← within made change .declared path last
        return body.replace key (.tables (items.dropLast ++ [inner]))

/-- Sets a key to a value.  The last part of the key has to be new, and the parts before it may only
lead to tables that dotted keys have made. -/
def assign (body : Body) (key : List String) (o : Outline) : Option Body :=
  match key.getLast? with
  | none => none
  | some name =>
    let path := key.dropLast
    within .dotted
      (fun here inner =>
        -- a plain key adds to the table of its header, a dotted one to a table made by dotted keys
        if decide (here = .dotted) == path.isEmpty then none
        else if (inner.find? name).isSome then none
        else some (inner ++ [(name, o)]))
      .declared path body

end Body

mutual

/-- The value of a finished outline. -/
def Outline.value : Outline → Value
  | .leaf v => v
  | .table _ entries => .table (entriesValue entries)
  | .tables items => .array (itemsValue items)

/-- The values of finished entries. -/
def entriesValue : List (String × Outline) → Table
  | [] => []
  | (key, o) :: entries => (key, o.value) :: entriesValue entries

/-- The values of finished list items. -/
def itemsValue : List (List (String × Outline)) → List Value
  | [] => []
  | entries :: items => .table (entriesValue entries) :: itemsValue items

end

/-- What the lines after a header add to. -/
inductive Section where
  | top
  | table (path : List String) (name : String)
  | item (path : List String) (name : String)
  deriving DecidableEq, Repr

/-- A document under construction: all finished sections, and the one the next lines add to. -/
structure Draft where
  root : Body
  current : Section
  body : Body

namespace Draft

/-- The document before its first line. -/
def empty : Draft := ⟨[], .top, []⟩

/-- All sections put together. -/
def close (d : Draft) : Option Body :=
  match d.current with
  | .top => some d.body
  | .table path name =>
    Body.within .implied
      (fun _ parent => if (parent.find? name).isSome then none
        else some (parent ++ [(name, .table .declared d.body)]))
      .declared path d.root
  | .item path name =>
    Body.within .implied
      (fun _ parent =>
        match parent.find? name with
        | none => some (parent ++ [(name, .tables [d.body])])
        | some (.tables items) => some (parent.replace name (.tables (items ++ [d.body])))
        | some _ => none)
      .declared path d.root

/-- Carries out `key = value`. -/
def assign (d : Draft) (key : List String) (v : Value) : Option Draft := do
  return { d with body := ← d.body.assign key (.leaf v) }

/-- The header `[key]`.  A table that was only implied so far moves to its new place. -/
def openTable (d : Draft) (key : List String) : Option Draft := do
  let root ← d.close
  let name ← key.getLast?
  let path := key.dropLast
  let found ← reach root path name
  match found with
  | none =>
    -- only makes the tables on the way; the table itself is put in when its section ends
    let root ← Body.within .implied (fun _ parent => some parent) .declared path root
    return ⟨root, .table path name, []⟩
  | some (.table .implied entries) =>
    let root ← Body.within .implied (fun _ parent => some (parent.remove name)) .declared path root
    return ⟨root, .table path name, entries⟩
  | some _ => none
where
  /-- What a name stands for at the end of a path; the outer option is for paths that lead
  nowhere. -/
  reach : Body → List String → String → Option (Option Outline)
    | body, [], name => some (body.find? name)
    | body, part :: path, name =>
      match body.find? part with
      | none => some none
      | some (.leaf _) => none
      | some (.table _ entries) => reach entries path name
      | some (.tables items) => items.getLast?.bind fun last => reach last path name

/-- The header `[[key]]`. -/
def openItem (d : Draft) (key : List String) : Option Draft := do
  let root ← d.close
  let name ← key.getLast?
  let path := key.dropLast
  let root ← Body.within .implied
    (fun _ parent =>
      match parent.find? name with
      | none => some (parent ++ [(name, .tables [])])
      | some (.tables _) => some parent
      | some _ => none)
    .declared path root
  return ⟨root, .item path name, []⟩

/-- The finished document. -/
def finish (d : Draft) : Option Table := d.close.map entriesValue

end Draft

end Lockstep.Toml
