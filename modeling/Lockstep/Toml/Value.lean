import Lockstep.Toml.Moment

/-!
# TOML values

Tables are lists of keys and values in the order of the document; a key occurs at most once.

* `Table.find?` looks a key up;
* `Table.overlay` puts the entries of one table over those of another;
* `Value.momentless` replaces date-times by their texts.
-/

namespace Lockstep.Toml

/-- A TOML value. -/
inductive Value where
  | string (s : String)
  | integer (n : Int)
  | float (x : Float)
  | boolean (b : Bool)
  | moment (m : Moment)
  | array (items : List Value)
  | table (entries : List (String × Value))

instance : Inhabited Value := ⟨.boolean false⟩

/-- Keys and values in the order of the document. -/
abbrev Table := List (String × Value)

namespace Table

/-- The value of a key. -/
def find? (t : Table) (key : String) : Option Value :=
  (List.find? (fun entry => entry.1 == key) t).map Prod.snd

/-- The table with `key` set to `v`. -/
def put : Table → String → Value → Table
  | [], key, v => [(key, v)]
  | entry :: t, key, v => if entry.1 = key then (key, v) :: t else entry :: put t key v

/-- The table `base` with the entries of `top` put over its own. -/
def overlay (base top : Table) : Table :=
  top.foldl (fun t entry => t.put entry.1 entry.2) base

/-- The entries in the order of their keys. -/
def sorted (t : Table) : Table := t.mergeSort fun a b => decide (a.1 ≤ b.1)

/-- A key that was just put has the new value, and the others have their old ones. -/
theorem find?_put (t : Table) (key other : String) (v : Value) :
    (t.put key v).find? other = if other = key then some v else t.find? other := by
  induction t with
  | nil =>
    by_cases h : other = key
    · simp [put, find?, h]
    · simp [put, find?, h, Ne.symm h]
  | cons entry t ih =>
    rw [put]
    split
    · next heq =>
      by_cases h : other = key
      · simp [find?, h]
      · have : ¬ entry.1 = other := fun h' => h (h'.symm.trans heq)
        simp [find?, h, Ne.symm h, this]
    · next hne =>
      by_cases h : entry.1 = other
      · have : ¬ other = key := fun h' => hne (h.trans h')
        simp [find?, h, this]
      · have hrest := ih
        simp only [find?] at hrest
        simp [find?, h, hrest]

end Table

mutual

/-- The value with every date-time replaced by its text. -/
def Value.momentless : Value → Value
  | .moment m => .string m.text
  | .array items => .array (momentlessItems items)
  | .table entries => .table (momentlessEntries entries)
  | v => v

/-- The values of an array without date-times. -/
def momentlessItems : List Value → List Value
  | [] => []
  | v :: vs => v.momentless :: momentlessItems vs

/-- The entries of a table without date-times. -/
def momentlessEntries : List (String × Value) → List (String × Value)
  | [] => []
  | (key, v) :: entries => (key, v.momentless) :: momentlessEntries entries

end

end Lockstep.Toml
