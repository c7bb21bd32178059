/-
  Rows: values under the names of columns, in the order of the columns.
-/
import RecordGraph.Value

namespace RecordGraph

/-- A row of a result.  Names may repeat. -/
structure Row where
  cells : List (String × Value)
  deriving DecidableEq

namespace Row

/-- The row with the given values under the given columns: missing values are
    null, and values without a column are dropped. -/
def ofColumns : (columns : List String) → (values : List Value) → Row
  | [], _ => ⟨[]⟩
  | c :: cs, [] => ⟨(c, .null) :: (ofColumns cs []).cells⟩
  | c :: cs, v :: vs => ⟨(c, v) :: (ofColumns cs vs).cells⟩

def columns (r : Row) : List String := r.cells.map Prod.fst

def values (r : Row) : List Value := r.cells.map Prod.snd

def size (r : Row) : Nat := r.cells.length

/-- The value of the first column of that name. -/
def get? (r : Row) (column : String) : Option Value := r.cells.lookup column

/-- The value at a position. -/
def value? (r : Row) (i : Nat) : Option Value := r.values[i]?

theorem columns_ofColumns (cs : List String) (vs : List Value) :
    (ofColumns cs vs).columns = cs := by
  induction cs generalizing vs with
  | nil => simp [ofColumns, columns]
  | cons c cs ih =>
    cases vs with
    | nil => simpa [ofColumns, columns] using ih []
    | cons v vs => simpa [ofColumns, columns] using ih vs

end Row

end RecordGraph
