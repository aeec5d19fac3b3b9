import TensorDiffusion.Basis.Tables
import TensorDiffusion.Json.Reader
import TensorDiffusion.Json.Value

/-!
# Tables as text

Basis tables are written as an object with all fields, and read from one with all fields.  Nothing
ties the tables that are read to each other or to their sizes.
-/

namespace TensorDiffusion.Tables

variable {α : Type} [Decimal.Binary α]

/-- A scalar as data; what is no number is null. -/
def scalarJson (x : α) : Json :=
  match Decimal.Binary.number x with
  | .finite .. => .number (Decimal.data.write x)
  | _          => .null

/-- A table as data. -/
def tableJson (table : Array α) : Json :=
  .array (table.toList.map scalarJson)

/-- The fields in the order in which they are written. -/
def members (tables : Tables α) : List (String × Json) := [
  ("ndof", .nat tables.ndof),
  ("nqpt", .nat tables.nqpt),
  ("b", tableJson tables.b),
  ("g", tableJson tables.g),
  ("bt", tableJson tables.bt),
  ("gt", tableJson tables.gt)]

/-- Tables as a text. -/
def toText (tables : Tables α) : String :=
  (Json.object tables.members).compact

/-- Reads a table. -/
def readTable : Reader (Array α) :=
  return (← Reader.list Reader.scalar).toArray

/-- The fields of tables, all required. -/
def fields : List (Reader.Field (Tables α)) := [
  { name := "ndof", required := true,
    read := fun tables => return { tables with ndof := ← Reader.size } },
  { name := "nqpt", required := true,
    read := fun tables => return { tables with nqpt := ← Reader.size } },
  { name := "b", required := true,
    read := fun tables => return { tables with b := ← readTable } },
  { name := "g", required := true,
    read := fun tables => return { tables with g := ← readTable } },
  { name := "bt", required := true,
    read := fun tables => return { tables with bt := ← readTable } },
  { name := "gt", required := true,
    read := fun tables => return { tables with gt := ← readTable } }]

/-- Reads tables from a text. -/
def ofText (text : String) : Except ReadError (Tables α) :=
  Reader.readText (Reader.record fields ⟨0, 0, #[], #[], #[], #[]⟩) text

end TensorDiffusion.Tables
