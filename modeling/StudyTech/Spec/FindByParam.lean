import Mathlib.Data.List.Infix
import StudyTech.Spec.Message

/-!
# `AbstractService.findByParam`

A table is the list of its rows in the order the database gives them; a row has a value or `NULL`
in each column. A bean is what `BeanUtils.getPropertyDescriptor` finds in its class, with what the
getters return. The predicates have the meaning of SQL: none of them holds of a `NULL`.
-/

namespace StudyTech

/-- The path types of querydsl, after the methods that create them. -/
inductive PathType
  | array | boolean | collection | comparable | date | dateTime | enum | list | map | number | set | simple
  | string | time
  deriving DecidableEq, Repr

/-- `Path<?>`, with the name in its metadata. -/
structure Column where
  name : String
  type : PathType
  deriving DecidableEq, Repr

/-- `PropertyDescriptor`: the getter, if there is one, and what its invocation ends with. -/
structure PropertyDescriptor (V : Type) where
  readMethod : Option (Except JavaException (Option V))

/-- `BeanUtils.getPropertyDescriptor` on the class of the bean. -/
abbrev ParamBean (V : Type) := String → Option (PropertyDescriptor V)

abbrev TableRow (V : Type) := Column → Option V

/-- `toString` of a value, and SQL's `lower`. -/
structure TextOf (V : Type) where
  toString : V → String
  lower : String → String

inductive QueryPredicate (V : Type)
  | containsIgnoreCase (column : Column) (text : String)
  | eq (column : Column) (value : V)

namespace TextOf

variable {V : Type} [DecidableEq V] (T : TextOf V)

/-- The text is contained in the value, case apart. -/
def containsIgnoreCase (value : V) (text : String) : Bool :=
  decide ((T.lower text).toList <:+: (T.lower (T.toString value)).toList)

/-- SQL's meaning of a predicate. -/
def holds (row : TableRow V) : QueryPredicate V → Bool
  | .containsIgnoreCase column text => (row column).any (T.containsIgnoreCase · text)
  | .eq column value => row column == some value

/-- The predicates of a column for the value of its property. -/
def predicatesOf (column : Column) (value : V) : List (QueryPredicate V) :=
  match column.type with
  | .string => [.containsIgnoreCase column (T.toString value)]
  | .number => [.eq column value]
  | _ => []

/-- `convertParam`: the loop over the columns. -/
def convertParam (param : ParamBean V) : List Column → Except JavaException (List (QueryPredicate V))
  | [] => .ok []
  | column :: columns =>
    match param column.name with
    | none => convertParam param columns
    | some pd =>
      match pd.readMethod with
      | none => .error ⟨"java.lang.NullPointerException", none⟩
      | some invoke => do
        match ← invoke with
        | none => convertParam param columns
        | some value => do
          let list ← convertParam param columns
          return T.predicatesOf column value ++ list

/-- `fetch` of `selectFrom` with `where`: the rows of which all the predicates hold. -/
def fetchWhere (table : List (TableRow V)) (list : List (QueryPredicate V)) : List (TableRow V) :=
  table.filter fun row => list.all (T.holds row)

def findAll (table : List (TableRow V)) : List (TableRow V) := table

def findByParam (columns : List Column) (table : List (TableRow V)) :
    Option (ParamBean V) → Except JavaException (List (TableRow V))
  | none => .ok (findAll table)
  | some param => do
    let list ← T.convertParam param columns
    return T.fetchWhere table list

end TextOf

/-- The columns of `QUser`. -/
def qUserColumns : List Column := [⟨"id", .number⟩, ⟨"name", .string⟩]

end StudyTech
