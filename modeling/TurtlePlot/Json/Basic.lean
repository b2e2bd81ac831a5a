import TurtlePlot.Association

namespace TurtlePlot

/-- A data value. Whole numbers and doubles are told apart; fields keep their order. -/
inductive Json where
  | null
  | bool (value : Bool)
  | int (value : Int)
  | float (value : Float)
  | str (value : String)
  | arr (items : List Json)
  | obj (fields : List (String × Json))
deriving Inhabited

namespace Json

/-- An object of pairs; of those with one key the last value counts, in the first place. -/
def ofPairs (pairs : List (String × Json)) : Json :=
  .obj (pairs.foldl (fun fields (key, value) => Association.put key value fields) [])

def field? (key : String) (fields : List (String × Json)) : Option Json :=
  fields.lookup key

end Json

end TurtlePlot
