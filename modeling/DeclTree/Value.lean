import DeclTree.Number.Shortest

/-!
# Values

Plain data that annotations, attribute arguments, defaults and fields carry. Two equalities
stand side by side. `Value.eq` is numeric on floats, so a NaN differs from itself.
`Value.sameIntent` also lets one NaN stand for another, which makes it an equivalence.
-/

namespace DeclTree

inductive Value where
  | null
  | bool (b : Bool)
  | int (i : Int64)
  | float (x : Binary64)
  | string (s : String)
  | list (items : List Value)
deriving Repr

namespace Value

/-- A count as a value; counts beyond the signed range wrap around. -/
def ofNat (n : Nat) : Value := .int (Int64.ofNat n)

mutual

/-- Equality of data, numeric on floats. -/
def eq : Value → Value → Bool
  | .null, .null => true
  | .bool a, .bool b => a == b
  | .int a, .int b => a == b
  | .float a, .float b => a.numericEq b
  | .string a, .string b => a == b
  | .list as, .list bs => eqList as bs
  | _, _ => false

def eqList : List Value → List Value → Bool
  | [], [] => true
  | a :: as, b :: bs => a.eq b && eqList as bs
  | _, _ => false

end

mutual

/-- Whether two values say the same thing: equal data, where any two NaNs count as equal. -/
def sameIntent : Value → Value → Bool
  | .float a, .float b => a.numericEq b || (a.isNaN && b.isNaN)
  | .list as, .list bs => sameIntentList as bs
  | .null, .null => true
  | .bool a, .bool b => a == b
  | .int a, .int b => a == b
  | .string a, .string b => a == b
  | _, _ => false

def sameIntentList : List Value → List Value → Bool
  | [], [] => true
  | a :: as, b :: bs => a.sameIntent b && sameIntentList as bs
  | _, _ => false

end

mutual

/-- The text of a value. Strings stand between quotes and nothing in them is escaped. -/
def text : Value → String
  | .null => "null"
  | .bool b => if b then "true" else "false"
  | .int i => toString i.toInt
  | .float x => x.text
  | .string s => "\"" ++ s ++ "\""
  | .list items => "[" ++ ", ".intercalate (texts items) ++ "]"

def texts : List Value → List String
  | [] => []
  | item :: items => item.text :: texts items

end

theorem texts_eq_map (items : List Value) : texts items = items.map text := by
  induction items with
  | nil => rfl
  | cons item items ih => simp [texts, ih]

end Value

/-- Optional values agree when both are absent, or both present with the same intent. -/
def sameIntentOption : Option Value → Option Value → Bool
  | none, none => true
  | some a, some b => a.sameIntent b
  | _, _ => false

end DeclTree
