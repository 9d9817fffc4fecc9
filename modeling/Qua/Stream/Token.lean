import Qua.Text.Inspected

/-!
# Stream tokens

A result pipeline is a tree of atoms. The first atom of a list names its operator; the leaves from
which values flow are the sources, lists of three that start with `@re` and end with the name of a
stream. Any tree is a token, also one that is no pipeline.
-/

namespace Qua

inductive StreamToken
  | atom (value : String)
  | list (items : List StreamToken)
  deriving Repr

namespace StreamToken

instance : Inhabited StreamToken := ⟨.atom ""⟩

/-- The operator of a source. -/
def sourceSymbol : String := "@re"

/-- The operator of a vector of numbers. -/
def vectorSymbol : String := "@array"

/-- Selects one of the two inputs of a trace. -/
def inputSymbol : String := "@macro_input"

def autoReshapeSymbol : String := "@macro_auto_reshape"

/-- Marks a trace of the analog-to-digital converter. -/
def adcTraceSymbol : String := "@macro_adc_trace"

def atom? : StreamToken → Option String
  | .atom value => some value
  | .list _ => none

def items? : StreamToken → Option (List StreamToken)
  | .atom _ => none
  | .list items => some items

/-- The atom that a list starts with. -/
def operator? : StreamToken → Option String
  | .list (.atom value :: _) => some value
  | _ => none

/-- Whether values flow from the token: it has an operator that does not make a vector. -/
def isStream (token : StreamToken) : Bool :=
  match token.operator? with
  | some operator => operator != vectorSymbol
  | none => false

mutual

/-- The names of the sources, from left to right. -/
def sourceNames : StreamToken → List String
  | .atom _ => []
  | .list [.atom symbol, mode, .atom name] =>
    if symbol = sourceSymbol then [name] else mode.sourceNames
  | .list items => sourceNamesOfItems items

def sourceNamesOfItems : List StreamToken → List String
  | [] => []
  | token :: rest => token.sourceNames ++ sourceNamesOfItems rest

end

mutual

/-- Renames the sources. -/
def mapSources (f : String → String) : StreamToken → StreamToken
  | .atom value => .atom value
  | .list [.atom symbol, mode, .atom name] =>
    if symbol = sourceSymbol then .list [.atom symbol, mode, .atom (f name)]
    else .list [.atom symbol, mode.mapSources f, .atom name]
  | .list items => .list (mapSourcesOfItems f items)

def mapSourcesOfItems (f : String → String) : List StreamToken → List StreamToken
  | [] => []
  | token :: rest => token.mapSources f :: mapSourcesOfItems f rest

end

mutual

/-- Atoms come before lists; atoms are ordered as strings and lists item by item. -/
def compare : StreamToken → StreamToken → Ordering
  | .atom a, .atom b => Ord.compare a b
  | .atom _, .list _ => .lt
  | .list _, .atom _ => .gt
  | .list as, .list bs => compareItems as bs

def compareItems : List StreamToken → List StreamToken → Ordering
  | [], [] => .eq
  | [], _ :: _ => .lt
  | _ :: _, [] => .gt
  | a :: as, b :: bs => (a.compare b).then (compareItems as bs)

end

mutual

def decEq : (a b : StreamToken) → Decidable (a = b)
  | .atom a, .atom b => if h : a = b then isTrue (h ▸ rfl) else isFalse fun e => h (atom.inj e)
  | .list as, .list bs =>
    match decEqItems as bs with
    | isTrue h => isTrue (h ▸ rfl)
    | isFalse h => isFalse fun e => h (list.inj e)
  | .atom _, .list _ => isFalse nofun
  | .list _, .atom _ => isFalse nofun

def decEqItems : (as bs : List StreamToken) → Decidable (as = bs)
  | [], [] => isTrue rfl
  | [], _ :: _ => isFalse nofun
  | _ :: _, [] => isFalse nofun
  | a :: as, b :: bs =>
    match decEq a b, decEqItems as bs with
    | isTrue h, isTrue t => isTrue (h ▸ t ▸ rfl)
    | isFalse h, _ => isFalse fun e => h (List.cons.inj e).1
    | _, isFalse t => isFalse fun e => t (List.cons.inj e).2

end

instance : DecidableEq StreamToken := decEq

mutual

/-- The constructors of the token and what they hold. -/
def inspect : StreamToken → String
  | .atom value => "Atom(" ++ Text.inspect value ++ ")"
  | .list items => "List([" ++ inspectItems items ++ "])"

def inspectItems : List StreamToken → String
  | [] => ""
  | [token] => token.inspect
  | token :: rest => token.inspect ++ ", " ++ inspectItems rest

end

end StreamToken
end Qua
