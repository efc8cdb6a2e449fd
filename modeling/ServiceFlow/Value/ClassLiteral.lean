/-!
# Names of class literals

A class literal is written as an internal name with slashes, as a dotted name, or as a descriptor
`L...;`, each with one opening bracket in front for every array dimension; behind brackets the
primitive types have letters.  `canonical` and `simple` are the names that the class itself gives.
-/

namespace ServiceFlow.ClassLiteral

/-- The primitive type that a letter stands for behind brackets. -/
def primitive? : List Char → Option (List Char)
  | ['Z'] => some "boolean".toList
  | ['B'] => some "byte".toList
  | ['C'] => some "char".toList
  | ['S'] => some "short".toList
  | ['I'] => some "int".toList
  | ['J'] => some "long".toList
  | ['F'] => some "float".toList
  | ['D'] => some "double".toList
  | _ => none

/-- What stands between an `L` at the front and a semicolon at the end. -/
def descriptorName? : List Char → Option (List Char)
  | 'L' :: rest => if rest.getLast? = some ';' then some rest.dropLast else none
  | _ => none

/-- The number of array dimensions. -/
def dimensions (raw : List Char) : Nat := (raw.takeWhile (· = '[')).length

def slashToDot (c : Char) : Char := if c = '/' then '.' else c

def dollarToDot (c : Char) : Char := if c = '$' then '.' else c

/-- The name of the elements in dotted form. -/
def element (raw : List Char) : List Char :=
  let inner := raw.dropWhile (· = '[')
  let name := match descriptorName? inner with
    | some name => name
    | none => if 0 < dimensions raw then (primitive? inner).getD inner else inner
  name.map slashToDot

/-- The brackets of an array type. -/
def brackets (dims : Nat) : List Char := (List.replicate dims ['[', ']']).flatten

def canonicalChars (raw : List Char) : List Char :=
  (element raw).map dollarToDot ++ brackets (dimensions raw)

def simpleChars (raw : List Char) : List Char :=
  ((element raw).reverse.takeWhile (fun c => c ≠ '.' && c ≠ '$')).reverse
    ++ brackets (dimensions raw)

/-- The dotted name, nested classes included, with a pair of brackets for every dimension. -/
def canonical (raw : String) : String := String.ofList (canonicalChars raw.toList)

/-- The last part of the name, with a pair of brackets for every dimension. -/
def simple (raw : String) : String := String.ofList (simpleChars raw.toList)

end ServiceFlow.ClassLiteral
