import ChatGateway.Text.Blank
import ChatGateway.Url.Percent

/-!
# Paths

A path is a list of steps behind slashes, or a text without such structure. A step of one point
stays where it is and one of two points goes up; a point may be written as a byte.
-/

namespace ChatGateway.Url

inductive Path where
  | plain (s : List Char)
  | steps (ss : List (List Char))
deriving DecidableEq, Repr

namespace Path

def staysHere (s : List Char) : Bool := [".", "%2e"].any (Text.sameIgnoringCase s ·.toList)

def goesUp (s : List Char) : Bool :=
  ["..", "%2e.", ".%2e", "%2e%2e"].any (Text.sameIgnoringCase s ·.toList)

/-- Takes steps; `back` holds those before, the last one first. A path that ends with a step that is
taken names a directory. -/
def take (back : List (List Char)) : List (List Char) → List (List Char)
  | [] => back.reverse
  | [s] =>
    if goesUp s then ([] :: back.tail).reverse
    else if staysHere s then ([] :: back).reverse
    else (percentEncode pathReserved s :: back).reverse
  | s :: ss =>
    if goesUp s then take back.tail ss
    else if staysHere s then take back ss
    else take (percentEncode pathReserved s :: back) ss

/-- A slash; the schemes of the web take a backslash for one. -/
def isSlash (special : Bool) (c : Char) : Bool := c = '/' || (special && c = '\\')

def ofText (special : Bool) (s : List Char) : Path :=
  let s := if s.head?.any (isSlash special) then s.drop 1 else s
  .steps (take [] (s.splitOnP (isSlash special)))

def dropEmpty : Path → Path
  | plain s => plain s
  | steps ss =>
    match ss.dropWhile List.isEmpty with
    | [] => steps [[]]
    | s :: ss => steps (s :: ss)

def text : Path → List Char
  | plain s => s
  | steps ss => ss.flatMap ('/' :: ·)

end Path

end ChatGateway.Url
