import ChatGateway.Json.Value

/-!
# Calls written as markup

Some models write their calls of tools into the text of a message. A call that was found there has
an id only if the markup gives one; the others get theirs when they are passed on.
-/

namespace ChatGateway.Markup

structure Call where
  id? : Option String
  name : String
  arguments : Json.Value
deriving DecidableEq, Repr

structure Extracted where
  content : Option String
  calls : List Call
deriving DecidableEq, Repr

/-- A source of fresh ids; the number counts those issued before. -/
abbrev Supply := Nat → String

/-- The ids at even places. Whoever draws from these and whoever draws from the others share a
supply and never give out the same id. -/
def Supply.evens (supply : Supply) : Supply := fun n => supply (2 * n)

def Supply.odds (supply : Supply) : Supply := fun n => supply (2 * n + 1)

theorem Supply.evens_ne_odds {supply : Supply} (h : Function.Injective supply) (m n : Nat) :
    supply.evens m ≠ supply.odds n := by
  intro heq
  have := h heq
  omega

/-- The id of a call when `issued` ids have been given out, and how many are given out then. -/
def Call.issue (supply : Supply) (issued : Nat) (c : Call) : String × Nat :=
  match c.id? with
  | some id => (id, issued)
  | none => (supply issued, issued + 1)

def issueAll (supply : Supply) : Nat → List Call → List (String × Call)
  | _, [] => []
  | issued, c :: cs =>
    let (id, issued) := c.issue supply issued
    (id, c) :: issueAll supply issued cs

end ChatGateway.Markup
