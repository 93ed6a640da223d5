/-!
# Closures

The closure of some elements under a map to further elements holds whatever can be
reached from them. It is collected by expanding one element after the other; each
element is expanded once, so their number bounds the work.
-/

namespace CommandGrammar

/-- The elements of a list that another does not hold, without repetitions. -/
def newIn {α : Type} [DecidableEq α] (seen : List α) (found : List α) : List α :=
  (found.filter fun x => !seen.contains x).eraseDups

/-- Expands pending elements, all of which have been seen, until none is left; the fuel
bounds the number of expansions. -/
def grow {α : Type} [DecidableEq α] (expand : α → List α) : Nat → List α → List α → List α
  | 0, _, seen => seen
  | _ + 1, [], seen => seen
  | fuel + 1, x :: pending, seen =>
    let fresh := newIn seen (expand x)
    grow expand fuel (fresh ++ pending) (fresh ++ seen)

/-- What can be reached from the elements of a list, if that is no more than a number. -/
def closure {α : Type} [DecidableEq α] (expand : α → List α) (bound : Nat) (seeds : List α) :
    List α :=
  let seeds := seeds.eraseDups
  grow expand bound seeds seeds

end CommandGrammar
