import Stepwise.View.Token

/-!
# View - Ranges of fragments and tokens

Where a node is printed.  The first fragment of a node of its subtree that is no
identifier is the anchor, because one identifier may be printed at several
places; from there the range grows on both sides over fragments of the subtree.
An identifier alone is its own anchor, and so is an empty place that is reserved
for a variant, which has no subtree.

Main definitions:

- `Range`, an inclusive span of positions.
- `findRange` and `findRangeWithin`, the fragments that print a node.
- `tokenRange`, the tokens of a range of fragments.
-/

namespace Stepwise

/-- A span of positions, both ends included. -/
structure Range where
  start : Int
  stop : Int
  deriving DecidableEq, Repr, Inhabited

namespace Range

/-- The number of positions in a range. -/
def size (r : Range) : Int := r.stop - r.start + 1

/-- Whether a position lies in a range. -/
def contains (r : Range) (i : Int) : Bool :=
  r.start ≤ i && i ≤ r.stop

/-- The items of a list at the positions of a range. -/
def slice {α : Type} (r : Range) (items : List α) : List α :=
  (items.drop r.start.toNat).take r.size.toNat

/-- A range cut to the positions of a list. -/
def clip (r : Range) (count : Nat) : Range :=
  ⟨max r.start 0, min r.stop (count - 1)⟩

end Range

namespace Fragment

/-- Whether a fragment comes from one of the given nodes. -/
def ownedBy (nodes : List Node) (f : Fragment) : Bool :=
  match f.owner with
  | .filled n => nodes.any (·.same n)
  | _ => false

end Fragment

/-- The nodes of a subtree that can anchor its range. -/
def anchors (target : Node) : List Node :=
  match target.nodes.filter (!·.isIdentifier) with
  | [] => [target]
  | ns => ns

/-- Whether a fragment can anchor the range of an operand. -/
def Fragment.isAnchor (target : Operand) (f : Fragment) : Bool :=
  match target with
  | .filled n => f.ownedBy (anchors n)
  | slot => f.owner.same slot

/-- The fragments in `within` that print an operand; nothing prints where there is
none. -/
def findRangeWithin (frags : List Fragment) (target : Operand) (within : Range) : Option Range :=
  match target with
  | .empty => none
  | target =>
    let bounds := within.clip frags.length
    let window := bounds.slice frags
    match window.findIdx? (Fragment.isAnchor target) with
    | none => none
    | some k =>
      let owned := Fragment.ownedBy target.nodes
      let before := ((window.take k).reverse.takeWhile owned).length
      let after := ((window.drop (k + 1)).takeWhile owned).length
      let middle := bounds.start + k
      some ⟨middle - before, middle + after⟩

/-- The fragments that print a node. -/
def findRange (frags : List Fragment) (target : Operand) : Option Range :=
  findRangeWithin frags target ⟨0, frags.length - 1⟩

/-- The tokens of a range of fragments. -/
def tokenRange (r : Range) (frags : List Fragment) : Range :=
  let start : Int := (tagTokens (frags.take r.start.toNat)).length
  let count : Int := (tagTokens (r.slice frags)).length
  ⟨start, start + count - 1⟩

end Stepwise
