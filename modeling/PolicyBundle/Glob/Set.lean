import PolicyBundle.Glob.Match

/-!
# Sets of patterns

Patterns are built into one set before any name is matched. For which patterns that succeeds is up to
the library that builds the set, so a builder is a parameter of what ignores files by their names.
-/

namespace PolicyBundle.Glob

/-- A builder of sets. -/
class Builder where
  /-- Why some patterns cannot be built into one set, if they cannot. -/
  fault? : Patterns → Option String

/-- The patterns as a set, or why there is none. -/
def build [Builder] (patterns : Patterns) : Except String Patterns :=
  match Builder.fault? patterns with
  | none => .ok patterns
  | some fault => .error fault

/-- The patterns that names are matched against: all of them, or none where they are no set. -/
def built [Builder] (patterns : Patterns) : Patterns :=
  (build patterns).toOption.getD []

theorem built_eq [Builder] (patterns : Patterns) :
    built patterns = if Builder.fault? patterns = none then patterns else [] := by
  rw [built, build]
  cases Builder.fault? patterns <;> rfl

@[simp] theorem built_nil [Builder] : built [] = [] := by
  rw [built_eq, ite_self]

/-! ## The builder in use

A set is compiled to regular expressions, which must not be nested too deep. The builder knows no
other limit. -/

/-- The number of items that a part is compiled to. -/
def Token.width : Token → Nat
  | .literal c => c.utf8Size
  | .subtree => 2
  | .alternatives branches => if allEmpty branches then 0 else 1
  | _ => 1

/-- The number of items that a branch is compiled to. -/
def branchWidth (branch : List Token) : Nat :=
  branch.foldl (fun width token => width + token.width) 0

/-- The number of items in a class of characters. The bytes of a character stand for themselves there,
and a range joins the last byte of its first character to the first byte of its last one. -/
def classWidth (ranges : List (Char × Char)) : Nat :=
  ranges.foldl (fun width (first, last) =>
    width + if first = last then first.utf8Size else first.utf8Size + last.utf8Size - 1) 0

/-- One more level where there is more than one item. -/
def sequenceDepth (width : Nat) : Nat := if width > 1 then 1 else 0

mutual

/-- How deep a part is nested. -/
def Token.depth : Token → Nat
  | .literal _ => 0
  | .any => 0
  | .star => 1
  | .subtree => 1
  | .leading => 4
  | .between => 4
  | .set _ ranges => 1 + sequenceDepth (classWidth ranges)
  | .alternatives branches =>
    let kept := branches.filter fun branch => !branchEmpty branch
    if kept.isEmpty then 0 else 1 + sequenceDepth kept.length + branchesDepth branches

/-- How deep the deepest part of a branch is nested. -/
def branchDepth : List Token → Nat
  | [] => 0
  | token :: rest => max token.depth (branchDepth rest)

/-- How deep the deepest branch of a group is nested. -/
def branchesDepth : List (List Token) → Nat
  | [] => 0
  | branch :: rest =>
    max (sequenceDepth (branchWidth branch) + branchDepth branch) (branchesDepth rest)

end

/-- How deep a pattern is nested. It is a sequence, with marks for both ends of a name in it. -/
def Pattern.depth (pattern : Pattern) : Nat := 1 + branchDepth pattern.tokens

/-- How deep a pattern may be nested. -/
def maxDepth : Nat := 250

/-- Builds a set of patterns unless one of them is nested too deep. -/
instance : Builder where
  fault? patterns :=
    (patterns.findIdx? fun pattern => decide (pattern.depth > maxDepth)).map fun place =>
      "error parsing pattern " ++ Text.decimal place

end PolicyBundle.Glob
