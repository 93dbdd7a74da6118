/-!
# Fresh names

A fresh name is a root with a number after it: `x.1`, `x.2`. Each root has a
counter of its own, and numbers are never given out twice. Since what follows
the last point is a number without leading zeros, a fresh name says which root
and which number it was made of.
-/

namespace SmallC

/-- How many names have been made of each root. -/
structure Fresh where
  counts : List (String × Nat)
deriving DecidableEq, Repr

namespace Fresh

/-- No name has been made yet. -/
def empty : Fresh := ⟨[]⟩

/-- How many names have been made of a root. -/
def count (f : Fresh) (root : String) : Nat := (f.counts.lookup root).getD 0

/-- Counts one more name of a root. -/
def bump (root : String) : List (String × Nat) → List (String × Nat)
  | [] => [(root, 1)]
  | (r, n) :: rest => if r = root then (r, n + 1) :: rest else (r, n) :: bump root rest

/-- The number of the next name of a root. -/
def next (f : Fresh) (root : String) : Nat × Fresh := (f.count root + 1, ⟨bump root f.counts⟩)

/-- The name made of a root and a number. -/
def name (root : String) (n : Nat) : String := root ++ "." ++ toString n

end Fresh

end SmallC
