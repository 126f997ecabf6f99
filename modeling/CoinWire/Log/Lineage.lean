/-!
The loggers above a logger. A name lies below each beginning of it that ends before a dot, and the loggers
above it are found one from the other, each time the nearest beginning that a logger has.

While beginnings without a logger are passed over, the search goes on behind the character left of the dot.
A dot that stands there ends no beginning, and an empty name is none. Above all of them is the root, which is
asked for by its name or by no name.
-/

namespace CoinWire.Log.Lineage

/-- Names here are spelled from their last character on. -/
def above (known : List Char → Bool) : List Char → List (List Char)
  | '.' :: c :: rest =>
    if known (c :: rest) then (c :: rest) :: above known (c :: rest) else above known rest
  | _ :: rest => above known rest
  | [] => []

def root : String := "root"

def IsRoot (name : String) : Prop := name = "" ∨ name = root

instance : DecidablePred IsRoot := fun name =>
  inferInstanceAs (Decidable (name = "" ∨ name = root))

/-- Two names of one logger. -/
def Alike (name other : String) : Prop := name = other ∨ IsRoot name ∧ IsRoot other

instance (name other : String) : Decidable (Alike name other) :=
  inferInstanceAs (Decidable (name = other ∨ IsRoot name ∧ IsRoot other))

theorem Alike.refl (name : String) : Alike name name := .inl rfl

theorem Alike.isRoot_iff {name other : String} (h : Alike name other) :
    IsRoot name ↔ IsRoot other := by
  obtain rfl | ⟨hn, ho⟩ := h
  · exact Iff.rfl
  · exact iff_of_true hn ho

def ofName (known : String → Bool) (name : String) : List String :=
  let spelled (reversed : List Char) := String.ofList reversed.reverse
  let others := (above (fun reversed => known (spelled reversed)) name.toList.reverse).map spelled
  if IsRoot name then [root] else name :: (others ++ [root])

end CoinWire.Log.Lineage
