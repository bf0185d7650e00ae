/-!
# Tagged choices

Key types, purposes, statuses and the algorithms of password-based encryption
are finite choices that are written as fixed tags.
-/

namespace VersionedKeys

/-- A finite choice each of whose values is written as a tag. -/
class Tagged (Choice : Type) where
  /-- The values, in the order in which they are listed to the reader. -/
  all : List Choice
  /-- The tag a value is written as. -/
  tag : Choice → String
  /-- What the choice is called. -/
  noun : String

namespace Tagged

variable {Choice : Type} [Tagged Choice]

def ofTag? (text : String) : Option Choice :=
  (all : List Choice).find? fun choice => tag choice == text

end Tagged

end VersionedKeys
