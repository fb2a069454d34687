import Bytecode.Listing

/-!
Aliases: names that stand for other text among the operands. A later alias of a name replaces an
earlier one, and what an alias stands for is not looked up again.
-/

namespace Bytecode

/-- Names with their values, in the order of declaration. -/
structure Aliases where
  entries : List (String × String)
  deriving DecidableEq, Repr

namespace Aliases

def empty : Aliases := ⟨[]⟩

def ofListing (listing : Listing) : Aliases := ⟨listing.aliases.map (·.2)⟩

def resolve (aliases : Aliases) (name : String) : String :=
  (aliases.entries.reverse.lookup name).getD name

/-- The number of distinct names. -/
def size (aliases : Aliases) : Nat := (aliases.entries.map (·.1)).eraseDups.length

end Aliases
end Bytecode
