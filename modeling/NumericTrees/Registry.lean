import NumericTrees.Change
import NumericTrees.Search
import NumericTrees.Text.Utf8
import NumericTrees.Tree.Basic

/-!
# Registry of nodes

Readers and writers of trees know nodes by their identifiers. A registry makes a fresh node for an
identifier, configured by its options. The entries are kept in the order of the bytes of the
identifiers' UTF-8 form, so that an identifier is found by halving; each identifier is there once,
and its first registration stays.
-/

namespace NumericTrees

/-- How nodes are configured when they are made. -/
structure BuildOptions where
  /-- The protection value of new divisions. -/
  protection : Double := Operation.defaultProtection
  deriving DecidableEq

/-- Makes a node. -/
abbrev Constructor := BuildOptions → Tree

/-- Why an identifier cannot be registered. -/
inductive RegistryError where
  | duplicateIdentifier (identifier : String)
  deriving DecidableEq

/-- The message for an identifier that cannot be registered. -/
def RegistryError.message : RegistryError → String
  | duplicateIdentifier identifier =>
    s!"a node with identifier `{identifier}` is already registered"

/-- Constructors by identifier. -/
structure Registry where
  options : BuildOptions
  entries : List (String × Constructor)

namespace Registry

/-- The registry without entries. -/
def empty (options : BuildOptions) : Registry := ⟨options, []⟩

/-- The registry of the operations. A new division has the protection value of the options. -/
def standard (options : BuildOptions) : Registry where
  options := options
  entries :=
    let power : Constructor := fun _ => .skeleton .power
    let division : Constructor := fun options => .skeleton (.division options.protection)
    [("CVP", power), ("PDIV", division)].mergeSort fun a b => (Text.byteOrder a.1 b.1).isLE

/-- The index of the entry of an identifier, or the index at which such an entry would stand. -/
def position (r : Registry) (identifier : String) : Except Nat Nat :=
  bisect (fun index => (r.entries[index]?).elim .gt fun entry => Text.byteOrder entry.1 identifier)
    0 r.entries.length

def contains (r : Registry) (identifier : String) : Bool := (r.position identifier).isOk

/-- Registers a constructor under an identifier that has none yet. -/
def enter (r : Registry) (identifier : String) (make : Constructor) :
    Change Registry RegistryError Unit :=
  match r.position identifier with
  | .ok _ => ⟨.error (.duplicateIdentifier identifier), r⟩
  | .error index => ⟨.ok (), { r with entries := r.entries.insertIdx index (identifier, make) }⟩

/-- The registry after a registration, where that is not refused. -/
def register (r : Registry) (identifier : String) (make : Constructor) :
    Except RegistryError Registry :=
  (r.enter identifier make).made fun r _ => r

/-- A new node for an identifier. -/
def create (r : Registry) (identifier : String) : Option Tree :=
  match r.position identifier with
  | .ok index => (r.entries[index]?).map fun entry => entry.2 r.options
  | .error _ => none

/-- The number of slots of a new node for an identifier. -/
def arityOf (r : Registry) (identifier : String) : Option Nat :=
  (r.create identifier).map Tree.arity

/-- The registered identifiers in their order. -/
def identifiers (r : Registry) : List String := r.entries.map Prod.fst

end Registry

end NumericTrees
