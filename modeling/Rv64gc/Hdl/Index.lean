import Mathlib.Algebra.Ring.Int.Defs
import Mathlib.Algebra.Ring.Nat

/-!
# Sizes of tables

Tables are indexed by `Fin`, and a literal index needs a size that is not zero. The sizes in use are
named here, so that a literal is the same term in every module.
-/

namespace Rv64gc.Hdl

instance size_4 : NeZero 4 := ⟨by decide⟩

instance size_7 : NeZero 7 := ⟨by decide⟩

instance size_8 : NeZero 8 := ⟨by decide⟩

instance size_16 : NeZero 16 := ⟨by decide⟩

instance size_32 : NeZero 32 := ⟨by decide⟩

instance size_64 : NeZero 64 := ⟨by decide⟩

end Rv64gc.Hdl
