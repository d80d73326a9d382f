import SpectrumViewer.Pattern.Basic

set_option autoImplicit false

/-!
The memory that the search for a pattern takes. What is repeated takes its memory as often as it is
repeated at most.
-/

namespace SpectrumViewer

/-- The octets that the search for a set of characters takes. -/
def CharSet.weight : CharSet → Nat
  | .ranges [(first, last)] => if first = last then 32 * first.utf8Size else 72
  | .compl _ => 400
  | _ => 96

namespace Pattern

/-- The octets that the search for a pattern takes. -/
def weight : Pattern → Nat
  | .empty => 32
  | .one set => set.weight
  | .border _ => 32
  | .seq p q => p.weight + q.weight
  | .alt p q => p.weight + q.weight + 72
  | .repeated p least none => (least + 1) * p.weight + 40
  | .repeated p least (some most) => max least most * p.weight + (most - least) * 40

/-- The octets that there are for a search. -/
def weightLimit : Nat := 10485760

end Pattern

end SpectrumViewer
