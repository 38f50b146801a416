import Mathlib.Data.Nat.Cast.Defs

/-! The numerals of formulas over an arbitrary field. Where these instances are open, a definition names them instead of
a proof of its own. -/

namespace Numerals

scoped instance two : Nat.AtLeastTwo 2 := ⟨by decide⟩

scoped instance three : Nat.AtLeastTwo 3 := ⟨by decide⟩

scoped instance four : Nat.AtLeastTwo 4 := ⟨by decide⟩

scoped instance five : Nat.AtLeastTwo 5 := ⟨by decide⟩

scoped instance eight : Nat.AtLeastTwo 8 := ⟨by decide⟩

scoped instance nine : Nat.AtLeastTwo 9 := ⟨by decide⟩

scoped instance ten : Nat.AtLeastTwo 10 := ⟨by decide⟩

scoped instance twenty : Nat.AtLeastTwo 20 := ⟨by decide⟩

end Numerals
