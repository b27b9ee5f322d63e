import Omsrs.Lib.Checked

/-!
# Versioned states

A state with a counter that every change bumps, up to a cap where it saturates. Who remembers a
snapshot and its version can tell by the version alone whether the state is still the snapshot, as
long as the cap is not reached.
-/

namespace Omsrs.Lib

/-- The state has moved on from `s` to `t`: its version did not fall, and below the cap an equal
version is an unchanged state. -/
structure Since {σ : Type} (cap : Nat) (version : σ → Nat) (s t : σ) : Prop where
  le : version s ≤ version t
  same : version t = version s → version t < cap → t = s

namespace Since

variable {σ : Type} {cap : Nat} {version : σ → Nat} {s t u : σ}

theorem refl (s : σ) : Since cap version s s := ⟨le_rfl, fun _ _ => rfl⟩

theorem trans (h : Since cap version s t) (h' : Since cap version t u) : Since cap version s u := by
  refine ⟨h.le.trans h'.le, fun he hlt => ?_⟩
  have hle := h.le
  have hle' := h'.le
  have hut : u = t := h'.same (by omega) hlt
  have hts : t = s := h.same (by omega) (by omega)
  exact hut.trans hts

/-- A change that bumps the version by the number of its mutations. -/
theorem of_bump {n : Nat} (hv : version t = min (version s + n) cap) (hs : version s ≤ cap)
    (hn : n = 0 → t = s) : Since cap version s t := by
  refine ⟨by omega, fun he hlt => hn (by omega)⟩

end Since

end Omsrs.Lib
