import Mathlib.Data.List.Basic

/-!
# Trails

One step of a program may change its state several times and write to a log in between. A trail is
such a sequence of moves with everything it wrote.
-/

namespace Omsrs.Lib

/-- `Trail R s ws t`: moves of `R` lead from `s` to `t` and write `ws`, oldest first. -/
inductive Trail {σ ω : Type} (R : σ → List ω → σ → Prop) : σ → List ω → σ → Prop
  | nil (s : σ) : Trail R s [] s
  | cons {s t u : σ} {ws vs : List ω} : R s ws t → Trail R t vs u → Trail R s (ws ++ vs) u

namespace Trail

variable {σ ω : Type} {R Q : σ → List ω → σ → Prop} {s t u : σ} {ws vs : List ω}

theorem single (h : R s ws t) : Trail R s ws t := by
  simpa using Trail.cons h (.nil t)

theorem append (h : Trail R s ws t) (h' : Trail R t vs u) : Trail R s (ws ++ vs) u := by
  induction h with
  | nil => exact h'
  | cons hm _ ih => simpa only [List.append_assoc] using Trail.cons hm (ih h')

theorem snoc (h : Trail R s ws t) (h' : R t vs u) : Trail R s (ws ++ vs) u :=
  h.append (single h')

theorem mono (hR : ∀ {a xs b}, R a xs b → Q a xs b) (h : Trail R s ws t) : Trail Q s ws t := by
  induction h with
  | nil => exact .nil _
  | cons hm _ ih => exact .cons (hR hm) ih

/-- What holds of the log so far and the state, and is kept by every move, is kept by a trail. -/
theorem preserves {I : List ω → σ → Prop}
    (hI : ∀ {log a xs b}, I log a → R a xs b → I (log ++ xs) b) (h : Trail R s ws t) {l : List ω}
    (hs : I l s) : I (l ++ ws) t := by
  induction h generalizing l with
  | nil => simpa using hs
  | cons hm _ ih => simpa only [List.append_assoc] using ih (hI hs hm)

/-- A relation between states, reflexive, transitive and met by every move, holds between the ends. -/
theorem relates {P : σ → σ → Prop} (hrefl : ∀ a, P a a) (htrans : ∀ {a b c}, P a b → P b c → P a c)
    (hR : ∀ {a xs b}, R a xs b → P a b) (h : Trail R s ws t) : P s t := by
  induction h with
  | nil => exact hrefl _
  | cons hm _ ih => exact htrans (hR hm) ih

/-- What every move writes satisfies `P`, so everything the trail wrote does. -/
theorem writes {P : ω → Prop} (hR : ∀ {a xs b}, R a xs b → ∀ w ∈ xs, P w) (h : Trail R s ws t) :
    ∀ w ∈ ws, P w := by
  induction h with
  | nil => simp
  | cons hm _ ih =>
      intro w hw
      rcases List.mem_append.mp hw with hw | hw
      · exact hR hm w hw
      · exact ih w hw

end Trail

end Omsrs.Lib
