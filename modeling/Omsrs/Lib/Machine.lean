import Mathlib.Data.List.Basic
import Mathlib.Data.List.Induction

/-!
# Deterministic machines and their runs

A machine reads an input in a state, answers with an output and moves on. A run is a list of inputs,
so an interleaving of several parties is a run whose inputs name the party that moves.
-/

namespace Omsrs.Lib

/-- A deterministic machine with states `σ`, inputs `ε` and outputs `ω`. -/
structure Machine (σ ε ω : Type) where
  step : σ → ε → ω × σ

namespace Machine

variable {σ ε ω : Type} (M : Machine σ ε ω)

/-- The state at the end of a run. -/
def final (s : σ) : List ε → σ
  | [] => s
  | e :: es => final (M.step s e).2 es

/-- The outputs of a run, oldest first. -/
def outputs (s : σ) : List ε → List ω
  | [] => []
  | e :: es => (M.step s e).1 :: outputs (M.step s e).2 es

/-- Every step of the run meets the condition `C` on its state and input. -/
def Always (C : σ → ε → Prop) (s : σ) : List ε → Prop
  | [] => True
  | e :: es => C s e ∧ Always C (M.step s e).2 es

instance decidableAlways {C : σ → ε → Prop} [∀ s e, Decidable (C s e)] :
    (s : σ) → (es : List ε) → Decidable (M.Always C s es)
  | _, [] => .isTrue trivial
  | s, e :: es =>
      haveI := decidableAlways (C := C) (M.step s e).2 es
      inferInstanceAs (Decidable (C s e ∧ M.Always C (M.step s e).2 es))

@[simp] theorem final_nil (s : σ) : M.final s [] = s := rfl

@[simp] theorem final_cons (s : σ) (e : ε) (es : List ε) :
    M.final s (e :: es) = M.final (M.step s e).2 es := rfl

@[simp] theorem outputs_nil (s : σ) : M.outputs s [] = [] := rfl

@[simp] theorem outputs_cons (s : σ) (e : ε) (es : List ε) :
    M.outputs s (e :: es) = (M.step s e).1 :: M.outputs (M.step s e).2 es := rfl

theorem final_append (s : σ) (es fs : List ε) :
    M.final s (es ++ fs) = M.final (M.final s es) fs := by
  induction es generalizing s with
  | nil => rfl
  | cons e es ih => exact ih _

theorem outputs_append (s : σ) (es fs : List ε) :
    M.outputs s (es ++ fs) = M.outputs s es ++ M.outputs (M.final s es) fs := by
  induction es generalizing s with
  | nil => rfl
  | cons e es ih => simp only [List.cons_append, outputs_cons, final_cons, ih]

theorem always_true (s : σ) (es : List ε) : M.Always (fun _ _ => True) s es := by
  induction es generalizing s with
  | nil => trivial
  | cons e es ih => exact ⟨trivial, ih _⟩

theorem always_of_forall {C : ε → Prop} {es : List ε} (h : ∀ e ∈ es, C e) (s : σ) :
    M.Always (fun _ e => C e) s es := by
  induction es generalizing s with
  | nil => trivial
  | cons e es ih => exact ⟨h e (by simp), ih (fun f hf => h f (by simp [hf])) _⟩

theorem Always.append {C : σ → ε → Prop} {s : σ} {es fs : List ε} :
    M.Always C s (es ++ fs) ↔ M.Always C s es ∧ M.Always C (M.final s es) fs := by
  induction es generalizing s with
  | nil => simp [Always]
  | cons e es ih => simp only [List.cons_append, Always, final_cons, ih, and_assoc]

/-- What holds of the outputs so far and the state, and is kept by every step that meets `C`,
holds at the end of every run whose steps all meet `C`. -/
theorem history_induction {P : List ω → σ → Prop} {C : σ → ε → Prop}
    (hstep : ∀ ws s e, P ws s → C s e → P (ws ++ [(M.step s e).1]) (M.step s e).2)
    {w : List ω} {s : σ} (h : P w s) {es : List ε} (hes : M.Always C s es) :
    P (w ++ M.outputs s es) (M.final s es) := by
  induction es generalizing w s with
  | nil => simpa using h
  | cons e es ih =>
      have := ih (hstep w s e h hes.1) hes.2
      simpa only [outputs_cons, final_cons, List.append_assoc, List.singleton_append] using this

/-- An invariant that every step keeps holds at the end of every run. -/
theorem invariant {I : σ → Prop} (hstep : ∀ s e, I s → I (M.step s e).2) {s : σ} (h : I s)
    (es : List ε) : I (M.final s es) :=
  M.history_induction (P := fun _ t => I t) (w := []) (fun _ s e hI _ => hstep s e hI) h
    (M.always_true s es)

/-- A relation between the states before and after, reflexive, transitive and met by every step,
holds between the ends of every run. -/
theorem relates {R : σ → σ → Prop} (hrefl : ∀ s, R s s)
    (htrans : ∀ {a b c}, R a b → R b c → R a c) (hstep : ∀ s e, R s (M.step s e).2) (s : σ)
    (es : List ε) : R s (M.final s es) := by
  induction es generalizing s with
  | nil => exact hrefl s
  | cons e es ih => exact htrans (hstep s e) (ih _)

/-- Where a step keeps `I` exactly when it meets `C`, every state of a run has `I` exactly when every
step of it meets `C`. `J` is an invariant of all runs. -/
theorem kept_iff_always {I J : σ → Prop} {C : σ → ε → Prop} (hJ : ∀ s e, J s → J (M.step s e).2)
    (hstep : ∀ s e, J s → I s → (I (M.step s e).2 ↔ C s e)) {s : σ} (hj : J s) (hi : I s)
    (es : List ε) : (∀ pre, pre <+: es → I (M.final s pre)) ↔ M.Always C s es := by
  induction es generalizing s with
  | nil =>
      refine iff_of_true (fun pre hp => ?_) trivial
      rw [List.prefix_nil.mp hp]
      exact hi
  | cons e es ih =>
      constructor
      · intro h
        have hone : I (M.step s e).2 := h [e] ⟨es, rfl⟩
        refine ⟨(hstep s e hj hi).mp hone, (ih (hJ s e hj) hone).mp fun pre hp => ?_⟩
        exact h (e :: pre) (List.cons_prefix_cons.mpr ⟨rfl, hp⟩)
      · intro h pre hp
        have hone : I (M.step s e).2 := (hstep s e hj hi).mpr h.1
        cases pre with
        | nil => exact hi
        | cons e' pre =>
            obtain ⟨rfl, htail⟩ := List.cons_prefix_cons.mp hp
            exact (ih (hJ s e' hj) hone).mpr h.2 pre htail

/-- Where a step from `I` is `Q` exactly when it meets `C`, and leads back to `I` then, every step of a run
is `Q` exactly when every step of it meets `C`. `V` is what is asked of the inputs. -/
theorem meets_iff_always {I : σ → Prop} {Q C : σ → ε → Prop} {V : ε → Prop}
    (hstep : ∀ s e, V e → I s → (Q s e ↔ C s e) ∧ (C s e → I (M.step s e).2)) {s : σ} (hi : I s)
    {es : List ε} (hes : ∀ e ∈ es, V e) :
    (∀ pre e, pre ++ [e] <+: es → Q (M.final s pre) e) ↔ M.Always C s es := by
  induction es generalizing s with
  | nil => simp [Always]
  | cons e es ih =>
      obtain ⟨hiff, hback⟩ := hstep s e (hes e (by simp)) hi
      have hes' : ∀ f ∈ es, V f := fun f hf => hes f (by simp [hf])
      constructor
      · intro h
        have hc : C s e := hiff.mp (h [] e ⟨es, rfl⟩)
        exact ⟨hc, (ih (hback hc) hes').mp fun pre f hp =>
          h (e :: pre) f (List.cons_prefix_cons.mpr ⟨rfl, hp⟩)⟩
      · intro h pre f hp
        cases pre with
        | nil =>
            obtain ⟨rfl, -⟩ := List.cons_prefix_cons.mp hp
            exact hiff.mpr h.1
        | cons e' pre =>
            obtain ⟨rfl, htail⟩ := List.cons_prefix_cons.mp hp
            exact (ih (hback h.1) hes').mpr h.2 pre f htail

/-- Where every step from `I` that meets `C` leads back to `I`, a run whose steps all meet `C` is in `I`
all along. -/
theorem Always.within {I : σ → Prop} {C : σ → ε → Prop} {V : ε → Prop}
    (hstep : ∀ s e, V e → I s → C s e → I (M.step s e).2) {s : σ} (hi : I s) {es : List ε}
    (hes : ∀ e ∈ es, V e) (h : M.Always C s es) {pre : List ε} (hp : pre <+: es) :
    I (M.final s pre) := by
  induction es generalizing s pre with
  | nil =>
      rw [List.prefix_nil.mp hp]
      exact hi
  | cons e es ih =>
      cases pre with
      | nil => exact hi
      | cons e' pre =>
          obtain ⟨rfl, htail⟩ := List.cons_prefix_cons.mp hp
          exact ih (hstep s e' (hes e' (by simp)) hi h.1) (fun f hf => hes f (by simp [hf])) h.2 htail

/-- Where every step from `I` that meets `C` is `Q` and leads back to `I`, a run from `I` whose steps all
meet `C` is `Q` at every step. -/
theorem Always.imp {I : σ → Prop} {C Q : σ → ε → Prop}
    (hstep : ∀ s e, I s → C s e → Q s e ∧ I (M.step s e).2) {s : σ} (hi : I s) {es : List ε}
    (h : M.Always C s es) : M.Always Q s es := by
  induction es generalizing s with
  | nil => trivial
  | cons e es ih =>
      obtain ⟨hq, hback⟩ := hstep s e hi h.1
      exact ⟨hq, ih hback h.2⟩

/-- Where a step from `I` leads to `P` exactly when it meets `C`, and back to `I` then, every state of a
run has `P` exactly when every step of it meets `C`. -/
theorem holds_iff_always {I P : σ → Prop} {C : σ → ε → Prop} {V : ε → Prop} (hP : ∀ s, I s → P s)
    (hstep : ∀ s e, V e → I s → (P (M.step s e).2 ↔ C s e) ∧ (C s e → I (M.step s e).2)) {s : σ}
    (hi : I s) {es : List ε} (hes : ∀ e ∈ es, V e) :
    (∀ pre, pre <+: es → P (M.final s pre)) ↔ M.Always C s es := by
  constructor
  · intro h
    refine (M.meets_iff_always (Q := fun s e => P (M.step s e).2) hstep hi hes).mp fun pre e hp => ?_
    have := h (pre ++ [e]) hp
    rwa [final_append, final_cons, final_nil] at this
  · intro h pre hp
    exact hP _ (Always.within M (fun s e hv hi hc => (hstep s e hv hi).2 hc) hi hes h hp)

/-- Where a step keeps `I` exactly when it meets `C`, and meets `R` then, a run keeps `I` and stands in
`R` from any of its states to any later one exactly when every step of it meets `C`. `V` is what is
asked of the inputs. -/
theorem steady_iff_always {I J : σ → Prop} {R : σ → σ → Prop} {C : σ → ε → Prop} {V : ε → Prop}
    (hrefl : ∀ s, R s s) (htrans : ∀ {a b c}, R a b → R b c → R a c)
    (hJ : ∀ s e, V e → J s → J (M.step s e).2)
    (hstep : ∀ s e, V e → J s → I s →
      (I (M.step s e).2 ↔ C s e) ∧ (C s e → R s (M.step s e).2))
    {s : σ} (hj : J s) (hi : I s) {es : List ε} (hes : ∀ e ∈ es, V e) :
    (∀ pre mid, pre ++ mid <+: es →
        I (M.final s pre) ∧ R (M.final s pre) (M.final s (pre ++ mid))) ↔ M.Always C s es := by
  induction es generalizing s with
  | nil =>
      refine iff_of_true (fun pre mid hp => ?_) trivial
      obtain ⟨rfl, rfl⟩ := List.append_eq_nil_iff.mp (List.prefix_nil.mp hp)
      exact ⟨hi, hrefl s⟩
  | cons e es ih =>
      have he : V e := hes e (by simp)
      have hes' : ∀ f ∈ es, V f := fun f hf => hes f (by simp [hf])
      obtain ⟨hkeep, hrel⟩ := hstep s e he hj hi
      constructor
      · intro h
        have hone : I (M.step s e).2 := (h [e] [] ⟨es, rfl⟩).1
        refine ⟨hkeep.mp hone, (ih (hJ s e he hj) hone hes').mp fun pre mid hp => ?_⟩
        exact h (e :: pre) mid (List.cons_prefix_cons.mpr ⟨rfl, hp⟩)
      · intro h pre mid hp
        have hrest := (ih (hJ s e he hj) (hkeep.mpr h.1) hes').mpr h.2
        cases pre with
        | nil =>
            refine ⟨hi, ?_⟩
            cases mid with
            | nil => exact hrefl s
            | cons e' mid =>
                obtain ⟨rfl, htail⟩ := List.cons_prefix_cons.mp hp
                exact htrans (hrel h.1) (hrest [] mid htail).2
        | cons e' pre =>
            obtain ⟨rfl, htail⟩ := List.cons_prefix_cons.mp hp
            exact hrest pre mid htail

/-- A run that ends in `Q` and did not start there entered it by a last step, and has been there
since. -/
theorem last_entry {Q : σ → Prop} {s : σ} (hs : ¬ Q s) {es : List ε} (h : Q (M.final s es)) :
    ∃ pre e post, es = pre ++ e :: post ∧ ¬ Q (M.final s pre) ∧
      ∀ mid, mid <+: post → Q (M.final s (pre ++ e :: mid)) := by
  induction es using List.reverseRecOn with
  | nil => exact absurd h hs
  | append_singleton es e ih =>
      by_cases hq : Q (M.final s es)
      · obtain ⟨pre, e', post, rfl, hpre, hpost⟩ := ih hq
        refine ⟨pre, e', post ++ [e], by simp, hpre, fun mid hm => ?_⟩
        rcases List.prefix_concat_iff.mp hm with rfl | hm
        · simpa using h
        · exact hpost mid hm
      · refine ⟨es, e, [], rfl, hq, fun mid hm => ?_⟩
        rw [List.prefix_nil.mp hm]
        exact h

/-! ## Runs tracked by their inputs -/

variable {M}

/-- `T` tracks the states by the inputs taken so far. If the next output is `K` exactly when the
inputs with the next one are `G`, and the state is tracked again then, a whole run is `K` exactly when
its inputs are `G`. `V` is what is asked of the inputs. -/
theorem tracked_run {T : List ε → σ → Prop} {G V : List ε → Prop} {K : ω → Prop}
    (hV : ∀ {l m}, V (l ++ m) → V l) (hG : ∀ {l m}, V (l ++ m) → G (l ++ m) → G l)
    (hT : ∀ {l s e}, V (l ++ [e]) → G l → T l s →
      (K (M.step s e).1 ↔ G (l ++ [e])) ∧ (G (l ++ [e]) → T (l ++ [e]) (M.step s e).2))
    {l : List ε} {s : σ} (hs : T l s) (hl : G l) (es : List ε) (hes : V (l ++ es)) :
    ((∀ w ∈ M.outputs s es, K w) ↔ G (l ++ es)) ∧ (G (l ++ es) → T (l ++ es) (M.final s es)) := by
  induction es generalizing l s with
  | nil => simpa [hl] using hs
  | cons e es ih =>
      rw [List.append_cons] at hes ⊢
      have hV' : V (l ++ [e]) := hV hes
      obtain ⟨hk, ht⟩ := hT hV' hl hs
      constructor
      · simp only [outputs_cons, List.mem_cons, forall_eq_or_imp]
        constructor
        · intro ⟨hw, hrest⟩
          exact (ih (ht (hk.mp hw)) (hk.mp hw) hes).1.mp hrest
        · intro h
          have hg : G (l ++ [e]) := hG hes h
          exact ⟨hk.mpr hg, (ih (ht hg) hg hes).1.mpr h⟩
      · intro h
        have hg : G (l ++ [e]) := hG hes h
        exact (ih (ht hg) hg hes).2 h

/-- Where neither `G` nor what `T` says of a state depends on the order of the inputs, a run and its
permutations are `K` together and end in related states. -/
theorem tracked_perm {T : List ε → σ → Prop} {G V : List ε → Prop} {K : ω → Prop} {R : σ → σ → Prop}
    (hV : ∀ {l m}, V (l ++ m) → V l) (hG : ∀ {l m}, V (l ++ m) → G (l ++ m) → G l)
    (hT : ∀ {l s e}, V (l ++ [e]) → G l → T l s →
      (K (M.step s e).1 ↔ G (l ++ [e])) ∧ (G (l ++ [e]) → T (l ++ [e]) (M.step s e).2))
    (hVp : ∀ {l m}, l.Perm m → V l → V m) (hGp : ∀ {l m}, l.Perm m → G l → G m)
    (hTp : ∀ {l m s t}, l.Perm m → T l s → T m t → R s t) {s : σ} (hs : T [] s) (h : G [])
    {es fs : List ε} (hp : es.Perm fs) (hes : V es) (hk : ∀ w ∈ M.outputs s es, K w) :
    (∀ w ∈ M.outputs s fs, K w) ∧ R (M.final s es) (M.final s fs) := by
  have hrun := M.tracked_run hV hG hT hs h es hes
  have hrun' := M.tracked_run hV hG hT hs h fs (hVp hp hes)
  have hg : G es := hrun.1.mp hk
  exact ⟨hrun'.1.mpr (hGp hp hg), hTp hp (hrun.2 hg) (hrun'.2 (hGp hp hg))⟩

end Machine

end Omsrs.Lib
