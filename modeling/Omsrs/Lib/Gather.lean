import Mathlib.Data.List.Induction
import Mathlib.Data.List.Pairwise
import Mathlib.Data.List.Perm.Basic

/-!
# Gathering reports one by one

Reports about one thing agree or not, and agreeing reports join to one that says what both say. A
gatherer keeps the join of what it has taken over and marks that a report disagreed with it. It need
not take over every report: one that it only compares is lost for the next comparison, and then what
it marks depends on the order of the reports.
-/

namespace Omsrs.Lib

/-- Agreement of reports and the join of those that agree. -/
structure Reporting (ρ : Type) where
  agrees : ρ → ρ → Bool
  join : ρ → ρ → ρ
  refl : ∀ a, agrees a a = true
  symm : ∀ {a b}, agrees a b = true → agrees b a = true
  join_iff : ∀ {a b}, agrees a b = true → ∀ r,
    (agrees r (join a b) = true ↔ agrees r a = true ∧ agrees r b = true)

/-- What is known and whether a report disagreed with it. -/
structure Gathered (ρ : Type) where
  known : Option ρ
  conflicted : Bool
deriving DecidableEq

namespace Reporting

variable {α ρ : Type} (R : Reporting ρ) (tells : α → ρ) (takes : α → Bool)

/-- The first report is always taken over, later ones when `takes` holds. -/
def gather (g : Gathered ρ) (a : α) : Gathered ρ :=
  match g.known with
  | none => { g with known := some (tells a) }
  | some k =>
      if R.agrees (tells a) k then
        { g with known := some (if takes a then R.join k (tells a) else k) }
      else { g with conflicted := true }

def gatherAll (as : List α) : Gathered ρ := as.foldl (R.gather tells takes) ⟨none, false⟩

/-- Two of the inputs say different things. -/
def Disagree (as : List α) : Prop := ∃ a ∈ as, ∃ b ∈ as, R.agrees (tells a) (tells b) = false

theorem gather_known (g : Gathered ρ) (a : α) :
    (R.gather tells takes g a).known.isSome = true := by
  unfold gather
  split
  · rfl
  · rename_i hk
    split
    · rfl
    · simp [hk]

theorem gatherAll_append (as : List α) (a : α) :
    R.gatherAll tells takes (as ++ [a]) = R.gather tells takes (R.gatherAll tells takes as) a := by
  rw [gatherAll, List.foldl_append]
  rfl

variable {R tells takes}

/-- Something is known as soon as there is a report. -/
theorem gatherAll_known {as : List α} : (R.gatherAll tells takes as).known = none ↔ as = [] := by
  constructor
  · intro h
    cases as using List.reverseRecOn with
    | nil => rfl
    | append_singleton as a =>
        have hknown := R.gather_known tells takes (R.gatherAll tells takes as) a
        rw [← gatherAll_append, h] at hknown
        cases hknown
  · rintro rfl
    rfl

/-- What joining keeps and every report has, the known report has. -/
theorem known_of_forall {P : ρ → Prop} (hj : ∀ {a b}, P a → P (R.join a b)) {as : List α}
    (h : ∀ a ∈ as, P (tells a)) : ∀ k, (R.gatherAll tells takes as).known = some k → P k := by
  induction as using List.reverseRecOn with
  | nil =>
      intro k hk
      cases hk
  | append_singleton as a ih =>
      have hih := ih fun a ha => h a (by simp [ha])
      have ha : P (tells a) := h a (by simp)
      intro k hk
      rw [gatherAll_append] at hk
      unfold gather at hk
      split at hk
      · obtain rfl := Option.some.inj hk
        exact ha
      · rename_i k' hk'
        split at hk
        · obtain rfl := Option.some.inj hk
          split
          · exact hj (hih k' hk')
          · exact hih k' hk'
        · exact hih k hk

/-! ## When nothing is marked -/

/-- The known report stands for the reports of `S`. -/
def Knows (R : Reporting ρ) (k : ρ) (S : List ρ) : Prop :=
  ∀ r, R.agrees r k = true ↔ ∀ s ∈ S, R.agrees r s = true

theorem knows_single (k : ρ) : R.Knows k [k] := fun r => by simp

theorem Knows.join {k r : ρ} {S : List ρ} (h : R.Knows k S) (hr : R.agrees r k = true) :
    R.Knows (R.join k r) (S ++ [r]) := by
  intro a
  rw [R.join_iff (R.symm hr) a, h a]
  simp only [List.mem_append, List.mem_singleton]
  constructor
  · rintro ⟨h₁, h₂⟩ s (hs | rfl)
    · exact h₁ s hs
    · exact h₂
  · intro h
    exact ⟨fun s hs => h s (.inl hs), h r (.inr rfl)⟩

theorem foldl_conflicted {g : Gathered ρ} (h : g.conflicted = true) (as : List α) :
    (as.foldl (R.gather tells takes) g).conflicted = true := by
  induction as generalizing g with
  | nil => exact h
  | cons a as ih =>
      refine ih ?_
      unfold gather
      split
      · exact h
      · split
        · exact h
        · rfl

/-- Nothing is marked exactly when every report agrees with what was known and with every report that
was taken over before it. -/
theorem foldl_quiet {k : ρ} {S : List ρ} (hk : R.Knows k S) (as : List α) :
    (as.foldl (R.gather tells takes) ⟨some k, false⟩).conflicted = false ↔
      (∀ a ∈ as, ∀ s ∈ S, R.agrees (tells a) s = true) ∧
        as.Pairwise fun a b => takes a = true → R.agrees (tells b) (tells a) = true := by
  induction as generalizing k S with
  | nil => simp
  | cons a as ih =>
      rw [List.foldl_cons, List.pairwise_cons]
      by_cases ha : R.agrees (tells a) k = true
      · have haS := (hk (tells a)).mp ha
        cases ht : takes a with
        | true =>
            have hstep : R.gather tells takes ⟨some k, false⟩ a =
                ⟨some (R.join k (tells a)), false⟩ := by
              simp [gather, ha, ht]
            rw [hstep, ih (hk.join ha)]
            constructor
            · rintro ⟨h₁, h₂⟩
              refine ⟨List.forall_mem_cons.mpr ⟨haS, fun b hb s hs => ?_⟩, fun b hb _ => ?_, h₂⟩
              · exact h₁ b hb s (by simp [hs])
              · exact h₁ b hb (tells a) (by simp)
            · rintro ⟨h₁, h₂, h₃⟩
              refine ⟨fun b hb s hs => ?_, h₃⟩
              rcases List.mem_append.mp hs with hs | hs
              · exact h₁ b (by simp [hb]) s hs
              · rw [List.mem_singleton.mp hs]
                exact h₂ b hb rfl
        | false =>
            have hstep : R.gather tells takes ⟨some k, false⟩ a = ⟨some k, false⟩ := by
              simp [gather, ha, ht]
            rw [hstep, ih hk]
            constructor
            · rintro ⟨h₁, h₂⟩
              exact ⟨List.forall_mem_cons.mpr ⟨haS, h₁⟩, fun _ _ h => (nomatch h), h₂⟩
            · rintro ⟨h₁, _, h₃⟩
              exact ⟨fun b hb => h₁ b (by simp [hb]), h₃⟩
      · have hstep : (R.gather tells takes ⟨some k, false⟩ a).conflicted = true := by
          simp [gather, ha]
        refine iff_of_false (by simp [foldl_conflicted hstep]) fun h => ha ((hk (tells a)).mpr ?_)
        exact h.1 a (by simp)

theorem gatherAll_quiet {f : α} {as : List α} :
    (R.gatherAll tells takes (f :: as)).conflicted = false ↔
      (∀ a ∈ as, R.agrees (tells a) (tells f) = true) ∧
        as.Pairwise fun a b => takes a = true → R.agrees (tells b) (tells a) = true := by
  refine (foldl_quiet (knows_single (tells f)) as).trans ?_
  simp only [List.mem_singleton, forall_eq]

theorem not_disagree {as : List α} :
    ¬ R.Disagree tells as ↔ ∀ a ∈ as, ∀ b ∈ as, R.agrees (tells a) (tells b) = true := by
  simp [Disagree]

/-- A mark has two disagreeing reports behind it. -/
theorem disagree_of_conflicted {as : List α}
    (h : (R.gatherAll tells takes as).conflicted = true) : R.Disagree tells as := by
  by_contra hno
  have hall := not_disagree.mp hno
  cases as with
  | nil => cases h
  | cons f as =>
      have hq : (R.gatherAll tells takes (f :: as)).conflicted = false := by
        refine gatherAll_quiet.mpr ⟨fun a ha => hall a (by simp [ha]) f (by simp), ?_⟩
        refine List.pairwise_of_forall_mem_list fun a ha b hb _ => ?_
        exact hall b (by simp [hb]) a (by simp [ha])
      rw [hq] at h
      cases h

/-! ## Permutations -/

/-- Some order of the reports marks nothing exactly when one report agrees with all and those that are
taken over agree with each other: the others come right after the first. -/
theorem exists_quiet_perm {as : List α} :
    (∃ as', as.Perm as' ∧ (R.gatherAll tells takes as').conflicted = false) ↔
      as = [] ∨ ∃ f ∈ as, (∀ a ∈ as, R.agrees (tells a) (tells f) = true) ∧
        ∀ a ∈ as, ∀ b ∈ as, takes a = true → takes b = true →
          R.agrees (tells a) (tells b) = true := by
  constructor
  · rintro ⟨as', hp, hq⟩
    cases as' with
    | nil => exact .inl hp.eq_nil
    | cons f as' =>
        obtain ⟨h₁, h₂⟩ := gatherAll_quiet.mp hq
        have hf : ∀ a ∈ as, R.agrees (tells a) (tells f) = true := by
          intro a ha
          rcases List.mem_cons.mp (hp.subset ha) with rfl | ha
          · exact R.refl (tells a)
          · exact h₁ a ha
        refine .inr ⟨f, hp.symm.subset (by simp), hf, fun a ha b hb hta htb => ?_⟩
        have hpair : as'.Pairwise fun a b =>
            takes a = true → takes b = true → R.agrees (tells a) (tells b) = true :=
          h₂.imp fun hab hta _ => R.symm (hab hta)
        rcases List.mem_cons.mp (hp.subset ha) with rfl | ha
        · exact R.symm (hf b hb)
        · rcases List.mem_cons.mp (hp.subset hb) with rfl | hb
          · exact h₁ a ha
          · have hflip : as'.Pairwise (flip fun a b =>
                takes a = true → takes b = true → R.agrees (tells a) (tells b) = true) :=
              hpair.imp fun hab hta htb => R.symm (hab htb hta)
            exact List.Pairwise.forall_of_forall_of_flip (fun x _ _ _ => R.refl (tells x)) hpair hflip
              ha hb hta htb
  · rintro (rfl | ⟨f, hf, hall, htakes⟩)
    · exact ⟨[], .refl _, rfl⟩
    · obtain ⟨l₁, l₂, rfl⟩ := List.append_of_mem hf
      have hmem : ∀ {a}, a ∈ l₁ ++ l₂ → a ∈ l₁ ++ f :: l₂ := by
        intro a ha
        simp only [List.mem_append, List.mem_cons] at ha ⊢
        exact ha.imp id .inr
      have hperm : (l₁ ++ f :: l₂).Perm (f :: ((l₁ ++ l₂).filter (fun a => !takes a) ++
          (l₁ ++ l₂).filter takes)) := by
        refine List.perm_middle.trans (List.Perm.cons f ?_)
        have h := (List.filter_append_perm (fun a => !takes a) (l₁ ++ l₂)).symm
        simpa using h
      refine ⟨_, hperm, gatherAll_quiet.mpr ⟨fun a ha => ?_, ?_⟩⟩
      · refine hall a (hmem ?_)
        rcases List.mem_append.mp ha with ha | ha <;> exact List.mem_of_mem_filter ha
      · rw [List.pairwise_append]
        refine ⟨?_, ?_, ?_⟩
        · refine List.pairwise_of_forall_mem_list fun a ha b _ hta => ?_
          simp [hta] at ha
        · refine List.pairwise_of_forall_mem_list fun a ha b hb hta => ?_
          obtain ⟨hb, htb⟩ := List.mem_filter.mp hb
          exact htakes b (hmem hb) a (hmem (List.mem_of_mem_filter ha)) htb hta
        · intro a ha b _ hta
          simp [hta] at ha

/-- Every order of the reports is marked exactly when two of them disagree. -/
def OrderFree (R : Reporting ρ) (tells : α → ρ) (takes : α → Bool) (as : List α) : Prop :=
  ∀ as', as.Perm as' → ((R.gatherAll tells takes as').conflicted = true ↔ R.Disagree tells as)

/-- All reports agree, or two that are taken over disagree, or every report meets one it disagrees
with. -/
def Settled (R : Reporting ρ) (tells : α → ρ) (takes : α → Bool) (as : List α) : Prop :=
  ¬ R.Disagree tells as ∨
    (∃ a ∈ as, ∃ b ∈ as, takes a = true ∧ takes b = true ∧ R.agrees (tells a) (tells b) = false) ∨
    ∀ f ∈ as, ∃ a ∈ as, R.agrees (tells a) (tells f) = false

theorem Disagree.perm {as as' : List α} (h : R.Disagree tells as) (hp : as.Perm as') :
    R.Disagree tells as' := by
  obtain ⟨a, ha, b, hb, hab⟩ := h
  exact ⟨a, hp.subset ha, b, hp.subset hb, hab⟩

theorem orderFree_iff {as : List α} : R.OrderFree tells takes as ↔ R.Settled tells takes as := by
  constructor
  · intro h
    by_contra hno
    simp only [Settled, not_or, not_not, not_exists, not_and, Bool.not_eq_false] at hno
    obtain ⟨hd, htakes, hall⟩ := hno
    simp only [not_forall, not_exists, not_and, Bool.not_eq_false] at hall
    obtain ⟨f, hf, hall⟩ := hall
    obtain ⟨as', hp, hq⟩ := exists_quiet_perm.mpr (.inr ⟨f, hf, hall, htakes⟩)
    have hc := (h as' hp).mpr hd
    rw [hq] at hc
    cases hc
  · intro h as' hp
    constructor
    · intro hc
      exact (disagree_of_conflicted hc).perm hp.symm
    · intro hd
      by_contra hq
      rcases exists_quiet_perm.mp ⟨as', hp, by simpa using hq⟩ with rfl | ⟨f, hf, hall, htakes⟩
      · obtain ⟨a, ha, _⟩ := hd
        cases ha
      · rcases h with h | ⟨x, hx, y, hy, htx, hty, hxy⟩ | h
        · exact h hd
        · rw [htakes x hx y hy htx hty] at hxy
          cases hxy
        · obtain ⟨a, ha, haf⟩ := h f hf
          rw [hall a ha] at haf
          cases haf

end Reporting

end Omsrs.Lib
