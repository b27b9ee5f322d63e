import Omsrs.Replica.Lemmas.Evolve
import Omsrs.Replica.Theorems.Bookkeeping

/-!
# Concurrent calls of the async broker

Whatever the order of the sections, a half-finished call holds nothing that a later section of another
one could break: what it is about to complete is done, and an order that is done stays done.
-/

namespace Omsrs.Replica
open Omsrs.Lib

variable {F : Type} {uuid : Nat → String} {b : ReplicaBroker F} {h : Handle} {task : Task F}

/-! ## Completing once -/

theorem mem_pushCompletedUnique {completed : List Handle} {j : Handle} :
    j ∈ pushCompletedUnique completed h ↔ j ∈ completed ∨ j = h := by
  unfold pushCompletedUnique
  split
  · rename_i hm
    exact ⟨.inl, fun hj => hj.elim id fun he => he ▸ hm⟩
  · simp

theorem nodup_pushCompletedUnique {completed : List Handle} (hn : completed.Nodup) :
    (pushCompletedUnique completed h).Nodup := by
  unfold pushCompletedUnique
  split
  · exact hn
  · rename_i hm
    exact List.nodup_append_comm.mp (List.nodup_cons.mpr ⟨hm, hn⟩)

theorem mem_foldl_pushCompletedUnique {completed done : List Handle} {j : Handle} :
    j ∈ done.foldl pushCompletedUnique completed ↔ j ∈ completed ∨ j ∈ done := by
  induction done generalizing completed with
  | nil => simp
  | cons d done ih => rw [List.foldl_cons, ih, mem_pushCompletedUnique, List.mem_cons, or_assoc]

theorem nodup_foldl_pushCompletedUnique {completed done : List Handle} (hn : completed.Nodup) :
    (done.foldl pushCompletedUnique completed).Nodup := by
  induction done generalizing completed with
  | nil => exact hn
  | cons d done ih => exact ih (nodup_pushCompletedUnique hn)

theorem complete_tidy (ht : Tidy b) : Tidy (b.complete h) :=
  ⟨nodup_pushCompletedUnique ht.1, fun j hj =>
    (ht.2 j hj).imp_right fun hm => mem_pushCompletedUnique.mpr (.inl hm)⟩

/-- Writing a price back leaves the handles of the fills alone. -/
theorem priceWrites_handles (writes : List (Nat × F)) (fills : List (ReplicaFill F)) :
    (writes.foldl (fun fills w => fills.modify w.1 fun f => { f with lastPrice := w.2 })
      fills).map (·.order) = fills.map (·.order) := by
  induction writes generalizing fills with
  | nil => rfl
  | cons w writes ih =>
      rw [List.foldl_cons, ih]
      apply List.ext_getElem?
      intro i
      simp only [List.getElem?_map, List.getElem?_modify]
      cases fills[i]? with
      | none => rfl
      | some f =>
          simp only [Option.map_eq_map, Option.map_some, Option.some.injEq]
          split <;> rfl

theorem reconcile_handles (pass : Pass F) :
    (b.reconcile pass).fillHandles = b.fillHandles.filter fun h => decide (h ∉ pass.doneHandles) := by
  unfold ReplicaBroker.fillHandles ReplicaBroker.reconcile
  dsimp only
  rw [show (fun f : ReplicaFill F => decide (f.order ∉ pass.doneHandles)) =
    (fun h => decide (h ∉ pass.doneHandles)) ∘ (·.order) from rfl, ← List.filter_map,
    priceWrites_handles]

theorem reconcile_tidy (ht : Tidy b) (pass : Pass F) : Tidy (b.reconcile pass) := by
  refine ⟨nodup_foldl_pushCompletedUnique ht.1, fun j hj => ?_⟩
  rw [reconcile_handles]
  have hdone : j ∈ (b.reconcile pass).completed ↔ j ∈ b.completed ∨ j ∈ pass.doneHandles :=
    mem_foldl_pushCompletedUnique
  rw [hdone]
  rcases ht.2 j hj with hm | hm
  · by_cases hp : j ∈ pass.doneHandles
    · exact .inr (.inr hp)
    · exact .inl (List.mem_filter.mpr ⟨hm, by simpa using hp⟩)
  · exact .inr (.inl hm)

variable [Quantity F]

/-! ## Placing -/

section Place

variable {args : Args F} {orderId : String} {b' : ReplicaBroker F}

/-- What placing an order adds to the broker. -/
structure Placed (b : ReplicaBroker F) (h : Handle) (b' : ReplicaBroker F) : Prop where
  handle : h = b.cells.length
  cells : ∃ o, b'.cells = b.cells ++ [o] ∧ o.Clean ∧ (h ∈ b'.completed → h ∉ b.completed →
    o.isDone = true)
  completed : ∀ j, j ∈ b'.completed → j ∈ b.completed ∨ j = h
  tidy : Tidy b → Tidy b'

omit [Quantity F] in
theorem modify_last {o : VOrder F} (cells : List (VOrder F)) (f : VOrder F → VOrder F) :
    (cells ++ [o]).modify cells.length f = cells ++ [f o] := by
  induction cells with
  | nil => rfl
  | cons c cells ih => simp [ih]

theorem place_placed (hp : b.place pushCompletedUnique orderId args = some (h, b')) :
    Placed b h b' := by
  unfold ReplicaBroker.place at hp
  obtain ⟨o, ho, hr⟩ := Option.map_eq_some_iff.mp hp
  have hu := VOrder.ofArgs_unfilled ho
  dsimp only at hr
  split at hr
  · cases hr
    refine ⟨rfl, ⟨o.reject, modify_last b.cells _, .inl o.reject_isDone, fun _ _ => o.reject_isDone⟩,
      fun j hj => mem_pushCompletedUnique.mp hj, fun ht => ?_⟩
    refine ⟨nodup_pushCompletedUnique ht.1, fun j hj => ?_⟩
    dsimp only [ReplicaBroker.onCell, ReplicaBroker.register] at hj
    rw [modify_last, List.length_append] at hj
    rcases Nat.lt_succ_iff_lt_or_eq.mp hj with hj | rfl
    · exact (ht.2 j hj).imp_right fun hm => mem_pushCompletedUnique.mpr (.inl hm)
    · exact .inr (mem_pushCompletedUnique.mpr (.inr rfl))
  · rename_i instrument _
    cases hr
    refine ⟨rfl, ⟨_, modify_last b.cells _, hu.applyAsMarket _, fun hin hnot => absurd hin hnot⟩,
      fun j hj => .inl hj, fun ht => ⟨ht.1, fun j hj => ?_⟩⟩
    have hh : ∀ {b' : ReplicaBroker F} {fill : ReplicaFill F}, b'.fills = b.fills ++ [fill] →
        b'.fillHandles = b.fillHandles ++ [fill.order] := by
      intro b' fill he
      simp [ReplicaBroker.fillHandles, he]
    rw [hh rfl]
    dsimp only [ReplicaBroker.onCell, ReplicaBroker.register] at hj
    rw [modify_last, List.length_append] at hj
    rcases Nat.lt_succ_iff_lt_or_eq.mp hj with hj | rfl
    · exact (ht.2 j hj).imp_left (List.mem_append_left _)
    · exact .inl (List.mem_append_right _ (List.mem_singleton.mpr rfl))

end Place

/-! ## Sections -/

namespace Task

/-- The orders a task has found done, or made done, and not completed yet. -/
def claims : Task F → List Handle
  | .cancelComplete handle | .outcomeComplete handle _ => [handle]
  | .fillSymbol pass _ | .fillUpdate pass _ _ _ _ | .fillDone pass _ _ _ _ => pass.doneHandles
  | _ => []

/-- The call has reported the order canceled. -/
def reported (h : Handle) : Task F → Bool
  | .finished (.outcome (some j) o) => decide (j = h) && decide (o.status = .canceled)
  | _ => false

/-- The call has reported the order canceled, or is going to. -/
def reports (h : Handle) : Task F → Bool
  | .outcomeComplete j _ => decide (j = h)
  | task => task.reported h

/-- A modification that leaves the quantity as it is. -/
def KeepsQuantity (b : ReplicaBroker F) : Task F → Prop
  | .modifyOrder handle args =>
      ∀ o ∈ b.cell handle, (o.modify args).quantity = o.quantity
  | _ => True

instance (b : ReplicaBroker F) (task : Task F) : Decidable (task.KeepsQuantity b) := by
  cases task <;> unfold KeepsQuantity <;> infer_instance

omit [Quantity F] in
theorem reports_of_reported (hr : task.reported h = true) : task.reports h = true := by
  unfold reports
  split
  · cases hr
  · exact hr

end Task

theorem section_tidy (ht : Tidy b) (task : Task F) : Tidy (task.section b).2 := by
  unfold Task.section
  split
  case h_1 | h_3 | h_6 => split <;> exact ht
  case h_2 => exact tidy_onCell.mpr ht
  case h_5 | h_8 => exact complete_tidy ht
  case h_4 | h_7 =>
    split
    · exact ht
    · split
      · exact ht
      · exact tidy_onCell.mpr ht
  case h_11 pass => exact reconcile_tidy ht pass
  case h_12 => split <;> exact ht
  case h_13 => exact tidy_onCell.mpr ht
  all_goals exact ht

/-- An order that is canceled in full and not filled. -/
def CanceledAt (b : ReplicaBroker F) (h : Handle) : Prop :=
  ∃ o, b.cell h = some o ∧ o.isDone = true ∧ o.filledQuantity = 0

theorem CanceledAt.frozen {b' : ReplicaBroker F} (hc : CanceledAt b h) (hf : Frozen b b') :
    CanceledAt b' h := by
  obtain ⟨o, ho, hd, hz⟩ := hc
  obtain ⟨o', ho', hd', hz', _⟩ := hf h o ho hd
  exact ⟨o', ho', hd', hz'.trans hz⟩

/-- What one section does, given that the claims of its task are right. -/
structure Sectioned (b : ReplicaBroker F) (task : Task F) (r : Task F × ReplicaBroker F) : Prop where
  clean : CleanCells r.2
  frozen : Frozen b r.2
  completed : ∀ h ∈ r.2.completed, h ∈ b.completed ∨ h ∈ task.claims
  claims : ∀ h ∈ r.1.claims, r.2.isDone h = true
  reports : ∀ h, r.1.reports h = true →
    task.reports h = true ∨ (b.isDone h = false ∧ CanceledAt r.2 h)

section Sections

variable (hc : CleanCells b)
include hc

/-- A section that leaves the broker as it is and its task with no more claims. -/
theorem sectioned_same {task' : Task F} (hclaims : ∀ h ∈ task'.claims, b.isDone h = true)
    (hreports : ∀ h, task'.reports h = true → task.reports h = true) :
    Sectioned b task (task', b) :=
  ⟨hc, .refl b, fun _ hm => .inl hm, hclaims, fun h hr => .inl (hreports h hr)⟩

theorem sectioned_onCell {task' : Task F} {f : VOrder F → VOrder F}
    (hf : ∀ o, b.cell h = some o → o.Evolves (f o))
    (hclaims : ∀ j ∈ task'.claims, (b.onCell h f).isDone j = true)
    (hreports : ∀ j, task'.reports j = true →
      task.reports j = true ∨ (b.isDone j = false ∧ CanceledAt (b.onCell h f) j)) :
    Sectioned b task (task', b.onCell h f) :=
  ⟨(onCell_evolves hf hc).1, (onCell_evolves hf hc).2, fun _ hm => .inl hm, hclaims, hreports⟩

/-- Canceling an open order. -/
theorem cancel_canceledAt {o : VOrder F} (ho : b.cell h = some o) (hd : o.isDone = false) :
    (∀ o, b.cell h = some o → o.Evolves o.cancel) ∧ CanceledAt (b.onCell h (·.cancel)) h := by
  constructor
  · intro o' ho'
    obtain rfl : o = o' := by simpa [ho] using ho'
    exact VOrder.cancel_evolves hd
  · obtain ⟨hdone, hz⟩ := (hc h o ho).cancel hd
    exact ⟨o.cancel, by rw [ReplicaBroker.cell_onCell, if_pos rfl, ho]; rfl, hdone, hz⟩

theorem section_sectioned (hclaims : ∀ h ∈ task.claims, b.isDone h = true)
    (hq : task.KeepsQuantity b) : Sectioned b task (task.section b) := by
  have nothing : ∀ {task' : Task F}, task'.claims = [] →
      (∀ h, task'.reports h = true → task.reports h = true) → Sectioned b task (task', b) :=
    fun he hr => sectioned_same hc (fun _ hm => by rw [he] at hm; cases hm) hr
  cases task with
  | modifyFind orderId args =>
      simp only [Task.section]
      split <;> exact nothing rfl fun _ h => (by cases h)
  | modifyOrder handle args =>
      exact sectioned_onCell hc (fun o ho => VOrder.modify_evolves (hq o ho))
        (fun _ h => (by cases h)) fun _ h => (by cases h)
  | cancelFind orderId =>
      simp only [Task.section]
      split <;> exact nothing rfl fun _ h => (by cases h)
  | cancelOrder handle =>
      simp only [Task.section]
      split
      · exact nothing rfl fun _ h => (by cases h)
      · rename_i o ho
        split
        · exact nothing rfl fun _ h => (by cases h)
        · rename_i hd
          obtain ⟨hev, hcan⟩ := cancel_canceledAt hc ho (Bool.eq_false_iff.mpr hd)
          refine sectioned_onCell hc hev (fun j hj => ?_) fun _ h => (by cases h)
          obtain rfl : j = handle := List.mem_singleton.mp hj
          obtain ⟨o', ho', hd', _⟩ := hcan
          exact isDone_cell.mpr ⟨o', ho', hd'⟩
  | cancelComplete handle =>
      refine ⟨hc, .of_cells rfl, fun j hj => ?_, fun _ h => (by cases h), fun _ h => (by cases h)⟩
      exact (mem_pushCompletedUnique.mp hj).imp_right fun he => by simp [Task.claims, he]
  | outcomeFind orderId =>
      simp only [Task.section]
      split
      · exact nothing rfl fun _ h => (by cases h)
      · exact nothing rfl fun _ h => (by cases h)
  | outcomeOrder handle =>
      simp only [Task.section]
      split
      · exact nothing rfl fun _ h => (by cases h)
      · rename_i o ho
        split
        · refine nothing rfl fun _ h => ?_
          simp [Task.reports, Task.reported, CancelOutcome.alreadyTerminal] at h
        · rename_i hd
          have hopen := Bool.eq_false_iff.mpr hd
          obtain ⟨hev, hcan⟩ := cancel_canceledAt hc ho hopen
          refine sectioned_onCell hc hev (fun j hj => ?_) fun j hj => .inr ?_
          · obtain rfl : j = handle := List.mem_singleton.mp hj
            obtain ⟨o', ho', hd', _⟩ := hcan
            exact isDone_cell.mpr ⟨o', ho', hd'⟩
          · obtain rfl : handle = j := of_decide_eq_true hj
            refine ⟨?_, hcan⟩
            rw [ReplicaBroker.isDone, ho]
            exact hopen
  | outcomeComplete handle orderId =>
      refine ⟨hc, .of_cells rfl, fun j hj => ?_, fun _ h => (by cases h), fun j hj => .inl ?_⟩
      · exact (mem_pushCompletedUnique.mp hj).imp_right fun he => by simp [Task.claims, he]
      · simpa [Task.section, Task.reports, Task.reported, CancelOutcome.canceled] using hj
  | fillHandles => exact nothing rfl fun _ h => (by cases h)
  | fillPrices todo => exact nothing rfl fun _ h => (by cases h)
  | fillSymbol pass todo =>
      cases todo with
      | nil =>
          refine ⟨hc, .of_cells rfl, fun j hj => ?_, fun _ h => (by cases h), fun _ h => (by cases h)⟩
          exact mem_foldl_pushCompletedUnique.mp hj
      | cons next todo =>
          obtain ⟨i, handle⟩ := next
          simp only [Task.section]
          split
          · exact sectioned_same hc hclaims fun _ h => (by cases h)
          · exact sectioned_same hc hclaims fun _ h => (by cases h)
  | fillUpdate pass i handle lastPrice todo =>
      refine sectioned_onCell hc (fun o _ => o.applyFillUpdate_evolves lastPrice) (fun j hj => ?_)
        fun _ h => (by cases h)
      exact (onCell_evolves (fun o _ => o.applyFillUpdate_evolves lastPrice) hc).2.isDone
        (hclaims j hj)
  | fillDone pass i handle lastPrice todo =>
      refine sectioned_same hc (fun j hj => ?_) fun _ h => (by cases h)
      rcases List.mem_append.mp hj with hj | hj
      · exact hclaims j hj
      · split at hj
        · rename_i hd
          rw [List.mem_singleton.mp hj]
          exact hd
        · cases hj
  | finished reply => exact nothing rfl fun _ h => h

end Sections

/-! ## Runs -/

variable {s : AsyncReplicaBroker F}

theorem step_tidy (ht : Tidy s.inner) (a : AsyncAction F) :
    Tidy ((asyncReplicaBroker uuid).step s a).2.inner := by
  show Tidy (s.step uuid a).2.inner
  cases a with
  | call c =>
      show Tidy (s.call uuid c).inner
      cases c with
      | update instruments => exact ht
      | place args =>
          simp only [AsyncReplicaBroker.call]
          split
          · exact ht
          · rename_i hp
            exact (place_placed hp).tidy ht
      | modify args | cancel args | orderCancelOutcome args =>
          simp only [AsyncReplicaBroker.call]
          split <;> exact ht
      | runFill => exact ht
  | advance i =>
      simp only [AsyncReplicaBroker.step]
      split
      · exact ht
      · exact section_tidy ht _

/-- What is asked of a step: a modification does not change the quantity. -/
def QuantityKept (s : AsyncReplicaBroker F) : AsyncAction F → Prop
  | .call _ => True
  | .advance i => ∀ task ∈ s.tasks[i]?, task.KeepsQuantity s.inner

instance (s : AsyncReplicaBroker F) (a : AsyncAction F) : Decidable (QuantityKept s a) := by
  cases a <;> unfold QuantityKept <;> infer_instance

structure Sound (s : AsyncReplicaBroker F) : Prop where
  clean : CleanCells s.inner
  completed : ∀ h ∈ s.inner.completed, s.inner.isDone h = true
  claims : ∀ task ∈ s.tasks, ∀ h ∈ task.claims, s.inner.isDone h = true
  reports : ∀ task ∈ s.tasks, ∀ h, task.reports h = true → CanceledAt s.inner h
  once : ∀ h, s.tasks.countP (Task.reports h) ≤ 1

theorem sound_new : Sound (.new : AsyncReplicaBroker F) :=
  ⟨fun _ _ h => by simp [AsyncReplicaBroker.new, ReplicaBroker.new, ReplicaBroker.cell] at h,
    fun _ h => (nomatch h), fun _ h => (nomatch h), fun _ h => (nomatch h), fun _ => Nat.zero_le 1⟩

/-- A new task that claims and reports nothing. -/
theorem Sound.start (hs : Sound s) {inner : ReplicaBroker F} (hc : CleanCells inner)
    (hf : Frozen s.inner inner) (hd : ∀ h ∈ inner.completed, inner.isDone h = true) {task : Task F}
    (hclaims : task.claims = []) (hreports : ∀ h, task.reports h = false) :
    Sound ⟨inner, s.tasks ++ [task]⟩ := by
  refine ⟨hc, hd, fun t ht h hm => ?_, fun t ht h hr => ?_, fun h => ?_⟩
  · rcases List.mem_append.mp ht with ht | ht
    · exact hf.isDone (hs.claims t ht h hm)
    · rw [List.mem_singleton.mp ht, hclaims] at hm
      cases hm
  · rcases List.mem_append.mp ht with ht | ht
    · exact (hs.reports t ht h hr).frozen hf
    · rw [List.mem_singleton.mp ht, hreports] at hr
      cases hr
  · simpa [hreports] using hs.once h

theorem Placed.frozen {b' : ReplicaBroker F} (hp : Placed b h b') : Frozen b b' := by
  obtain ⟨rfl, ⟨o, ho, _, _⟩, _, _⟩ := hp
  intro j o' hj hd
  refine ⟨o', ?_, hd, rfl, rfl⟩
  rw [ReplicaBroker.cell, ho, List.getElem?_append_left]
  · exact hj
  · exact (List.getElem?_eq_some_iff.mp hj).1

theorem Sound.place (hs : Sound s) {inner : ReplicaBroker F} (hp : Placed s.inner h inner) :
    CleanCells inner ∧ ∀ j ∈ inner.completed, inner.isDone j = true := by
  have hf := hp.frozen
  obtain ⟨rfl, ⟨o, ho, hclean, hdone⟩, hcompleted, _⟩ := hp
  have hlast : inner.cell s.inner.cells.length = some o := by simp [ReplicaBroker.cell, ho]
  constructor
  · intro j o' hj
    rw [ReplicaBroker.cell, ho, List.getElem?_append] at hj
    split at hj
    · exact hs.clean j o' hj
    · rw [List.getElem?_singleton] at hj
      split at hj
      · cases hj
        exact hclean
      · cases hj
  · intro j hj
    rcases hcompleted j hj with hm | rfl
    · exact hf.isDone (hs.completed j hm)
    · refine isDone_cell.mpr ⟨o, hlast, hdone hj fun hm => ?_⟩
      obtain ⟨o', ho', _⟩ := isDone_cell.mp (hs.completed _ hm)
      exact absurd (List.getElem?_eq_some_iff.mp ho').1 (lt_irrefl _)

theorem call_sound (hs : Sound s) (c : AsyncCall F) :
    Sound (s.call uuid c) ∧ Frozen s.inner (s.call uuid c).inner := by
  have begin : ∀ {task : Task F}, task.claims = [] → (∀ h, task.reports h = false) →
      Sound (s.start task) ∧ Frozen s.inner (s.start task).inner := fun hc hr =>
    ⟨hs.start hs.clean (.refl _) hs.completed hc hr, .refl _⟩
  cases c with
  | update instruments =>
      have hf : Frozen s.inner (s.inner.update instruments) := .of_cells rfl
      have hc : CleanCells (s.inner.update instruments) := hs.clean
      exact ⟨hs.start hc hf hs.completed rfl fun _ => rfl, hf⟩
  | place args =>
      simp only [AsyncReplicaBroker.call]
      split
      · exact begin rfl fun _ => rfl
      · rename_i hp
        obtain ⟨hc, hd⟩ := hs.place (place_placed hp)
        have hf := (place_placed hp).frozen
        exact ⟨hs.start hc hf hd rfl fun _ => rfl, hf⟩
  | modify args | cancel args | orderCancelOutcome args =>
      simp only [AsyncReplicaBroker.call]
      split <;> exact begin rfl fun _ => rfl
  | runFill => exact begin rfl fun _ => rfl

theorem advance_sound (hs : Sound s) {i : Nat} {task : Task F} (hi : s.tasks[i]? = some task)
    (hq : task.KeepsQuantity s.inner) :
    Sound ⟨(task.section s.inner).2, s.tasks.set i (task.section s.inner).1⟩ ∧
      Frozen s.inner (task.section s.inner).2 := by
  have hmem := List.mem_of_getElem? hi
  obtain ⟨hc, hf, hcompleted, hclaims, hreports⟩ :=
    section_sectioned hs.clean (hs.claims task hmem) hq
  refine ⟨⟨hc, fun h hm => ?_, fun t ht h hm => ?_, fun t ht h hr => ?_, fun h => ?_⟩, hf⟩
  · rcases hcompleted h hm with hm | hm
    · exact hf.isDone (hs.completed h hm)
    · exact hf.isDone (hs.claims task hmem h hm)
  · rcases List.mem_or_eq_of_mem_set ht with ht | rfl
    · exact hf.isDone (hs.claims t ht h hm)
    · exact hclaims h hm
  · rcases List.mem_or_eq_of_mem_set ht with ht | rfl
    · exact (hs.reports t ht h hr).frozen hf
    · rcases hreports h hr with hr | ⟨_, hcan⟩
      · exact (hs.reports task hmem h hr).frozen hf
      · exact hcan
  · obtain ⟨hlt, hget⟩ := List.getElem?_eq_some_iff.mp hi
    have honce := hs.once h
    rw [List.countP_set hlt, hget]
    cases hr : (task.section s.inner).1.reports h with
    | false => exact (Nat.sub_le _ _).trans honce
    | true =>
        rcases hreports h hr with hold | ⟨hopen, _⟩
        · -- the report moves on with its task
          have hpos : 0 < s.tasks.countP (Task.reports h) :=
            List.countP_pos_iff.mpr ⟨task, hmem, hold⟩
          simp only [hold, ↓reduceIte]
          omega
        · -- nobody reports an open order
          have hzero : s.tasks.countP (Task.reports h) = 0 := by
            refine List.countP_eq_zero.mpr fun t ht hrt => ?_
            obtain ⟨o, ho, hd, _⟩ := hs.reports t ht h hrt
            rw [isDone_cell.mpr ⟨o, ho, hd⟩] at hopen
            cases hopen
          simp [hzero]

theorem step_sound (hs : Sound s) {a : AsyncAction F} (ha : QuantityKept s a) :
    Sound ((asyncReplicaBroker uuid).step s a).2 ∧
      Frozen s.inner ((asyncReplicaBroker uuid).step s a).2.inner := by
  show Sound (s.step uuid a).2 ∧ Frozen s.inner (s.step uuid a).2.inner
  cases a with
  | call c => exact call_sound hs c
  | advance i =>
      simp only [AsyncReplicaBroker.step]
      split
      · exact ⟨hs, .refl _⟩
      · rename_i task hi
        exact advance_sound hs hi (ha task hi)

theorem run_sound (hs : Sound s) {actions : List (AsyncAction F)}
    (ha : (asyncReplicaBroker uuid).Always QuantityKept s actions) :
    Sound ((asyncReplicaBroker uuid).final s actions) ∧
      Frozen s.inner ((asyncReplicaBroker uuid).final s actions).inner :=
  (asyncReplicaBroker uuid).history_induction
    (P := fun _ t => Sound t ∧ Frozen s.inner t.inner) (w := [])
    (fun _ _ _ ht ha => ⟨(step_sound ht.1 ha).1, ht.2.trans (step_sound ht.1 ha).2⟩)
    ⟨hs, .refl _⟩ ha

/-- A finished report stays among the tasks. -/
theorem step_reported {a : AsyncAction F} {task : Task F} (hm : task ∈ s.tasks)
    (hr : task.reported h = true) : task ∈ ((asyncReplicaBroker uuid).step s a).2.tasks := by
  show task ∈ (s.step uuid a).2.tasks
  cases a with
  | call c =>
      cases c <;> simp only [AsyncReplicaBroker.step, AsyncReplicaBroker.call,
        AsyncReplicaBroker.start] <;> first | split <;> simp [hm] | simp [hm]
  | advance i =>
      simp only [AsyncReplicaBroker.step]
      split
      · exact hm
      · rename_i t hi
        obtain ⟨j, hj, rfl⟩ := List.mem_iff_getElem.mp hm
        by_cases he : i = j
        · subst he
          obtain rfl : s.tasks[i] = t := by simpa [List.getElem?_eq_getElem hj] using hi
          generalize s.tasks[i] = task at hr ⊢
          cases task with
          | finished reply => exact List.mem_set hj _
          | _ => cases hr
        · exact List.mem_iff_getElem.mpr ⟨j, by simpa using hj, by simp [he]⟩

theorem run_reported {actions : List (AsyncAction F)} {task : Task F} (hm : task ∈ s.tasks)
    (hr : task.reported h = true) : task ∈ ((asyncReplicaBroker uuid).final s actions).tasks :=
  (asyncReplicaBroker uuid).invariant (I := fun t => task ∈ t.tasks)
    (fun _ _ ht => step_reported ht hr) hm actions

theorem run_tidy (actions : List (AsyncAction F)) :
    Tidy ((asyncReplicaBroker uuid).final .new actions).inner :=
  (asyncReplicaBroker uuid).invariant (I := fun s => Tidy s.inner) (fun _ a h => step_tidy h a)
    (show Tidy (AsyncReplicaBroker.new : AsyncReplicaBroker F).inner from
      ⟨.nil, fun _ h => (nomatch h)⟩) actions

/-- In every run, cut anywhere into a first part and a later one: every order is completed at most once
and is among the fills or completed. If no modification changes a quantity, a completed order is done
and its quantities stay, at most one call reports an order canceled, and an order that is reported
canceled at any time is filled at no time. -/
theorem async_replica_bookkeeping (uuid : Nat → String) (actions later : List (AsyncAction F)) :
    let s := (asyncReplicaBroker uuid).final .new actions
    let t := (asyncReplicaBroker uuid).final .new (actions ++ later)
    Tidy s.inner ∧
      ((asyncReplicaBroker uuid).Always QuantityKept .new (actions ++ later) →
        (∀ h ∈ s.inner.completed, ∃ o o', s.inner.cell h = some o ∧ o.isDone = true ∧
          t.inner.cell h = some o' ∧ o'.filledQuantity = o.filledQuantity ∧
          o'.canceledQuantity = o.canceledQuantity) ∧
        (∀ h, s.tasks.countP (Task.reported h) ≤ 1) ∧
        ∀ h, (∃ task ∈ s.tasks ++ t.tasks, task.reported h = true) →
          ∀ o, s.inner.cell h = some o ∨ t.inner.cell h = some o → ¬ 0 < o.filledQuantity) := by
  intro s t
  have ht : t = (asyncReplicaBroker uuid).final s later := Machine.final_append _ _ _ _
  refine ⟨run_tidy actions, fun ha => ?_⟩
  obtain ⟨ha₁, ha₂⟩ := (Machine.Always.append _).mp ha
  have hs : Sound s := (run_sound sound_new ha₁).1
  obtain ⟨ht', hf⟩ : Sound t ∧ Frozen s.inner t.inner := ht ▸ run_sound hs ha₂
  refine ⟨fun h hm => ?_, fun h => ?_, fun h ⟨task, hm, hr⟩ o ho hpos => ?_⟩
  · obtain ⟨o, ho, hd⟩ := isDone_cell.mp (hs.completed h hm)
    obtain ⟨o', ho', _, hfilled, hcanceled⟩ := hf h o ho hd
    exact ⟨o, o', ho, hd, ho', hfilled, hcanceled⟩
  · exact (List.countP_mono_left fun task _ hr => Task.reports_of_reported hr).trans (hs.once h)
  · have hin : task ∈ t.tasks := by
      rcases List.mem_append.mp hm with hm | hm
      · exact ht ▸ run_reported hm hr
      · exact hm
    obtain ⟨o', ho', _, hz⟩ := ht'.reports task hin h (Task.reports_of_reported hr)
    rcases ho with ho | ho
    · rcases hs.clean h o ho with hd | ⟨hzero, _⟩
      · obtain ⟨o'', ho'', _, hfilled, _⟩ := hf h o ho hd
        obtain rfl : o' = o'' := by simpa [ho'] using ho''
        rw [← hfilled, hz] at hpos
        exact lt_irrefl _ hpos
      · rw [hzero] at hpos
        exact lt_irrefl _ hpos
    · obtain rfl : o' = o := by simpa [ho'] using ho
      rw [hz] at hpos
      exact lt_irrefl _ hpos

open Sample in
/-- Two cancellations of one order and a pass over the fills, section by section. -/
theorem async_replica_bookkeeping_raced :
    let id := OrdMap.empty.insert "order_id" (.str (ids 0))
    let s := (asyncReplicaBroker ids).final .new
      [.call (.update [⟨"AAPL", 125⟩]), .call (.place buyLimit), .call (.orderCancelOutcome id),
        .call (.orderCancelOutcome id), .call .runFill, .advance 2, .advance 3, .advance 4, .advance 4,
        .advance 3, .advance 2, .advance 4, .advance 4, .advance 4, .advance 3, .advance 4]
    s.tasks.countP (Task.reported 0) = 1 ∧ s.inner.completed = [0] ∧
      (∀ h, s.tasks.countP (Task.reported h) ≤ 1) := by
  intro id s
  exact ⟨by decide, by decide,
    ((async_replica_bookkeeping ids _ []).2 (by decide)).2.1⟩

end Omsrs.Replica
