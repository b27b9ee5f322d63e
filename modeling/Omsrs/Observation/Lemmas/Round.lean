import Omsrs.Execution.Lemmas.Market
import Omsrs.Observation.Lemmas.Wire
import Omsrs.Observation.Round

/-!
# What a round leaves

The parts of a closed round, and its transaction applied to what it was prepared from.
-/

namespace Omsrs.Observation
open Omsrs.Lib Omsrs.Lifecycle Omsrs.Execution

variable {round : ObservationRound} {r : WireRegistry} {inv : MarketInventory}
  {members : List OrderRow} {row : RowEvidence} {l : LedgerId} {ws : WireState}

/-! ## The members -/

theorem duplicates_eq_nil {cids : List ClientOrderId} {seen : List ClientOrderId} :
    duplicates seen cids = [] ↔ cids.Nodup ∧ ∀ cid ∈ cids, cid ∉ seen := by
  induction cids generalizing seen with
  | nil => simp [duplicates]
  | cons cid cids ih =>
      simp only [duplicates]
      split
      · rename_i hmem
        simp [hmem]
      · rename_i hmem
        rw [ih, List.nodup_cons]
        constructor
        · rintro ⟨hn, hs⟩
          refine ⟨⟨fun h => hs cid h (by simp), hn⟩, fun c hc => ?_⟩
          rcases List.mem_cons.mp hc with rfl | hc
          · exact hmem
          · exact fun h => hs c hc (List.mem_cons_of_mem _ h)
        · rintro ⟨⟨hc, hn⟩, hs⟩
          refine ⟨hn, fun c hc' h => ?_⟩
          rcases List.mem_cons.mp h with rfl | h
          · exact hc hc'
          · exact hs c (List.mem_cons_of_mem _ hc') h

/-- The rows of a round: each once, on its ledger, and just those of the members that are not over. -/
structure Members (ledger : LedgerId) (ws : WireState) (members : List OrderRow) : Prop where
  nodup : (members.map (·.ctx.clientOrderId)).Nodup
  ledger : ∀ order ∈ members, order.ledger = ledger
  mem_iff : ∀ cid, cid ∈ members.map (·.ctx.clientOrderId) ↔ cid ∈ ws.nonTerminalCids

theorem checkMembers_ok (h : checkMembers l ws members = .ok ()) : Members l ws members := by
  simp only [checkMembers] at h
  split at h
  · rename_i hall
    obtain ⟨hmissing, hextra, hdup, hmis⟩ := hall
    refine ⟨(duplicates_eq_nil.mp hdup).1, fun order ho => ?_, fun cid => ⟨fun hc => ?_, fun hc => ?_⟩⟩
    · by_contra hne
      have hmem : order ∈ members.filter (memberMismatched l) :=
        List.mem_filter.mpr ⟨ho, by simp [memberMismatched, hne]⟩
      rw [List.map_eq_nil_iff.mp hmis] at hmem
      cases hmem
    · have := List.filter_eq_nil_iff.mp hextra cid hc
      simpa using this
    · have := List.filter_eq_nil_iff.mp hmissing cid hc
      simpa using this
  · cases h

namespace ObservationRound

/-! ## The parts of a closed round -/

/-- The members of a round and what it does to each. -/
def scratches (round : ObservationRound) (ws : WireState) (inv : MarketInventory) (row : RowEvidence)
    (members : List OrderRow) : List (OrderRow × MemberScratch) :=
  members.map fun order => (order, closeMember round ws row (verdict round ws inv row) order)

structure Finished (round : ObservationRound) (r : WireRegistry) (inv : MarketInventory)
    (members : List OrderRow) (row : RowEvidence) (t : ObservationTransaction) : Prop where
  ledger : t.ledger = round.ledger
  wire : t.wire = round.wire
  rows : Members round.ledger (r.ensure round.ledger round.wire) members
  prepared : t.preparedMembers = members
  outcome : t.outcome = verdict round (r.ensure round.ledger round.wire) inv row
  after : membersAfter (scratches round (r.ensure round.ledger round.wire) inv row members) =
    .ok t.membersAfter
  wireAfter : t.wireAfter = observeWire (r.ensure round.ledger round.wire) row t.outcome
    t.membersAfter ((scratches round (r.ensure round.ledger round.wire) inv row members).any
      fun (_, m) => isPending m)
  inventoryGeneration : t.expectedInventoryGeneration = inv.generation
  wireGeneration : t.expectedWireGeneration = (r.ensure round.ledger round.wire).generation
  effects : t.effects = .observation t.outcome ::
    (scratches round (r.ensure round.ledger round.wire) inv row members).flatMap (·.2.effects)
  journal : t.journal =
    if t.membersAfter = [] ∧ t.wireAfter = r.ensure round.ledger round.wire then none
    else some (.observationTxn
      { ledger := round.ledger
        wire := round.wire
        row := row
        page := round.page
        pageIds := pageIds round.outcomes
        outcome := t.outcome
        inventoryGenerationBefore := inv.generation
        wireGenerationBefore := (r.ensure round.ledger round.wire).generation
        membersAfter := t.membersAfter
        wireAfter := t.wireAfter })

theorem finish_ok {t : ObservationTransaction} (h : round.finish r inv members row = .ok t) :
    Finished round r inv members row t := by
  simp only [finish] at h
  split at h
  · cases h
  · simp only [bind, Except.bind] at h
    split at h
    · cases h
    · rename_i u hu
      split at h
      · cases h
      · rename_i after hafter
        cases h
        exact ⟨rfl, rfl, checkMembers_ok hu, rfl, rfl, hafter, rfl, rfl, rfl, rfl, rfl⟩

/-! ## The members after a round -/

theorem mem_membersAfter {l : List (OrderRow × MemberScratch)} {after : List MemberAfter}
    (h : membersAfter l = .ok after) (a : MemberAfter) :
    a ∈ after ↔ ∃ order m, (order, m) ∈ l ∧ (m.state ≠ order.state ∨ m.ctx ≠ order.ctx) ∧
      order.cursor.next = .ok a.seq ∧ a.clientOrderId = order.ctx.clientOrderId ∧
      a.stateAfter = m.state ∧ a.ctxAfter = m.ctx := by
  induction l generalizing after with
  | nil =>
      cases h
      simp
  | cons x rest ih =>
      obtain ⟨order, m⟩ := x
      simp only [membersAfter, bind, Except.bind] at h
      split at h
      · cases h
      · rename_i after' hafter'
        have hrest := ih hafter'
        split at h
        · rename_i hch
          split at h
          · rename_i seq hseq
            cases h
            simp only [List.mem_cons, hrest]
            constructor
            · rintro (rfl | ⟨o', m', hm, ha⟩)
              · exact ⟨order, m, .inl rfl, hch, hseq, rfl, rfl, rfl⟩
              · exact ⟨o', m', .inr hm, ha⟩
            · rintro ⟨o', m', hm, hch', hn, hc, hs, hx⟩
              rcases hm with heq | hm
              · cases heq
                rw [hseq] at hn
                cases hn
                refine .inl ?_
                obtain ⟨c, q, s, x⟩ := a
                simp only at hc hs hx
                rw [hc, hs, hx]
              · exact .inr ⟨o', m', hm, hch', hn, hc, hs, hx⟩
          · cases h
        · rename_i hch
          cases h
          rw [hrest]
          constructor
          · rintro ⟨o', m', hm, ha⟩
            exact ⟨o', m', List.mem_cons_of_mem _ hm, ha⟩
          · rintro ⟨o', m', hm, hch', ha⟩
            rcases List.mem_cons.mp hm with heq | hm
            · cases heq
              exact absurd hch' hch
            · exact ⟨o', m', hm, hch', ha⟩

end ObservationRound

/-! ## What becomes of a member -/

theorem raiseFillObligation_ids {c c' : OrderCtx} {n : Nat} (h : c.raiseFillObligation n = .ok c') :
    c'.clientOrderId = c.clientOrderId ∧ c'.market = c.market ∧ c'.appliedFills = c.appliedFills ∧
      c'.attributedFillQty = c.attributedFillQty ∧ c'.venueOrderId = c.venueOrderId := by
  simp only [OrderCtx.raiseFillObligation] at h
  split at h
  · cases h
  · split at h
    · split at h <;> cases h <;> exact ⟨rfl, rfl, rfl, rfl, rfl⟩
    · cases h
      exact ⟨rfl, rfl, rfl, rfl, rfl⟩

/-- A round leaves the identity and the books of its members alone. -/
theorem closeMember_books (round : ObservationRound) (ws : WireState) (row : RowEvidence)
    (outcome : ObservationOutcome) (order : OrderRow) :
    let m := closeMember round ws row outcome order
    m.ctx.clientOrderId = order.ctx.clientOrderId ∧ m.ctx.market = order.ctx.market ∧
      m.ctx.appliedFills = order.ctx.appliedFills ∧
      m.ctx.attributedFillQty = order.ctx.attributedFillQty ∧
      m.ctx.venueOrderId = order.ctx.venueOrderId := by
  have hask : ∀ single filled, let m := askMember single filled order
      m.ctx.clientOrderId = order.ctx.clientOrderId ∧ m.ctx.market = order.ctx.market ∧
        m.ctx.appliedFills = order.ctx.appliedFills ∧
        m.ctx.attributedFillQty = order.ctx.attributedFillQty ∧
        m.ctx.venueOrderId = order.ctx.venueOrderId := by
    intro single filled
    simp only [askMember]
    split
    · split
      · rename_i c hc
        exact raiseFillObligation_ids hc
      · exact ⟨rfl, rfl, rfl, rfl, rfl⟩
    · exact ⟨rfl, rfl, rfl, rfl, rfl⟩
  have hcover : ∀ fresh, let m := coverMember round ws row fresh order
      m.ctx.clientOrderId = order.ctx.clientOrderId ∧ m.ctx.market = order.ctx.market ∧
        m.ctx.appliedFills = order.ctx.appliedFills ∧
        m.ctx.attributedFillQty = order.ctx.attributedFillQty ∧
        m.ctx.venueOrderId = order.ctx.venueOrderId := by
    intro fresh
    simp only [coverMember, restMember]
    split <;> split <;> (try split) <;> (try split) <;> exact ⟨rfl, rfl, rfl, rfl, rfl⟩
  intro m
  simp only [m, closeMember]
  split
  · exact ⟨rfl, rfl, rfl, rfl, rfl⟩
  · split
    · exact ⟨rfl, rfl, rfl, rfl, rfl⟩
    · exact hask _ _
  · split
    · exact ⟨rfl, rfl, rfl, rfl, rfl⟩
    · exact hask _ _
  · split
    · exact ⟨rfl, rfl, rfl, rfl, rfl⟩
    · exact hask _ _
  · split
    · exact ⟨rfl, rfl, rfl, rfl, rfl⟩
    · exact hcover _

/-- What became of a member in a round. -/
inductive Became (m : MemberScratch) (after : List MemberAfter) (order : OrderRow) : OrderRow → Prop
  | same (hs : m.state = order.state) (hc : m.ctx = order.ctx)
      (ha : ∀ a ∈ after, a.clientOrderId ≠ order.ctx.clientOrderId) : Became m after order order
  | changed {seq : Nat} (hch : m.state ≠ order.state ∨ m.ctx ≠ order.ctx)
      (hn : order.cursor.next = .ok seq)
      (ha : ⟨order.ctx.clientOrderId, seq, m.state, m.ctx⟩ ∈ after) :
      Became m after order ⟨order.ledger, ⟨seq⟩, m.state, m.ctx⟩

theorem Became.state {m : MemberScratch} {after : List MemberAfter} {order order' : OrderRow}
    (h : Became m after order order') : order'.state = m.state := by
  cases h with
  | same hs _ _ => exact hs.symm
  | changed _ _ _ => rfl

theorem Became.ctx {m : MemberScratch} {after : List MemberAfter} {order order' : OrderRow}
    (h : Became m after order order') : order'.ctx = m.ctx := by
  cases h with
  | same _ hc _ => exact hc.symm
  | changed _ _ _ => rfl

theorem Became.ledger {m : MemberScratch} {after : List MemberAfter} {order order' : OrderRow}
    (h : Became m after order order') : order'.ledger = order.ledger := by
  cases h <;> rfl

/-- Two members with one id are one. -/
theorem Members.unique (h : Members l ws members) {a b : OrderRow} (ha : a ∈ members)
    (hb : b ∈ members) (hab : a.ctx.clientOrderId = b.ctx.clientOrderId) : a = b :=
  List.inj_on_of_nodup_map h.nodup ha hb hab

namespace ObservationRound

variable {t : ObservationTransaction}

theorem Finished.mem_after (h : Finished round r inv members row t) {a : MemberAfter} :
    a ∈ t.membersAfter ↔ ∃ order ∈ members,
      let m := closeMember round (r.ensure round.ledger round.wire) row t.outcome order
      (m.state ≠ order.state ∨ m.ctx ≠ order.ctx) ∧ order.cursor.next = .ok a.seq ∧
        a.clientOrderId = order.ctx.clientOrderId ∧ a.stateAfter = m.state ∧ a.ctxAfter = m.ctx := by
  rw [mem_membersAfter h.after, h.outcome]
  constructor
  · rintro ⟨order, m, hm, ha⟩
    obtain ⟨order', ho, heq⟩ := List.mem_map.mp hm
    cases heq
    exact ⟨_, ho, ha⟩
  · rintro ⟨order, ho, ha⟩
    exact ⟨order, _, List.mem_map.mpr ⟨order, ho, rfl⟩, ha⟩

/-- A member that changed has its next sequence number. -/
theorem membersAfter_next {l : List (OrderRow × MemberScratch)} {after : List MemberAfter}
    (h : membersAfter l = .ok after) {order : OrderRow} {m : MemberScratch} (hm : (order, m) ∈ l)
    (hch : m.state ≠ order.state ∨ m.ctx ≠ order.ctx) : ∃ seq, order.cursor.next = .ok seq := by
  induction l generalizing after with
  | nil => cases hm
  | cons x rest ih =>
      obtain ⟨o, n⟩ := x
      simp only [membersAfter, bind, Except.bind] at h
      split at h
      · cases h
      · rename_i after' hafter'
        rcases List.mem_cons.mp hm with heq | hm
        · cases heq
          rw [if_pos hch] at h
          split at h
          · rename_i seq hseq
            exact ⟨seq, hseq⟩
          · cases h
        · exact ih hafter' hm

theorem Finished.became (h : Finished round r inv members row t) {order : OrderRow}
    (ho : order ∈ members) :
    Became (closeMember round (r.ensure round.ledger round.wire) row t.outcome order) t.membersAfter
      order (t.advance order) := by
  generalize hm : closeMember round (r.ensure round.ledger round.wire) row t.outcome order = m
  have hsame : ∀ {a : MemberAfter}, a ∈ t.membersAfter →
      a.clientOrderId = order.ctx.clientOrderId →
        (m.state ≠ order.state ∨ m.ctx ≠ order.ctx) ∧ order.cursor.next = .ok a.seq ∧
          a.stateAfter = m.state ∧ a.ctxAfter = m.ctx := by
    intro a ha hc
    obtain ⟨order', ho', hch, hn, hc', hs, hx⟩ := h.mem_after.mp ha
    cases h.rows.unique ho' ho (hc'.symm.trans hc)
    rw [hm] at hch hs hx
    exact ⟨hch, hn, hs, hx⟩
  simp only [ObservationTransaction.advance]
  cases hf : t.membersAfter.find? (·.clientOrderId = order.ctx.clientOrderId) with
  | none =>
      have hnone : ∀ a ∈ t.membersAfter, a.clientOrderId ≠ order.ctx.clientOrderId := by
        simpa using List.find?_eq_none.mp hf
      have hch : ¬ (m.state ≠ order.state ∨ m.ctx ≠ order.ctx) := by
        intro hch
        have hl : (order, m) ∈ scratches round (r.ensure round.ledger round.wire) inv row members :=
          List.mem_map.mpr ⟨order, ho, by rw [← hm, h.outcome]⟩
        obtain ⟨seq, hseq⟩ := membersAfter_next h.after hl hch
        exact hnone _ ((mem_membersAfter h.after ⟨order.ctx.clientOrderId, seq, m.state, m.ctx⟩).mpr
          ⟨order, m, hl, hch, hseq, rfl, rfl, rfl⟩) rfl
      simp only [not_or, not_not] at hch
      exact .same hch.1 hch.2 hnone
  | some a =>
      have ha := List.mem_of_find?_eq_some hf
      have hc : a.clientOrderId = order.ctx.clientOrderId := by
        simpa using List.find?_some hf
      obtain ⟨hch, hn, hs, hx⟩ := hsame ha hc
      obtain ⟨c, seq, s, x⟩ := a
      dsimp only at hc hn hs hx ⊢
      subst hc hs hx
      exact .changed hch hn ha

/-- A transaction that is applied to what its round was closed over is taken. -/
theorem Finished.apply_own (h : Finished round r inv members row t) :
    t.apply members r inv =
      .ok (t.outcome, members.map t.advance, r.set round.ledger round.wire t.wireAfter) := by
  have hcids : t.preparedCids = members.map (·.ctx.clientOrderId) := by
    rw [ObservationTransaction.preparedCids, h.prepared]
  have hfind : ∀ target ∈ members,
      members.find? (·.ctx.clientOrderId = target.ctx.clientOrderId) = some target := by
    intro target ht
    cases hf : members.find? (·.ctx.clientOrderId = target.ctx.clientOrderId) with
    | none => simpa using List.find?_eq_none.mp hf target ht
    | some p =>
        have hp := List.find?_some hf
        simp only [decide_eq_true_eq] at hp
        rw [h.rows.unique (List.mem_of_find?_eq_some hf) ht hp]
  have hcheck : ∀ found targets, (∀ target ∈ targets, target ∈ members) →
      t.checkTargets found targets = .ok () := by
    intro found targets hsub
    induction targets with
    | nil => rfl
    | cons target targets ih =>
        simp only [ObservationTransaction.checkTargets, h.prepared,
          hfind target (hsub target (by simp)), checkTarget, ne_eq, not_true_eq_false, or_self, if_false]
        exact ih fun x hx => hsub x (List.mem_cons_of_mem _ hx)
  have hmarker : r.marker round.ledger round.wire = (r.ensure round.ledger round.wire).generation := by
    simp only [WireRegistry.marker, WireRegistry.ensure]
    cases r.get round.ledger round.wire <;> rfl
  simp only [ObservationTransaction.apply, hcids, List.isPerm_iff.mpr (List.Perm.refl _),
    h.rows.nodup, decide_true, Bool.not_true, Bool.or_self, Bool.false_eq_true, if_false,
    hcheck _ _ fun _ hx => hx, bind, Except.bind, h.inventoryGeneration, h.wireGeneration, h.ledger,
    h.wire, hmarker, ne_eq, not_true_eq_false]

end ObservationRound

end Omsrs.Observation
