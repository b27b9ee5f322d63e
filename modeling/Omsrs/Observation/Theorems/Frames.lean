import Mathlib.Data.List.Chain
import Omsrs.Observation.Feed
import Omsrs.Observation.Lemmas.Proof
import Omsrs.Observation.Lemmas.Wire

/-!
# User-order frames in turn

A wire remembers one frame only, and during an amend the frames of two clients pass. The frames of one
client then follow each other exactly where a frame that finds another client's behind it does not go
back behind the last one of its own.
-/

namespace Omsrs.Observation
open Omsrs.Lib Omsrs.Lifecycle Omsrs.Execution

/-! ## Frames that follow each other -/

/-- A later frame of a client: neither the venue's clock nor the filled quantity goes back, one instant
has one state, and an order that stopped resting does not rest again. -/
structure Follows (prev e : UserOrderEvidence) : Prop where
  updated : prev.updatedTsMs ≤ e.updatedTsMs
  filled : prev.filled ≤ e.filled
  agrees : e.updatedTsMs = prev.updatedTsMs → sameUserOrderState e prev = true
  rests : prev.status ≠ .resting → e.status ≠ .resting

theorem sameUserOrderState_trans {a b c : UserOrderEvidence} (h : sameUserOrderState a b = true)
    (h' : sameUserOrderState b c = true) : sameUserOrderState a c = true := by
  simp only [sameUserOrderState, Bool.and_eq_true, decide_eq_true_eq] at *
  simp only [h, h', and_self]

instance : IsTrans UserOrderEvidence Follows where
  trans a b c hab hbc :=
    { updated := hab.updated.trans hbc.updated
      filled := hab.filled.trans hbc.filled
      agrees := fun h => by
        have hb : c.updatedTsMs = b.updatedTsMs := by
          have := hab.updated
          have := hbc.updated
          omega
        exact sameUserOrderState_trans (hbc.agrees hb) (hab.agrees (hb ▸ h))
      rests := fun h => hbc.rests (hab.rests h) }

theorem staleFrame_eq_false {e prev : UserOrderEvidence} :
    staleFrame e prev = false ↔ Follows prev e := by
  simp only [staleFrame, Bool.or_eq_false_iff, Bool.and_eq_false_iff, decide_eq_false_iff_not,
    Bool.not_eq_false', not_lt, not_not]
  constructor
  · rintro ⟨⟨⟨ht, hf⟩, hs⟩, hr⟩
    exact ⟨ht, hf, fun h => hs.resolve_left (not_not.mpr h), fun h => hr.resolve_left h⟩
  · rintro ⟨ht, hf, hs, hr⟩
    exact ⟨⟨⟨ht, hf⟩, Classical.or_iff_not_imp_left.mpr fun h => hs (not_not.mp h)⟩,
      Classical.or_iff_not_imp_left.mpr hr⟩

/-- A chain is extended where its last frame is followed. -/
theorem pairwise_follows_concat {l : List UserOrderEvidence} {e : UserOrderEvidence}
    (h : l.Pairwise Follows) :
    (l ++ [e]).Pairwise Follows ↔ ∀ prev, l.getLast? = some prev → Follows prev e := by
  rw [← List.isChain_iff_pairwise, List.isChain_append]
  simp [List.isChain_iff_pairwise, h, Option.mem_def]

/-! ## What a frame needs to be admitted -/

theorem checkFrame_ok_true {ws : WireState} {e : UserOrderEvidence} (hb : ws.frameBelongs e = true) :
    ws.checkFrame e = .ok true ↔ ∀ prev, ws.latestUserOrder = some prev →
      prev.clientOrderId = e.clientOrderId →
        staleFrame e prev = false ∧ sameUserOrderState e prev = false := by
  simp only [WireState.checkFrame]
  cases hl : ws.latestUserOrder with
  | none => simp
  | some prev =>
      by_cases hc : prev.clientOrderId = e.clientOrderId
      · by_cases hs : staleFrame e prev = true
        · simp [hc, hs]
        · simp [hc, hs]
      · simp [hc, hb]

/-! ## Steps of a feed -/

namespace Feed

variable {ledger : LedgerId} {wire : VenueOrderId}

/-- The frames a journal admitted of every client follow each other. -/
def Ordered (s : Feed) : Prop := ∀ cid, (s.admitted cid).Pairwise Follows

/-- The wire's latest frame is the last admitted one of its client, and there is one where any was
admitted. -/
structure Remembers (ledger : LedgerId) (wire : VenueOrderId) (s : Feed) : Prop where
  last : ∀ e, (s.registry.ensure ledger wire).latestUserOrder = some e →
    (s.admitted e.clientOrderId).getLast? = some e
  first : (s.registry.ensure ledger wire).latestUserOrder = none → ∀ cid, s.admitted cid = []

/-- An admissible frame that finds another client's frame behind it does not go back behind the last
one of its own client. -/
def InTurn (ledger : LedgerId) (wire : VenueOrderId) (s : Feed) : FeedAction → Prop
  | .frame e =>
      let ws := s.registry.ensure ledger wire
      Admissible ledger wire ws e →
        ∀ latest, ws.latestUserOrder = some latest → latest.clientOrderId ≠ e.clientOrderId →
          ∀ prev, (s.admitted e.clientOrderId).getLast? = some prev → staleFrame e prev = false
  | _ => True

/-- The record admits no frame and leaves the latest one of every wire. -/
def Quiet : Record → Prop
  | .amendLineage .. | .orderTxn _ => True
  | _ => False

theorem append_quiet (ledger : LedgerId) (wire : VenueOrderId) {s : Feed} {rec : Record}
    (h : Quiet rec) :
    (∀ cid, (s.append rec).2.admitted cid = s.admitted cid) ∧
      ((s.append rec).2.registry.ensure ledger wire).latestUserOrder =
        (s.registry.ensure ledger wire).latestUserOrder := by
  simp only [append]
  cases hf : s.registry.fold s.journal.length rec with
  | error err => exact ⟨fun _ => rfl, rfl⟩
  | ok registry =>
      cases rec with
      | amendLineage l w lineage =>
          refine ⟨fun cid => by simp [admitted], ?_⟩
          simp only [WireRegistry.ensure_fold hf, WireState.fold]
          split <;> rfl
      | orderTxn o =>
          refine ⟨fun cid => by simp [admitted], ?_⟩
          simp only [WireRegistry.ensure_fold hf, WireState.fold]
          split
          · exact (WireState.foldOrder_sameEvidence _ _ o ledger wire).latestUserOrder
          · rfl
      | _ => exact h.elim

theorem append_frame (s : Feed) (e : UserOrderEvidence) :
    (∀ cid, (s.append (.userOrderReceived ledger wire e)).2.admitted cid =
        if e.clientOrderId = cid then s.admitted cid ++ [e] else s.admitted cid) ∧
      ((s.append (.userOrderReceived ledger wire e)).2.registry.ensure ledger wire).latestUserOrder =
        some e := by
  refine ⟨fun cid => ?_, ?_⟩
  · simp only [append, WireRegistry.fold, admitted, List.filterMap_append, List.filterMap_cons,
      List.filterMap_nil]
    by_cases hc : e.clientOrderId = cid <;> simp [hc]
  · simp only [append, WireRegistry.fold, WireRegistry.ensure_set_self, WireState.receive]

theorem prepare_some {s : Feed} {a : FeedAction} {rec : Record}
    (h : s.prepare ledger wire a = .ok (some rec)) :
    ((∀ e, a ≠ .frame e) ∧ Quiet rec) ∨ ∃ e, a = .frame e ∧ rec = .userOrderReceived ledger wire e := by
  cases a with
  | frame e => exact .inr ⟨e, rfl, (WireRegistry.prepareUserOrderReceived_some.mp h).1⟩
  | amend lineage =>
      refine .inl ⟨by simp, ?_⟩
      obtain ⟨rec', hrec, heq⟩ := exceptMap_ok.mp h
      cases heq
      rw [(WireRegistry.prepareAmendLineage_ok hrec).1]
      trivial
  | lineage lineage => cases h; exact .inl ⟨by simp, trivial⟩
  | order o => cases h; exact .inl ⟨by simp, trivial⟩

/-- A step either leaves the frames and the latest one alone, or admits a frame, which is then the
latest. -/
theorem step_cases (ledger : LedgerId) (wire : VenueOrderId) (s : Feed) (a : FeedAction) :
    ((∀ cid, (s.step ledger wire a).2.admitted cid = s.admitted cid) ∧
        ((s.step ledger wire a).2.registry.ensure ledger wire).latestUserOrder =
          (s.registry.ensure ledger wire).latestUserOrder ∧
        ∀ e, a = .frame e → Admissible ledger wire (s.registry.ensure ledger wire) e →
          (s.registry.ensure ledger wire).checkFrame e ≠ .ok true) ∨
      ∃ e, a = .frame e ∧ Admissible ledger wire (s.registry.ensure ledger wire) e ∧
        (s.registry.ensure ledger wire).checkFrame e = .ok true ∧
        (∀ cid, (s.step ledger wire a).2.admitted cid =
          if e.clientOrderId = cid then s.admitted cid ++ [e] else s.admitted cid) ∧
        ((s.step ledger wire a).2.registry.ensure ledger wire).latestUserOrder = some e := by
  have hnot : ∀ {e : UserOrderEvidence}, (∀ rec, s.prepare ledger wire a ≠ .ok (some rec)) →
      a = .frame e → Admissible ledger wire (s.registry.ensure ledger wire) e →
        (s.registry.ensure ledger wire).checkFrame e ≠ .ok true := by
    rintro e hn rfl hadm hc
    exact hn _ (WireRegistry.prepareUserOrderReceived_some.mpr ⟨rfl, hadm, hc⟩)
  simp only [step]
  cases hp : s.prepare ledger wire a with
  | error err => exact .inl ⟨fun _ => rfl, rfl, fun e => hnot (by simp [hp])⟩
  | ok rec? =>
      cases rec? with
      | none => exact .inl ⟨fun _ => rfl, rfl, fun e => hnot (by simp [hp])⟩
      | some rec =>
          rcases prepare_some hp with ⟨hframe, hq⟩ | ⟨e, rfl, rfl⟩
          · obtain ⟨hadmitted, hlatest⟩ := append_quiet ledger wire hq
            exact .inl ⟨hadmitted, hlatest, fun e he => absurd he (hframe e)⟩
          · obtain ⟨-, hadm, hcheck⟩ := WireRegistry.prepareUserOrderReceived_some.mp hp
            exact .inr ⟨e, rfl, hadm, hcheck, append_frame s e⟩

theorem step_remembers {s : Feed} (h : Remembers ledger wire s) (a : FeedAction) :
    Remembers ledger wire (s.step ledger wire a).2 := by
  rcases s.step_cases ledger wire a with
    ⟨hadmitted, hlatest, -⟩ | ⟨e, -, -, -, hadmitted, hlatest⟩
  · constructor
    · intro e he
      rw [hadmitted]
      exact h.last e (hlatest ▸ he)
    · intro he cid
      rw [hadmitted]
      exact h.first (hlatest ▸ he) cid
  · constructor
    · intro e' he'
      rw [hlatest] at he'
      cases he'
      simp [hadmitted]
    · intro he
      rw [hlatest] at he
      cases he

/-- A step keeps the frames of every client in order exactly when it is in turn. -/
theorem step_ordered_iff {s : Feed} (hr : Remembers ledger wire s) (ho : Ordered s) (a : FeedAction) :
    Ordered (s.step ledger wire a).2 ↔ InTurn ledger wire s a := by
  rcases s.step_cases ledger wire a with
    ⟨hadmitted, -, hrefused⟩ | ⟨e, rfl, hadm, hcheck, hadmitted, -⟩
  · refine iff_of_true (fun cid => by rw [hadmitted]; exact ho cid) ?_
    cases a with
    | frame e =>
        intro hadm latest hl hc
        refine absurd ((checkFrame_ok_true hadm.belongs).mpr fun prev hp hsame => ?_)
          (hrefused e rfl hadm)
        rw [hl] at hp
        cases hp
        exact absurd hsame hc
    | _ => trivial
  · have hall : Ordered (s.step ledger wire (.frame e)).2 ↔
        ∀ prev, (s.admitted e.clientOrderId).getLast? = some prev → Follows prev e := by
      rw [← pairwise_follows_concat (ho _)]
      constructor
      · intro h
        have := h e.clientOrderId
        rwa [hadmitted, if_pos rfl] at this
      · intro h cid
        rw [hadmitted]
        split
        · rename_i hc
          exact hc ▸ h
        · exact ho cid
    rw [hall]
    constructor
    · intro h _ _ _ _ prev hp
      exact staleFrame_eq_false.mpr (h prev hp)
    · intro h prev hp
      cases hl : (s.registry.ensure ledger wire).latestUserOrder with
      | none => simp [hr.first hl] at hp
      | some latest =>
          by_cases hc : latest.clientOrderId = e.clientOrderId
          · have hlast := hr.last latest hl
            rw [hc, hp] at hlast
            cases hlast
            exact staleFrame_eq_false.mp ((checkFrame_ok_true hadm.belongs).mp hcheck _ hl hc).1
          · exact staleFrame_eq_false.mp (h hadm latest hl hc prev hp)

theorem new_remembers : Remembers ledger wire new :=
  ⟨fun _ h => (nomatch h), fun _ _ => rfl⟩

/-- Frames are only added, so an order at the end is an order all along. -/
theorem step_admitted (s : Feed) (a : FeedAction) (cid : ClientOrderId) :
    s.admitted cid <+: (s.step ledger wire a).2.admitted cid := by
  rcases s.step_cases ledger wire a with ⟨hadmitted, -⟩ | ⟨e, -, -, -, hadmitted, -⟩
  · exact (hadmitted cid).symm ▸ List.prefix_rfl
  · rw [hadmitted]
    split
    · exact List.prefix_append _ _
    · exact List.prefix_rfl

end Feed

/-! ## Runs -/

/-- In every run of frames, lineages and bindings on one wire, the admitted frames of every client
follow each other exactly when every frame came in turn. -/
theorem frames_ordered_iff (ledger : LedgerId) (wire : VenueOrderId) (as : List FeedAction) :
    ((feed ledger wire).final .new as).Ordered ↔
      (feed ledger wire).Always (Feed.InTurn ledger wire) .new as := by
  have hrun := (feed ledger wire).kept_iff_always (I := Feed.Ordered)
    (J := Feed.Remembers ledger wire) (C := Feed.InTurn ledger wire)
    (fun s a h => Feed.step_remembers h a) (fun s a hr ho => Feed.step_ordered_iff hr ho a)
    Feed.new_remembers (fun _ => List.Pairwise.nil) as
  rw [← hrun]
  constructor
  · rintro h pre ⟨rest, rfl⟩ cid
    rw [Machine.final_append] at h
    refine (h cid).sublist ?_
    exact ((feed ledger wire).relates (R := fun s t => s.admitted cid <+: t.admitted cid)
      (fun _ => List.prefix_rfl) (fun h h' => h.trans h')
      (fun s a => Feed.step_admitted s a cid) _ rest).sublist
  · exact fun h => h as List.prefix_rfl

/-! ## Two clients that alternate -/

/-- The answer to a submission, which binds the order to the wire `w`. -/
def boundOrder (cid : ClientOrderId) : OrderTxnRecord where
  ledger := ⟨⟨"s"⟩, "m"⟩
  clientOrderId := cid
  seq := 1
  event := "SubmitResponse"
  outcome := .accept
  coreRecords := [.submitResponse ⟨"w"⟩ 0 10 none none none, .venueBoundCid cid ⟨"w"⟩]
  stateAfter := .accepted ⟨"w"⟩
  ctxAfter :=
    { OrderCtx.new cid "m" "t" .buyYes 50 10 with
      venueOrderId := some ⟨"w"⟩
      lastVenueRemainingQty := some 10 }

/-- A resting frame of ten on the wire `w`. -/
def restingFrame (cid : ClientOrderId) (filled updatedTsMs : Nat) : UserOrderEvidence where
  wire := ⟨"w"⟩
  market := "m"
  exchangeIndex := 0
  subaccountNumber := 0
  sid := 1
  side := .buyYes
  yesPriceE4 := 5000
  clientOrderId := cid
  status := .resting
  filled := filled
  remaining := 10 - filled
  initial := 10
  updatedTsMs := updatedTsMs
  connectionGeneration := 1
  payloadDigest := ""

/-- An amend is in flight; between two frames of the old client comes one of the new. -/
def amendedFrames : List FeedAction :=
  [.order (boundOrder ⟨"old"⟩), .frame (restingFrame ⟨"old"⟩ 1 2),
    .amend ⟨⟨"old"⟩, ⟨"new"⟩, 0, .httpPending, 10, none⟩, .frame (restingFrame ⟨"new"⟩ 0 3),
    .frame (restingFrame ⟨"old"⟩ 0 1)]

/-- The older frame of the old client is admitted: its clock and its filled quantity go back. -/
theorem frames_alternating_go_back :
    ¬ ((feed ⟨⟨"s"⟩, "m"⟩ ⟨"w"⟩).final .new amendedFrames).Ordered := by
  intro h
  have hback : Follows (restingFrame ⟨"old"⟩ 1 2) (restingFrame ⟨"old"⟩ 0 1) := by
    have := h ⟨"old"⟩
    rw [show ((feed ⟨⟨"s"⟩, "m"⟩ ⟨"w"⟩).final .new amendedFrames).admitted ⟨"old"⟩ =
      [restingFrame ⟨"old"⟩ 1 2, restingFrame ⟨"old"⟩ 0 1] by decide] at this
    simpa using this
  exact absurd hback.filled (by decide)

end Omsrs.Observation
