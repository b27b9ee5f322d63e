import Omsrs.Observation.Lemmas.Held
import Omsrs.Observation.Lemmas.Members

/-!
# A wire whose remaining quantity is known

What was proved of a wire is known as long as nothing is folded that touches it. Own actions, new
executions, holds and rounds take the knowledge away. So does a new member, behind the first generation.
-/

namespace Omsrs.Observation
open Omsrs.Lib Omsrs.Lifecycle Omsrs.Execution

/-! ## Records that leave a wire alone -/

/-- A core record of the wire's ledger is no own action of a member, and binds no new one. -/
def calmCore (w : VenueOrderId) (ws : WireState) : JournalRecord → Bool
  | .ownActionCid cid _ => !ws.hasMember cid
  | .venueBoundCid cid wire => decide (wire ≠ w) || ws.hasMember cid
  | _ => true

def calmOrder (l : LedgerId) (w : VenueOrderId) (ws : WireState) (o : OrderTxnRecord) : Bool :=
  decide (o.ledger ≠ l) || o.coreRecords.all (calmCore w ws)

/-- An outcome writes no entry of the wire that is not held. -/
def calmWrite (w : VenueOrderId) (ws : WireState) (o : ExecutionOutcome) : Bool :=
  match o.write with
  | some (id, entry) => decide (entry.venueOrderId ≠ some w) || ws.held.contains id
  | none => true

/-- The record is no round, proof or hold of the wire, no own action of a member of it, and brings it no
new member and no new execution. -/
def calm (l : LedgerId) (w : VenueOrderId) (ws : WireState) : Record → Bool
  | .orderTxn o => calmOrder l w ws o
  | .executionTxn e =>
      e.order.all (calmOrder l w ws) && (decide (e.ledger ≠ l) || e.executions.all (calmWrite w ws))
  | .observationTxn t => decide (¬ (t.ledger = l ∧ t.wire = w))
  | .orderStateTxn t => decide (¬ (t.ledger = l ∧ t.wire = w))
  | .restOrderProofTxn t => decide (¬ (t.ledger = l ∧ t.wire = w))
  | .orderAuthorityHold l' w' => decide (¬ (l' = l ∧ w' = w))
  | .core _ | .amendLineage .. | .userOrderReceived .. | .userOrderQuarantined .. | .userOrderStaged .. =>
      true

/-- The remaining and the filled quantity that a record reports, where it proves what remains of the
wire. -/
def proofOf (l : LedgerId) (w : VenueOrderId) : Record → Option (Nat × Nat)
  | .observationTxn t =>
      if t.ledger = l ∧ t.wire = w ∧ t.outcome = .consistent true then
        some (t.row.remaining, t.row.filled)
      else none
  | .orderStateTxn t =>
      if t.ledger = l ∧ t.wire = w then some (t.evidence.remaining, t.evidence.filled) else none
  | .restOrderProofTxn t =>
      if t.ledger = l ∧ t.wire = w then some (t.remaining, t.filled) else none
  | _ => none

/-! ## Known and grounded -/

/-- The remaining quantity of the wire is known to be `r`. -/
structure Known (ws : WireState) (r : Nat) : Prop where
  free : ws.authorityHold = false
  last : ws.last = some (.consistent true)
  obs : ws.remainingObservation = some ⟨r, ws.held, ws.generation⟩
  current : ws.generation = 0 ∨ ws.provedCurrentCid = ws.currentCid

/-- What was proved of a wire covers executions it holds and is, behind the first generation, about one of
its members. -/
structure Grounded (ws : WireState) : Prop where
  covered : ∀ obs, ws.remainingObservation = some obs →
    ∀ id, obs.covered.contains id = true → ws.held.contains id = true
  proved : ∀ obs, ws.remainingObservation = some obs → 0 < obs.generation →
    ∃ z, ws.provedCurrentCid = some z ∧ ws.hasMember z = true

variable {ws ws' : WireState} {pos n r : Nat} {o : OrderTxnRecord} {l : LedgerId} {w : VenueOrderId}
  {c z : ClientOrderId} {rec : JournalRecord}

theorem wireView_known : WireRegistry.wireView ws = .known r ↔ Known ws r := by
  constructor
  · intro h
    simp only [WireRegistry.wireView] at h
    split at h
    · cases h
    · rename_i hfree
      split at h
      · rename_i obs hobs hlast
        split at h
        · rename_i hc
          cases h
          refine ⟨by simpa using hfree, hlast, ?_, hc.2.2⟩
          rw [hobs, ← hc.1, ← hc.2.1]
        · cases h
      · cases h
  · intro h
    simp [WireRegistry.wireView, h.free, h.last, h.obs, h.current]

theorem workingView_known {reg : WireRegistry} :
    reg.workingView l w = .known r ↔ Known (reg.ensure l w) r := by
  rw [← wireView_known]
  simp only [WireRegistry.workingView, WireRegistry.ensure]
  cases reg.get l w with
  | none => simp [WireRegistry.wireView, WireState.venueOnly]
  | some ws => rfl

theorem grounded_venueOnly : Grounded .venueOnly := ⟨nofun, nofun⟩

/-! ## Members -/

theorem mem_setRole {role : MemberRole} {ms : List Member} {m : Member}
    (h : m ∈ WireState.setRole role c ms) :
    m ∈ ms ∨ ∃ m₀ ∈ ms, m.cid = m₀.cid ∧ m.role = role := by
  induction ms with
  | nil => cases h
  | cons a ms ih =>
      simp only [WireState.setRole] at h
      split at h
      · rcases List.mem_cons.mp h with rfl | h
        · exact .inr ⟨a, List.mem_cons_self, rfl, rfl⟩
        · exact .inl (List.mem_cons_of_mem _ h)
      · rcases List.mem_cons.mp h with rfl | h
        · exact .inl List.mem_cons_self
        · rcases ih h with h | ⟨m₀, hm₀, h⟩
          · exact .inl (List.mem_cons_of_mem _ h)
          · exact .inr ⟨m₀, List.mem_cons_of_mem _ hm₀, h⟩

theorem setRole_cids (role : MemberRole) (c : ClientOrderId) (ms : List Member) :
    (WireState.setRole role c ms).map (·.cid) = ms.map (·.cid) := by
  induction ms with
  | nil => rfl
  | cons a ms ih =>
      simp only [WireState.setRole]
      split
      · rfl
      · rw [List.map_cons, ih, List.map_cons]

theorem hasMember_iff : ws.hasMember c = true ↔ c ∈ ws.members.map (·.cid) := by
  simp [WireState.hasMember]

theorem hasMember_terminalize (ws : WireState) (c z : ClientOrderId) :
    (ws.terminalize c).hasMember z = ws.hasMember z := by
  rw [Bool.eq_iff_iff, hasMember_iff, hasMember_iff, WireState.terminalize, setRole_cids]

theorem hasMember_bind (h : ws.hasMember z = true) (pos : Nat) (c : ClientOrderId) :
    (ws.bind pos c).hasMember z = true := by
  simp only [WireState.bind]
  split
  · exact h
  · rw [hasMember_iff] at h ⊢
    have hsame : ∀ m : Member,
        (if m.role ≠ .terminal then { m with role := .superseded } else m).cid = m.cid := fun m => by
      split <;> rfl
    simp only [List.map_append, List.map_map, Function.comp_def, hsame, List.mem_append]
    exact .inl h

/-- A member of the wire is current under this id. -/
def hasCurrent (ws : WireState) (z : ClientOrderId) : Prop :=
  ∃ m ∈ ws.members, m.cid = z ∧ m.role = .current

theorem hasCurrent_of_currentCid (h : ws.currentCid = some z) : hasCurrent ws z := by
  obtain ⟨m, hm, rfl⟩ := Option.map_eq_some_iff.mp h
  exact ⟨m, List.mem_of_find?_eq_some hm, rfl, by simpa using List.find?_some hm⟩

theorem currentCid_of_hasCurrent (hf : Formed n ws.members) (h : hasCurrent ws z) :
    ws.currentCid = some z := by
  obtain ⟨m, hm, rfl, hr⟩ := h
  cases hfind : ws.members.find? (·.role = .current) with
  | none => simpa [hr] using List.find?_eq_none.mp hfind m hm
  | some m' =>
      have hm' := List.mem_of_find?_eq_some hfind
      have hr' : m'.role = .current := by simpa using List.find?_some hfind
      by_cases heq : m' = m
      · rw [WireState.currentCid, WireState.current, hfind, heq]
        rfl
      · exact absurd hr' (hf.newest hm hr hm' heq).1

/-! ## The record of an order -/

/-- What was proved of the wire is the same. -/
structure SameProof (ws ws' : WireState) : Prop where
  generation : ws'.generation = ws.generation
  remainingObservation : ws'.remainingObservation = ws.remainingObservation
  provedCurrentCid : ws'.provedCurrentCid = ws.provedCurrentCid

namespace WireState

theorem core_authorityHold (ws : WireState) (pos : Nat) (o : OrderTxnRecord) (l : LedgerId)
    (w : VenueOrderId) (rec : JournalRecord) :
    (ws.core pos o l w rec).authorityHold = ws.authorityHold := by
  cases rec with
  | venueBoundCid cid wire =>
      simp only [core, bind]
      split
      · split <;> rfl
      · rfl
  | orderTerminal _ _ _ _ _ _ _ => simp only [core]; split <;> rfl
  | halted _ => simp only [core]; split <;> rfl
  | ownActionCid _ _ => simp only [core]; split <;> rfl
  | _ => rfl

theorem core_hasMember (h : ws.hasMember z = true) (pos : Nat) (o : OrderTxnRecord) (l : LedgerId)
    (w : VenueOrderId) (rec : JournalRecord) : (ws.core pos o l w rec).hasMember z = true := by
  cases rec with
  | venueBoundCid cid wire =>
      simp only [core]
      split
      · exact hasMember_bind h pos cid
      · exact h
  | orderTerminal _ _ _ _ _ _ _ =>
      simp only [core]
      split
      · rw [hasMember_terminalize]
        exact h
      · exact h
  | halted _ =>
      simp only [core]
      split
      · rw [hasMember_terminalize]
        exact h
      · exact h
  | ownActionCid _ _ => simp only [core]; split <;> exact h
  | _ => exact h

/-- A core record after which the wire has a proof is no own action of a member. -/
theorem core_sameProof (h : (ws.core pos o l w rec).remainingObservation.isSome = true) :
    SameProof ws (ws.core pos o l w rec) ∧
      ∀ cid ts, rec = .ownActionCid cid ts → l = o.ledger → ws.hasMember cid = false := by
  have hno : (∀ cid ts, rec ≠ .ownActionCid cid ts) →
      ∀ cid ts, rec = .ownActionCid cid ts → l = o.ledger → ws.hasMember cid = false :=
    fun hne cid ts he => absurd he (hne cid ts)
  cases rec with
  | venueBoundCid cid wire =>
      refine ⟨?_, hno (by simp)⟩
      simp only [core, bind]
      split
      · split <;> exact ⟨rfl, rfl, rfl⟩
      · exact ⟨rfl, rfl, rfl⟩
  | orderTerminal _ _ _ _ _ _ _ =>
      refine ⟨?_, hno (by simp)⟩
      simp only [core]
      split <;> exact ⟨rfl, rfl, rfl⟩
  | halted _ =>
      refine ⟨?_, hno (by simp)⟩
      simp only [core]
      split <;> exact ⟨rfl, rfl, rfl⟩
  | ownActionCid cid ts =>
      simp only [core] at h ⊢
      split at h
      · cases h
      · rename_i hc
        rw [if_neg hc]
        refine ⟨⟨rfl, rfl, rfl⟩, fun cid' ts' he hl => ?_⟩
        cases he
        simpa [hl] using hc
  | _ => exact ⟨⟨rfl, rfl, rfl⟩, hno (by simp)⟩

/-- A core record after which a member from before is current binds no new one. -/
theorem core_current (h : hasCurrent (ws.core pos o l w rec) z) (hz : ws.hasMember z = true) :
    hasCurrent ws z ∧
      ∀ cid, rec = .venueBoundCid cid w → l = o.ledger → ws.hasMember cid = true := by
  have hended : ∀ c, hasCurrent (ws.terminalize c) z → hasCurrent ws z := by
    rintro c ⟨m, hm, hc, hr⟩
    rcases mem_setRole hm with hm | ⟨_, _, _, hr'⟩
    · exact ⟨m, hm, hc, hr⟩
    · rw [hr] at hr'
      cases hr'
  cases rec with
  | venueBoundCid cid wire =>
      simp only [core] at h
      split at h
      · rename_i hw
        simp only [bind] at h
        split at h
        · rename_i hmem
          exact ⟨h, fun cid' he _ => by cases he; exact hmem⟩
        · rename_i hnew
          obtain ⟨m, hm, hc, hr⟩ := h
          rcases List.mem_append.mp hm with hm | hm
          · obtain ⟨m₀, -, rfl⟩ := List.mem_map.mp hm
            split at hr
            · cases hr
            · rename_i hterm
              rw [not_not.mp hterm] at hr
              cases hr
          · obtain rfl := List.mem_singleton.mp hm
            dsimp only at hc
            exact absurd (hc ▸ hz) hnew
      · rename_i hw
        exact ⟨h, fun cid' he hl => by cases he; exact absurd ⟨hl, rfl⟩ hw⟩
  | orderTerminal _ _ _ _ _ _ _ =>
      simp only [core] at h
      refine ⟨?_, by simp⟩
      split at h
      · exact hended _ h
      · exact h
  | halted _ =>
      simp only [core] at h
      refine ⟨?_, by simp⟩
      split at h
      · exact hended _ h
      · exact h
  | ownActionCid _ _ =>
      simp only [core] at h
      refine ⟨?_, by simp⟩
      split at h <;> exact h
  | _ => exact ⟨h, by simp⟩

/-- A core record that binds no new member leaves the ids of the members. -/
theorem core_hasMember_eq
    (h : ∀ cid, rec = .venueBoundCid cid w → l = o.ledger → ws.hasMember cid = true) (c : ClientOrderId) :
    (ws.core pos o l w rec).hasMember c = ws.hasMember c := by
  cases rec with
  | venueBoundCid cid wire =>
      simp only [core]
      split
      · rename_i hw
        rw [bind, if_pos (h cid (by rw [hw.2]) hw.1)]
      · rfl
  | orderTerminal _ _ _ _ _ _ _ =>
      simp only [core]
      split
      · exact hasMember_terminalize _ _ _
      · rfl
  | halted _ =>
      simp only [core]
      split
      · exact hasMember_terminalize _ _ _
      · rfl
  | ownActionCid _ _ => simp only [core]; split <;> rfl
  | _ => rfl

theorem cores_authorityHold (ws : WireState) (pos : Nat) (o : OrderTxnRecord) (l : LedgerId)
    (w : VenueOrderId) (recs : List JournalRecord) :
    (recs.foldl (core pos o l w) ws).authorityHold = ws.authorityHold := by
  induction recs generalizing ws with
  | nil => rfl
  | cons rec recs ih => rw [List.foldl_cons, ih, core_authorityHold]

/-- Core records after which the wire has a proof are no own actions of its members. -/
theorem cores_sameProof {recs : List JournalRecord} {ws : WireState}
    (h : (recs.foldl (core pos o l w) ws).remainingObservation.isSome = true) :
    SameProof ws (recs.foldl (core pos o l w) ws) ∧
      ∀ cid ts, .ownActionCid cid ts ∈ recs → l = o.ledger → ws.hasMember cid = false := by
  induction recs generalizing ws with
  | nil => exact ⟨⟨rfl, rfl, rfl⟩, nofun⟩
  | cons rec recs ih =>
      rw [List.foldl_cons] at h ⊢
      obtain ⟨hs, hown⟩ := ih h
      obtain ⟨hs', hown'⟩ := core_sameProof (by rw [← hs.remainingObservation]; exact h)
      refine ⟨⟨hs.generation.trans hs'.generation,
        hs.remainingObservation.trans hs'.remainingObservation,
        hs.provedCurrentCid.trans hs'.provedCurrentCid⟩, fun cid ts hm hl => ?_⟩
      rcases List.mem_cons.mp hm with he | hm
      · exact hown' cid ts he.symm hl
      · -- who is no member later was none before
        have hlater := hown cid ts hm hl
        by_contra hno
        rw [core_hasMember (by simpa using hno)] at hlater
        cases hlater

/-- Core records after which a member from before is current bind no new one. -/
theorem cores_current {recs : List JournalRecord} {ws : WireState}
    (h : hasCurrent (recs.foldl (core pos o l w) ws) z) (hz : ws.hasMember z = true) :
    hasCurrent ws z ∧ ∀ cid, .venueBoundCid cid w ∈ recs → l = o.ledger → ws.hasMember cid = true := by
  induction recs generalizing ws with
  | nil => exact ⟨h, nofun⟩
  | cons rec recs ih =>
      rw [List.foldl_cons] at h
      obtain ⟨hc, hbinds⟩ := ih h (core_hasMember hz pos o l w rec)
      obtain ⟨hc', hbinds'⟩ := core_current hc hz
      refine ⟨hc', fun cid hm hl => ?_⟩
      rcases List.mem_cons.mp hm with he | hm
      · exact hbinds' cid he.symm hl
      · rw [← core_hasMember_eq hbinds']
        exact hbinds cid hm hl

end WireState

theorem dischargeEnd_current (h : hasCurrent ws z) : WireRegistry.dischargeEnd o ws = ws := by
  obtain ⟨m, hm, -, hr⟩ := h
  rw [WireRegistry.dischargeEnd, if_neg]
  simp only [Bool.and_eq_true, List.all_eq_true, decide_eq_true_eq, not_and]
  exact fun _ hall => hall m hm hr

theorem calmOrder_of (h : l = o.ledger →
    (∀ cid ts, .ownActionCid cid ts ∈ o.coreRecords → ws.hasMember cid = false) ∧
      ∀ cid, .venueBoundCid cid w ∈ o.coreRecords → ws.hasMember cid = true) :
    calmOrder l w ws o = true := by
  simp only [calmOrder, Bool.or_eq_true, decide_eq_true_eq, List.all_eq_true]
  by_cases hl : l = o.ledger
  · obtain ⟨hown, hbinds⟩ := h hl
    refine .inr fun rec hm => ?_
    cases rec with
    | ownActionCid cid ts => simp [calmCore, hown cid ts hm]
    | venueBoundCid cid wire =>
        by_cases hw : wire = w
        · subst hw
          simp [calmCore, hbinds cid hm]
        · simp [calmCore, hw]
    | _ => rfl
  · exact .inl (Ne.symm hl)

/-- Behind the first generation a known quantity is that of a member. -/
theorem Known.member (h : Known ws r) (hg : Grounded ws) (hgen : 0 < ws.generation) :
    ∃ z, ws.provedCurrentCid = some z ∧ ws.currentCid = some z ∧ ws.hasMember z = true := by
  obtain ⟨z, hz, hm⟩ := hg.proved _ h.obs hgen
  refine ⟨z, hz, ?_, hm⟩
  rcases h.current with h0 | hc
  · omega
  · rw [← hc, hz]

theorem Grounded.keep (h : Grounded ws) (hs : SameProof ws ws')
    (hheld : ∀ id, ws.held.contains id = true → ws'.held.contains id = true)
    (hm : ∀ z, ws.hasMember z = true → ws'.hasMember z = true) : Grounded ws' := by
  refine ⟨fun obs hobs id hid => ?_, fun obs hobs hgen => ?_⟩
  · rw [hs.remainingObservation] at hobs
    exact hheld id (h.covered obs hobs id hid)
  · rw [hs.remainingObservation] at hobs
    obtain ⟨z, hz, hmem⟩ := h.proved obs hobs hgen
    exact ⟨z, hs.provedCurrentCid.trans hz, hm z hmem⟩

theorem Grounded.cores (h : Grounded ws) (pos : Nat) (o : OrderTxnRecord) (l : LedgerId)
    (w : VenueOrderId) (recs : List JournalRecord) :
    Grounded (recs.foldl (WireState.core pos o l w) ws) := by
  cases hobs : (recs.foldl (WireState.core pos o l w) ws).remainingObservation with
  | none => exact ⟨fun obs he => by simp [hobs] at he, fun obs he => by simp [hobs] at he⟩
  | some obs =>
      refine h.keep (WireState.cores_sameProof (by simp [hobs])).1 (fun id hid => ?_) fun z hz => ?_
      · rw [(ws.cores_sameEvidence pos o l w recs).held]
        exact hid
      · clear hobs h
        induction recs generalizing ws with
        | nil => exact hz
        | cons rec recs ih => exact ih (WireState.core_hasMember hz pos o l w rec)

theorem dischargeEnd_sameProof (o : OrderTxnRecord) (ws : WireState) :
    SameProof ws (WireRegistry.dischargeEnd o ws) := by
  simp only [WireRegistry.dischargeEnd]
  split <;> exact ⟨rfl, rfl, rfl⟩

theorem dischargeEnd_members (o : OrderTxnRecord) (ws : WireState) :
    (WireRegistry.dischargeEnd o ws).members = ws.members := by
  simp only [WireRegistry.dischargeEnd]
  split <;> rfl

/-- The end of an order leaves no known quantity that its core records did not leave. -/
theorem foldOrder_known_cores (hg : Grounded ws) (h : Known (ws.foldOrder pos o l w) r) :
    Known (o.coreRecords.foldl (WireState.core pos o l w) ws) r := by
  have hg₁ := hg.cores pos o l w o.coreRecords
  have hproof : (o.coreRecords.foldl (WireState.core pos o l w) ws).remainingObservation.isSome = true →
      SameProof ws (o.coreRecords.foldl (WireState.core pos o l w) ws) :=
    fun hobs => (WireState.cores_sameProof hobs).1
  simp only [WireState.foldOrder] at h
  generalize o.coreRecords.foldl (WireState.core pos o l w) ws = ws₁ at h hg₁ hproof ⊢
  split at h
  · rename_i hend
    have hs := dischargeEnd_sameProof o ws₁
    have hobs : ws₁.remainingObservation.isSome = true := by
      rw [← hs.remainingObservation, h.obs]
      rfl
    have hgen : 0 < ws₁.generation := by
      have hprove := hend.2.2
      simp only [WireRegistry.provesEnd, Bool.and_eq_true, decide_eq_true_eq] at hprove
      rw [(hproof hobs).generation]
      exact hprove.1.1.1.1.1.2
    have hg₂ : Grounded (WireRegistry.dischargeEnd o ws₁) := by
      refine hg₁.keep hs (fun id hid => ?_) fun z hz => ?_
      · rw [(WireState.dischargeEnd_sameEvidence o ws₁).held]
        exact hid
      · rw [hasMember_iff, dischargeEnd_members, ← hasMember_iff]
        exact hz
    obtain ⟨z, -, hcur, -⟩ := h.member hg₂ (by rw [hs.generation]; exact hgen)
    have hc : hasCurrent ws₁ z := by
      rw [WireState.currentCid, WireState.current, dischargeEnd_members] at hcur
      exact hasCurrent_of_currentCid hcur
    rwa [dischargeEnd_current hc] at h
  · exact h

/-- The record of an order leaves a remaining quantity known only where it was known before; the record
leaves the wire alone then, or binds a new member to a wire of the first generation. -/
theorem foldOrder_known (hg : Grounded ws) (hf : Formed n ws.members)
    (hx : Known ws r → ws.generation = 0 → l = o.ledger →
      ∀ cid, .venueBoundCid cid w ∈ o.coreRecords → ws.hasMember cid = true)
    (h : Known (ws.foldOrder pos o l w) r) : Known ws r ∧ calmOrder l w ws o = true := by
  have hk := foldOrder_known_cores hg h
  obtain ⟨hs, hown⟩ := WireState.cores_sameProof (by rw [hk.obs]; rfl)
  have he := ws.cores_sameEvidence pos o l w o.coreRecords
  have hfree : ws.authorityHold = false := by
    rw [← ws.cores_authorityHold pos o l w o.coreRecords]
    exact hk.free
  have hlast : ws.last = some (.consistent true) := by rw [← he.last, hk.last]
  have hobs : ws.remainingObservation = some ⟨r, ws.held, ws.generation⟩ := by
    rw [← hs.remainingObservation, hk.obs, hs.generation, he.held]
  rcases Nat.eq_zero_or_pos ws.generation with h0 | hgen
  · have hknown : Known ws r := ⟨hfree, hlast, hobs, .inl h0⟩
    exact ⟨hknown, calmOrder_of fun hl => ⟨fun cid ts hm => hown cid ts hm hl, hx hknown h0 hl⟩⟩
  · obtain ⟨z, hz, hmem⟩ := hg.proved _ hobs hgen
    have hcur : hasCurrent (o.coreRecords.foldl (WireState.core pos o l w) ws) z := by
      rcases hk.current with h0 | hc
      · rw [hs.generation] at h0
        omega
      · refine hasCurrent_of_currentCid ?_
        rw [← hc, hs.provedCurrentCid, hz]
    obtain ⟨hcur', hbinds⟩ := WireState.cores_current hcur hmem
    refine ⟨⟨hfree, hlast, hobs, .inr ?_⟩, calmOrder_of fun hl =>
      ⟨fun cid ts hm => hown cid ts hm hl, fun cid hm => hbinds cid hm hl⟩⟩
    rw [hz, currentCid_of_hasCurrent hf hcur']

theorem Grounded.foldOrder (h : Grounded ws) (pos : Nat) (o : OrderTxnRecord) (l : LedgerId)
    (w : VenueOrderId) : Grounded (ws.foldOrder pos o l w) := by
  have hc := h.cores pos o l w o.coreRecords
  simp only [WireState.foldOrder]
  split
  · refine hc.keep (dischargeEnd_sameProof o _) (fun id hid => ?_) fun z hz => ?_
    · rw [(WireState.dischargeEnd_sameEvidence o _).held]
      exact hid
    · rw [hasMember_iff, dischargeEnd_members, ← hasMember_iff]
      exact hz
  · exact hc

/-! ## Executions -/

theorem fillSet_ext {a b : FillSet} (h : ∀ id, a.contains id = true ↔ b.contains id = true) : a = b := by
  apply OrdMap.ext_get?
  intro id
  have hid := h id
  simp only [OrdMap.contains] at hid
  cases ha : a.get? id with
  | none =>
      cases hb : b.get? id with
      | none => rfl
      | some u => simp [ha, hb] at hid
  | some u =>
      cases hb : b.get? id with
      | none => simp [ha, hb] at hid
      | some v => rfl

/-- What a wire comes to hold apart, executions leave it as it was. -/
structure SameBut (ws ws' : WireState) : Prop extends SameProof ws ws' where
  members : ws'.members = ws.members
  last : ws'.last = ws.last
  authorityHold : ws'.authorityHold = ws.authorityHold

theorem foldExecutions_sameBut (os : List ExecutionOutcome) (ledger l : LedgerId) (w : VenueOrderId)
    (ws : WireState) : SameBut ws (os.foldl (WireState.foldExecution ledger l w) ws) := by
  have hhold : ∀ (ws : WireState) id entry, SameBut ws (ws.hold id entry) := by
    intro ws id entry
    simp only [WireState.hold]
    split
    · split <;> exact ⟨⟨rfl, rfl, rfl⟩, rfl, rfl, rfl⟩
    · exact ⟨⟨rfl, rfl, rfl⟩, rfl, rfl, rfl⟩
  induction os generalizing ws with
  | nil => exact ⟨⟨rfl, rfl, rfl⟩, rfl, rfl, rfl⟩
  | cons o os ih =>
      have hone : SameBut ws (WireState.foldExecution ledger l w ws o) := by
        simp only [WireState.foldExecution]
        split
        · split
          · exact hhold _ _ _
          · exact ⟨⟨rfl, rfl, rfl⟩, rfl, rfl, rfl⟩
        · exact ⟨⟨rfl, rfl, rfl⟩, rfl, rfl, rfl⟩
      have hrest := ih (WireState.foldExecution ledger l w ws o)
      rw [List.foldl_cons]
      exact ⟨⟨hrest.generation.trans hone.generation,
        hrest.remainingObservation.trans hone.remainingObservation,
        hrest.provedCurrentCid.trans hone.provedCurrentCid⟩, hrest.members.trans hone.members,
        hrest.last.trans hone.last, hrest.authorityHold.trans hone.authorityHold⟩

/-- Executions leave a remaining quantity known only where it was known and none of them is new. -/
theorem foldExecutions_known {os : List ExecutionOutcome} {ledger : LedgerId} (hg : Grounded ws)
    (h : Known (os.foldl (WireState.foldExecution ledger l w) ws) r) :
    Known ws r ∧ (l = ledger → os.all (calmWrite w ws) = true) ∧
      (os.foldl (WireState.foldExecution ledger l w) ws).held = ws.held := by
  have hs := foldExecutions_sameBut os ledger l w ws
  have hheld := foldExecutions_held os ledger l w ws
  generalize os.foldl (WireState.foldExecution ledger l w) ws = ws' at h hs hheld
  have hobs : ws.remainingObservation = some ⟨r, ws'.held, ws'.generation⟩ := by
    rw [← hs.remainingObservation, h.obs]
  have hback : ∀ id, ws'.held.contains id = true → ws.held.contains id = true := hg.covered _ hobs
  have hsame : ws'.held = ws.held :=
    fillSet_ext fun id => ⟨hback id, fun hid => (hheld id).mpr (.inl hid)⟩
  refine ⟨⟨hs.authorityHold ▸ h.free, hs.last ▸ h.last, ?_, ?_⟩, fun hl => ?_, hsame⟩
  · rw [hobs, hsame, hs.generation]
  · have hc := h.current
    rwa [hs.generation, hs.provedCurrentCid, WireState.currentCid, WireState.current, hs.members] at hc
  · rw [List.all_eq_true]
    intro o ho
    simp only [calmWrite]
    split
    · rename_i id entry hw
      by_cases hv : entry.venueOrderId = some w
      · have hid := hback id ((hheld id).mpr (.inr ⟨hl, entry, List.mem_filterMap.mpr ⟨o, ho, hw⟩, hv⟩))
        simp [hid]
      · simp [hv]
    · rfl

theorem Grounded.foldExecutions (h : Grounded ws) (os : List ExecutionOutcome) (ledger l : LedgerId)
    (w : VenueOrderId) : Grounded (os.foldl (WireState.foldExecution ledger l w) ws) := by
  have hs := foldExecutions_sameBut os ledger l w ws
  refine h.keep hs.toSameProof (fun id hid => ?_) fun z hz => ?_
  · exact (foldExecutions_held os ledger l w ws id).mpr (.inl hid)
  · rw [hasMember_iff, hs.members, ← hasMember_iff]
    exact hz

/-! ## Folding a record -/

/-- The orders that a record binds, with their wires. -/
def boundMembers (rec : Record) : List (LedgerId × VenueOrderId × ClientOrderId) :=
  match WireRegistry.orderPart rec with
  | some o => o.coreRecords.filterMap fun
      | .venueBoundCid cid wire => some (o.ledger, wire, cid)
      | _ => none
  | none => []

theorem mem_boundMembers {rec : Record} (ho : WireRegistry.orderPart rec = some o)
    (h : .venueBoundCid c w ∈ o.coreRecords) : (o.ledger, w, c) ∈ boundMembers rec := by
  simp only [boundMembers, ho, List.mem_filterMap]
  exact ⟨_, h, rfl⟩

/-- A record that is no proof of the wire leaves a remaining quantity known only where it was known before
and the record leaves the wire alone. -/
theorem fold_known {rec : Record} (hg : Grounded ws) (hf : Formed n ws.members)
    (hround : ∀ t, rec ≠ .observationTxn t) (hproof : proofOf l w rec = none)
    (hx : Known ws r → ws.generation = 0 → ∀ b ∈ boundMembers rec, b.1 = l → b.2.1 = w →
      ws.hasMember b.2.2 = true)
    (h : Known (ws.fold true pos l w rec) r) :
    Known ws r ∧ calm l w ws rec = true ∧ (ws.fold true pos l w rec).held = ws.held := by
  have horder : ∀ {o : OrderTxnRecord}, WireRegistry.orderPart rec = some o →
      Known (ws.foldOrder pos o l w) r → Known ws r ∧ calmOrder l w ws o = true := by
    intro o ho hk
    refine foldOrder_known hg hf (fun hws h0 hl cid hm => ?_) hk
    exact hx hws h0 _ (mem_boundMembers ho hm) hl.symm rfl
  cases rec with
  | orderTxn o =>
      obtain ⟨hk, hc⟩ := horder rfl h
      exact ⟨hk, hc, (ws.foldOrder_sameEvidence pos o l w).held⟩
  | executionTxn e =>
      obtain ⟨ledger, gen, outcomes, order⟩ := e
      simp only [WireState.fold, if_true] at h ⊢
      cases order with
      | none =>
          obtain ⟨hk, hall, hheld⟩ := foldExecutions_known hg h
          refine ⟨hk, ?_, hheld⟩
          by_cases hl : l = ledger
          · simp [calm, hall hl]
          · simp [calm, Ne.symm hl]
      | some o =>
          obtain ⟨hk₁, hall, hheld⟩ := foldExecutions_known (hg.foldOrder pos o l w) h
          obtain ⟨hk, hc⟩ := horder rfl hk₁
          have hh := (ws.foldOrder_sameEvidence pos o l w).held
          refine ⟨hk, ?_, hheld.trans hh⟩
          by_cases hl : l = ledger
          · have hsame : calmWrite w (ws.foldOrder pos o l w) = calmWrite w ws := by
              funext x
              simp only [calmWrite, hh]
            simp [calm, hc, ← hsame, hall hl]
          · simp [calm, hc, Ne.symm hl]
  | observationTxn t => exact absurd rfl (hround t)
  | amendLineage l' w' lineage =>
      simp only [WireState.fold] at h ⊢
      split at h
      · exact ⟨⟨h.free, h.last, h.obs, h.current⟩, rfl, by split <;> rfl⟩
      · exact ⟨h, rfl, by split <;> rfl⟩
  | userOrderReceived l' w' e =>
      simp only [WireState.fold] at h ⊢
      split at h
      · exact ⟨⟨h.free, h.last, h.obs, h.current⟩, rfl, by split <;> rfl⟩
      · exact ⟨h, rfl, by split <;> rfl⟩
  | orderAuthorityHold l' w' =>
      simp only [WireState.fold] at h ⊢
      split at h
      · exact absurd h.free (by simp [WireState.holdAuthority])
      · rename_i hw
        rw [if_neg hw]
        exact ⟨h, decide_eq_true fun hc => hw ⟨hc.1.symm, hc.2.symm⟩, rfl⟩
  | orderStateTxn t =>
      simp only [WireState.fold] at h ⊢
      by_cases hw : l = t.ledger ∧ w = t.wire
      · simp [proofOf, hw.1, hw.2] at hproof
      · rw [if_neg hw] at h ⊢
        exact ⟨h, decide_eq_true fun hc => hw ⟨hc.1.symm, hc.2.symm⟩, rfl⟩
  | restOrderProofTxn t =>
      simp only [WireState.fold] at h ⊢
      by_cases hw : l = t.ledger ∧ w = t.wire
      · simp [proofOf, hw.1, hw.2] at hproof
      · rw [if_neg hw] at h ⊢
        exact ⟨h, decide_eq_true fun hc => hw ⟨hc.1.symm, hc.2.symm⟩, rfl⟩
  | _ => exact ⟨h, rfl, rfl⟩

end Omsrs.Observation
