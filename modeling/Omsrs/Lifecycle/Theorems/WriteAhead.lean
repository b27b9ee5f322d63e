import Omsrs.Lib.WriteAhead
import Omsrs.Lifecycle.Lemmas.Replay

/-!
# The journal runs ahead of the account

What a run tells the account is written in its journal first. A reader who sees only the records, and
keeps the fees it has read, can tell every booking, correction and release that was asked for, in
order.
-/

namespace Omsrs.Lifecycle
open Omsrs.Lib

/-! ## Reading the journal -/

/-- What the account is told. -/
def Effect.command? : Effect → Option Effect
  | e@(.accountFill ..) | e@(.accountFeeCorrection ..) | e@.releaseReservation => some e
  | _ => none

/-- The fees of the fills read so far, by fill id. -/
abbrev ReadFees := OrdMap FillId (Option Nat)

/-- A fill of a new id is a booking; a fee that was missing is a correction, whether the fill's own
record brings it or the correction's. -/
def readCommands (fees : ReadFees) : JournalRecord → List Effect × ReadFees
  | .fill f | .fillCid _ f =>
      match fees.get? f.fillId, f.feeCents with
      | none, fee =>
          ([.accountFill f.fillId f.qty f.priceCents f.tsNs (fee.getD 0)], fees.insert f.fillId fee)
      | some none, some fee =>
          ([.accountFeeCorrection f.fillId fee], fees.insert f.fillId (some fee))
      | some _, _ => ([], fees)
  | .feeCorrection fillId delta =>
      match fees.get? fillId with
      | some none => ([.accountFeeCorrection fillId delta], fees.insert fillId (some delta))
      | _ => ([], fees)
  | .orderTerminal .. => ([.releaseReservation], fees)
  | _ => ([], fees)

def accountLog : WriteAhead Effect JournalRecord Effect ReadFees :=
  ⟨Effect.journalRecord?, Effect.command?, readCommands⟩

/-- The commands of a journal that starts with the order. -/
def accountCommands (records : List JournalRecord) : List Effect :=
  accountLog.commands .empty records

/-- What the effects tell the account. -/
def accountTold (fx : List Effect) : List Effect := fx.filterMap Effect.command?

variable {P : Scope} {c d : OrderCtx} {fx log due : List Effect} {fees : ReadFees}

/-! ## Effects that say nothing to the account -/

/-- The reader has read the fees of the applied fills. -/
def ReadsAs (fees : ReadFees) (c : OrderCtx) : Prop :=
  ∀ fid, fees.get? fid = (c.appliedFills.get? fid).map (·.fee)

/-- Neither a command nor a record that stands for one. -/
def Effect.Silent (e : Effect) (fees : ReadFees) : Prop :=
  e.command? = none ∧ ∀ r, e.journalRecord? = some r → readCommands fees r = ([], fees)

theorem owing_silent {e : Effect} (h : accountLog.Owing .empty log due fees) (he : e.Silent fees) :
    accountLog.Owing .empty (log ++ [e]) due fees := by
  cases hr : e.journalRecord? with
  | none => exact h.quiet hr he.1
  | some r => exact h.note hr he.1 (he.2 r hr)

theorem owing_silents (h : accountLog.Owing .empty log due fees) (hfx : ∀ e ∈ fx, e.Silent fees) :
    accountLog.Owing .empty (log ++ fx) due fees := by
  induction fx generalizing log with
  | nil => simpa using h
  | cons e fx ih =>
      have := ih (owing_silent h (hfx e (by simp))) fun e' he' => hfx e' (by simp [he'])
      simpa only [List.append_assoc, List.singleton_append] using this

/-- Records that name no fill, no fee and no end. -/
def JournalRecord.isPlain : JournalRecord → Bool
  | .fill _ | .fillCid .. | .feeCorrection .. | .orderTerminal .. => false
  | _ => true

theorem readCommands_plain {r : JournalRecord} (h : r.isPlain = true) :
    readCommands fees r = ([], fees) := by
  cases r <;> first | rfl | cases h

theorem silent_append {r : JournalRecord} (h : r.isPlain = true) :
    (Effect.appendFsync r).Silent fees := by
  refine ⟨rfl, fun r' hr => ?_⟩
  cases hr
  exact readCommands_plain h

theorem silent_idle {e : Effect} (h : e.isIdle = true) : e.Silent fees := by
  cases e with
  | appendFsync r =>
      apply silent_append
      cases r <;> first | rfl | cases h
  | backfillFills _ => exact ⟨rfl, nofun⟩
  | backfillUnknown _ => exact ⟨rfl, nofun⟩
  | reconcileCancel _ => exact ⟨rfl, nofun⟩
  | requestAuthorityReconcile _ _ => exact ⟨rfl, nofun⟩
  | haltNewExposure => exact ⟨rfl, nofun⟩
  | _ => cases h

theorem silent_pushJournal {jr : Option JournalRecord} (h : ∀ r ∈ jr, r.isPlain = true) :
    ∀ e ∈ pushJournal [] jr, e.Silent fees := by
  cases jr with
  | none => simp [pushJournal]
  | some r =>
      intro e he
      obtain rfl : e = .appendFsync r := by simpa [pushJournal] using he
      exact silent_append (h r rfl)

theorem bindVenueId_plain {v : VenueOrderId} {jr : Option JournalRecord}
    (h : bindVenueId c v = .ok (jr, d)) : ∀ r ∈ jr, r.isPlain = true := by
  rcases bindVenueId_ok h with ⟨_, rfl, _⟩ | ⟨_, _, rfl, _⟩ <;> simp [JournalRecord.isPlain]

theorem raiseEffects_silent : ∀ e ∈ raiseEffects c d, e.Silent fees := by
  intro e he
  unfold raiseEffects at he
  rcases List.mem_append.mp he with he | he <;>
  · split at he
    · obtain rfl := List.mem_singleton.mp he
      exact silent_append rfl
    · cases he

/-! ## Folds that change nothing -/

/-- A fee that is new to a known fill is never passed over. -/
theorem redeliverFill_newFee {f : FillRecord} {prev : FillPayload} {fee : Nat} (hp : prev.fee = none)
    (hf : f.feeCents = some fee) : (redeliverFill c prev f).1 ≠ .noOp := by
  have hne : prev ≠ f.payload := by
    intro he
    rw [he] at hp
    exact absurd (hp.symm.trans hf) (by simp)
  unfold redeliverFill
  rw [if_neg hne]
  split
  · simp
  · cases upgradeVenue c prev f with
    | error reason => simp
    | ok r =>
        rcases upgradeFee_cases c prev f with ⟨reason, hfee⟩ | ⟨heq, _⟩ | ⟨_, _, _, _, hfee⟩
        · simp [hfee]
        · exact absurd (hp.symm.trans (heq.trans hf)) (by simp)
        · simp [hfee]

/-- A fold books a new fill or fails. -/
theorem bookFill_restore (c : OrderCtx) (f : FillRecord) :
    (∃ reason fx d, bookFill c f true = (.halt reason fx, d)) ∨
      ∃ d, bookFill c f true = (.applied [], d) ∧
        d.appliedFills = c.appliedFills.insert f.fillId f.payload := by
  unfold bookFill
  split
  · exact .inl ⟨_, _, _, rfl⟩
  · split
    · exact .inl ⟨_, _, _, rfl⟩
    · split
      · exact .inl ⟨_, _, _, rfl⟩
      · rename_i newFeeTotal _
        simp only [if_true]
        split
        · exact .inl ⟨_, _, _, rfl⟩
        · rename_i hraise
          refine .inr ⟨_, rfl, ?_⟩
          obtain ⟨q, n, g, hacc⟩ :=
            accumulateResponseDomain_eq _ f.qty f.priceCents f.feeCents f.tsNs
          rw [hacc]
          unfold restoreFillObligation at hraise
          split at hraise
          · cases hraise
          · split at hraise <;> (cases hraise; rfl)

/-- A fold that takes a fill in leaves it with a payload, which has a fee if the fill has one. -/
theorem foldFill_fee {f : FillRecord} (h : foldFill c f = .ok d) :
    ∃ p, d.appliedFills.get? f.fillId = some p ∧ (p.fee = none → f.feeCents = none) := by
  unfold foldFill tryAccountFillForFold accountFillCore at h
  cases hv : firstSightingMismatch c f with
  | some reason => simp [hv] at h
  | none =>
      cases hk : c.appliedFills.get? f.fillId with
      | some prev =>
          simp only [hv, hk] at h
          rcases redeliverFill_cases hk with hr | ⟨reason, hr⟩ | ⟨_, hr⟩
          · rw [hr] at h
            cases h
            refine ⟨prev, hk, fun hp => ?_⟩
            cases hf : f.feeCents with
            | none => rfl
            | some fee => exact absurd (congrArg (·.1) hr) (redeliverFill_newFee hp hf)
          · rw [hr] at h
            cases h
          · rw [hr] at h
            cases h
            exact ⟨completedPayload prev f, OrdMap.get?_insert_self _ _ _, id⟩
      | none =>
          simp only [hv, hk] at h
          rcases bookFill_restore c f with ⟨reason, fx, e, hb⟩ | ⟨e, hb, hfills⟩
          · rw [hb] at h
            cases h
          · rw [hb] at h
            cases h
            exact ⟨f.payload, hfills ▸ OrdMap.get?_insert_self _ _ _, id⟩

/-- A fold that leaves the context as it was read nothing new. -/
theorem silent_echo {r : JournalRecord} (hread : ReadsAs fees c) (hmark : r.isMark = false)
    (h : foldRecord c r = .ok c) : (Effect.appendFsync r).Silent fees := by
  refine ⟨rfl, fun r' hr => ?_⟩
  obtain rfl : r = r' := by simpa [Effect.journalRecord?] using hr
  have hfill : ∀ f, foldFill c f = .ok c → fees.get? f.fillId ≠ none ∧
      (fees.get? f.fillId = some none → f.feeCents = none) := by
    intro f hf
    obtain ⟨p, hp, hfee⟩ := foldFill_fee hf
    rw [hread, hp]
    exact ⟨by simp, fun he => hfee (Option.some.inj he)⟩
  have hreads : ∀ f, foldFill c f = .ok c → readCommands fees (.fill f) = ([], fees) := by
    intro f hf
    obtain ⟨hknown, hfee⟩ := hfill f hf
    cases hg : fees.get? f.fillId with
    | none => exact absurd hg hknown
    | some known =>
        cases known with
        | none => simp [readCommands, hg, hfee hg]
        | some fee => simp [readCommands, hg]
  cases r with
  | fill f => exact hreads f h
  | fillCid cid f => exact hreads f h
  | feeCorrection fid delta =>
      cases hp : c.appliedFills.get? fid with
      | none => simp [readCommands, hread fid, hp]
      | some p =>
          cases hfee : p.fee with
          | some fee => simp [readCommands, hread fid, hp, hfee]
          | none =>
              -- the fold would have written the fee
              exfalso
              simp only [foldRecord, foldFeeCorrection, hp, hfee, Option.isNone_none, if_true] at h
              split at h
              · cases h
              · have hget := congrArg (fun c => c.appliedFills.get? fid) (Except.ok.inj h)
                simp only [OrdMap.get?_insert_self, hp, Option.some.injEq] at hget
                have := congrArg FillPayload.fee hget
                rw [hfee] at this
                cases this
  | orderTerminal => cases hmark
  | _ => rfl

/-! ## The moves -/

/-- All commands of the log are sent, each after its record, and the reader knows the fees the context
was booked with. -/
def Told (log : List Effect) (c : OrderCtx) : Prop :=
  ∃ fees, accountLog.Owing .empty log [] fees ∧ ReadsAs fees c

theorem Told.silents (h : Told log c) (hfx : ∀ fees, ∀ e ∈ fx, e.Silent fees)
    (hd : d.appliedFills = c.appliedFills) : Told (log ++ fx) d := by
  obtain ⟨fees, ho, hr⟩ := h
  exact ⟨fees, owing_silents ho (hfx fees), fun fid => by rw [hr, hd]⟩

theorem Told.silent {e : Effect} (h : Told log c) (he : ∀ fees, e.Silent fees)
    (hd : d.appliedFills = c.appliedFills) : Told (log ++ [e]) d :=
  h.silents (fun fees _ he' => List.mem_singleton.mp he' ▸ he fees) hd

theorem ReadsAs.insert (h : ReadsAs fees c) {fid : FillId} {p : FillPayload}
    (hd : d.appliedFills = c.appliedFills.insert fid p) : ReadsAs (fees.insert fid p.fee) d := by
  intro j
  rw [hd, OrdMap.get?_insert, OrdMap.get?_insert]
  split
  · rfl
  · exact h j

/-- A booking: the records before the fill's are silent, the fill's own stands for the command. -/
theorem Told.booked {f : FillRecord} (h : Told log c) (hb : Bookable c f) :
    Told (log ++ bookEffects c f) (bookedCtx c f) := by
  obtain ⟨fees, ho, hr⟩ := h
  have hnew : fees.get? f.fillId = none := by rw [hr, hb.fresh]; rfl
  let opening : List Effect :=
    .appendFsync (.authorityInvalidated (saturatingAdd u64Max c.authorityEpoch 1)) ::
      if c.fillObligation < c.attributedFillQty + f.qty then
        [.appendFsync (.obligationRaised (c.attributedFillQty + f.qty)
          (saturatingAdd u64Max c.authorityEpoch 1))] else []
  have hopen : accountLog.Owing .empty (log ++ opening) [] fees := by
    refine owing_silents ho fun e he => ?_
    rcases List.mem_cons.mp he with rfl | he
    · exact silent_append rfl
    · split at he
      · obtain rfl := List.mem_singleton.mp he
        exact silent_append rfl
      · cases he
  have hread : readCommands fees (fillJournalRecord c.clientOrderId f) =
      ([.accountFill f.fillId f.qty f.priceCents f.tsNs (f.feeCents.getD 0)],
        fees.insert f.fillId f.feeCents) := by
    simp only [readCommands, fillJournalRecord, hnew]
  have hwrite := hopen.writes (e := .appendFsync (fillJournalRecord c.clientOrderId f))
    (r := fillJournalRecord c.clientOrderId f) rfl rfl hread
  have hsend := hwrite.send (e := Effect.accountFill f.fillId f.qty f.priceCents f.tsNs
    (f.feeCents.getD 0)) rfl rfl
  refine ⟨fees.insert f.fillId f.feeCents, ?_, hr.insert (p := f.payload) (bookedCtx_books c f).1⟩
  simpa only [bookEffects, fillEffects, opening, List.append_assoc, List.cons_append, List.nil_append]
    using hsend

/-- A completion: its record stands for the correction, the correction's own record for nothing more. -/
theorem Told.completed {f : FillRecord} {prev : FillPayload} (h : Told log c)
    (hc : Completes c f prev) : Told (log ++ completeEffects c f prev) (completedCtx c f prev) := by
  obtain ⟨fees, ho, hr⟩ := h
  have hold : fees.get? f.fillId = some prev.fee := by rw [hr, hc.known]; rfl
  have hnext : ReadsAs (fees.insert f.fillId f.feeCents) (completedCtx c f prev) :=
    hr.insert (p := completedPayload prev f) rfl
  let r := fillJournalRecord c.clientOrderId { f with tsNs := prev.tsNs }
  unfold completeEffects
  cases hd : feeDelta prev f with
  | none =>
      have hsame : prev.fee = f.feeCents := by
        rcases hc.fee with hs | ⟨hn, fee, hf, _⟩
        · exact hs
        · simp [feeDelta, hn, hf] at hd
      have hread : readCommands fees r =
          ([], fees.insert f.fillId f.feeCents) := by
        rw [OrdMap.insert_get? (hold.trans (congrArg some hsame))]
        cases hf : f.feeCents <;> simp [r, readCommands, fillJournalRecord, hold, hsame, hf]
      exact ⟨_, ho.writes (e := .appendFsync r) (r := r) rfl rfl hread, hnext⟩
  | some delta =>
      have hf : f.feeCents = some delta := feeDelta_some hd
      have hn : prev.fee = none := by
        rcases hc.fee with hs | ⟨hn, _⟩
        · simp [feeDelta, hs] at hd
        · exact hn
      have hread : readCommands fees r =
          ([.accountFeeCorrection f.fillId delta], fees.insert f.fillId f.feeCents) := by
        simp [r, readCommands, fillJournalRecord, hold, hn, hf]
      have hwrite := ho.writes (e := .appendFsync r) (r := r) rfl rfl hread
      have hnote := hwrite.note (e := .appendFsync (.feeCorrection f.fillId delta))
        (r := .feeCorrection f.fillId delta) rfl rfl (by simp [accountLog, readCommands, hf])
      have hsend := hnote.send (e := Effect.accountFeeCorrection f.fillId delta) rfl rfl
      exact ⟨_, by simpa using hsend, hnext⟩

theorem Completion.told (hm : Completion c fx d) (h : Told log c) : Told (log ++ fx) d := by
  obtain ⟨f, prev, hc, rfl, rfl⟩ := hm
  exact h.completed hc

theorem Settles.told {F : FillRecord → Prop} (hm : Settles F c fx d) (h : Told log c) :
    Told (log ++ fx) d := by
  cases hm with
  | book f _ hb => exact h.booked hb
  | latch => exact h.silent (fun _ => silent_append rfl) rfl

theorem Move.told (hm : Move P c fx d) (hc : Accounted c) (h : Told log c) : Told (log ++ fx) d := by
  cases hm with
  | idle he => exact h.silent (fun _ => silent_idle he) rfl
  | echo _ hmark hfold =>
      obtain ⟨fees, ho, hr⟩ := h
      exact ⟨fees, owing_silent ho (silent_echo hr hmark (hfold hc.bounded)), hr⟩
  | invalidate => exact h.silent (fun _ => silent_append rfl) rfl
  | bind _ _ => exact h.silent (fun _ => silent_append rfl) rfl
  | raise _ _ => exact h.silent (fun _ => silent_append rfl) (raisedCtx_books c _).1
  | complete hm => exact hm.told h
  | settle hs => exact hs.told h
  | remaining _ =>
      rw [List.append_nil]
      exact h
  | observe _ _ _ => exact h.silent (fun _ => silent_append rfl) rfl
  | @observeSettled _ _ v filled r others _ _ _ _ _ hm hs =>
      have hobs : Told (log ++ [observedEffect c v filled r others false]) (c.noteVenueRemaining r) :=
        h.silent (fun _ => silent_append rfl) rfl
      have := hs.told (hm.preserves (fun h hm => Completion.told hm h) hobs)
      simpa only [List.append_assoc, List.cons_append, List.nil_append] using this
  | observeRaise _ _ _ =>
      refine h.silents (fun _ e he => ?_) (raisedCtx_books (c.noteVenueRemaining _) _).1
      rcases List.mem_pair.mp he with rfl | rfl <;> exact silent_append rfl
  | observeOver _ _ => exact h.silent (fun _ => silent_append rfl) rfl

theorem Answer.told (hm : Answer c fx d) (h : Told log c) : Told (log ++ fx) d := by
  cases hm with
  | empty hb =>
      refine h.silents (fun _ e he => ?_) (bindVenueId_books hb).1
      rcases List.mem_cons.mp he with rfl | he
      · exact silent_append rfl
      · exact silent_pushJournal (bindVenueId_plain hb) e he
  | @counted b d' _ count r avg fee sb jr hb _ hr =>
      have hraised : d'.appliedFills = b.appliedFills := by
        obtain ⟨_, ⟨_, rfl⟩ | ⟨_, rfl⟩⟩ := raiseFillObligation_ok hr
        · rfl
        · exact (raisedCtx_books (setResponse _ _ _ _ _ _) _).1
      rw [recomputeResponseDomain_eq]
      refine h.silents (fun _ e he => ?_) (hraised.trans (bindVenueId_books hb).1)
      rcases List.mem_cons.mp he with rfl | he
      · exact silent_append rfl
      · rcases List.mem_append.mp he with he | he
        · exact silent_pushJournal (bindVenueId_plain hb) e he
        · exact raiseEffects_silent e he

/-- The terminal record stands for the release that follows it. -/
theorem Told.released (h : Told log c) (kind : TerminalKind) : Told (log ++ terminalEffects c kind) c := by
  obtain ⟨fees, ho, hr⟩ := h
  let r : JournalRecord := .orderTerminal kind c.venueOrderId c.fillObligation c.authorityIsFresh
    c.authorityEpoch c.attributedFillQty c.attributedFeeCents
  have hread : readCommands fees r = ([.releaseReservation], fees) := rfl
  have hwrite := ho.writes (e := .appendFsync r) (r := r) rfl rfl hread
  have hsend := hwrite.send (e := Effect.releaseReservation) rfl rfl
  exact ⟨fees, by simpa [terminalEffects, r] using hsend, hr⟩

/-- Every act of a step sends its commands after their records. -/
theorem Act.told (hm : Act P c fx d) (hc : Accounted c) (h : Told log c) : Told (log ++ fx) d := by
  cases hm with
  | deed hm => exact hm.elim (fun hm => hm.told hc h) fun hm => hm.told h
  | refused hm =>
      cases hm with
      | conflict _ => exact h.silent (fun _ => silent_append rfl) rfl
      | excess hb _ _ =>
          refine h.silents (fun _ e he => ?_) (bindVenueId_books hb).1
          rcases List.mem_cons.mp he with rfl | he
          · exact silent_append rfl
          · exact silent_pushJournal (bindVenueId_plain hb) e he
  | release kind => exact h.released kind
  | reserve => exact h.silent (fun _ => ⟨rfl, nofun⟩) rfl
  | halt =>
      refine h.silents (fun _ e he => ?_) rfl
      rcases List.mem_pair.mp he with rfl | rfl
      · exact silent_append rfl
      · exact ⟨rfl, nofun⟩

/-! ## The theorem -/

/-- Over every run, late fills and halts included: the account is told exactly the commands the
journal stands for, in its order, and no command comes before its record, wherever the stream of
effects is cut. -/
theorem commands_follow_journal (cid : ClientOrderId) (market strategy : String) (side : Side)
    (price qty : Nat) (es : List OrderEvent) :
    let fx := runEffects (.new cid market strategy side price qty) es
    accountTold fx = accountCommands (journalOf fx) ∧
      ∀ cut, cut <+: fx → accountTold cut <+: accountCommands (journalOf cut) := by
  intro fx
  let o := Order.new cid market strategy side price qty
  have hstart : Told [] o.ctx := ⟨.empty, .start _, fun _ => rfl⟩
  obtain ⟨fees, ho, -⟩ : Told fx (lifecycle.final o es).ctx :=
    run_preserves (C := fun _ => True) (fun _ h hc hm => hm.told hc h)
      (orderCoherent_new cid market strategy side price qty) hstart (by simp)
  have hbalance : accountTold fx ++ [] = accountCommands (journalOf fx) := ho.balance
  rw [List.append_nil] at hbalance
  exact ⟨hbalance, ho.ahead⟩

end Omsrs.Lifecycle
