import Omsrs.Observation.Rebuild
import Omsrs.Observation.Theorems.Roles

/-!
# The journal rebuilds the shell

Every transaction of an order is journaled under the order's next sequence number, by whichever of the
three kinds of records, and with what it leaves of the order. Every record is folded into the registry
where it stands; an observation leaves the wire as its record says.
-/

namespace Omsrs.Observation
open Omsrs.Lib Omsrs.Lifecycle Omsrs.Execution

variable {s s' : Shell} {act : ShellAction} {cid : ClientOrderId} {ledger : LedgerId}
  {l : List (Nat × Snapshot)} {row : OrderRow} {row? : Option OrderRow}

/-! ## Reading snapshots -/

theorem foldlM_snapshots (records : List Record) (snaps : Snapshots) :
    records.foldlM (fun snaps rec => (snapshots ledger cid rec).foldlM (insertSnapshot cid) snaps) snaps =
      (records.flatMap (snapshots ledger cid)).foldlM (insertSnapshot cid) snaps := by
  induction records generalizing snaps with
  | nil => rfl
  | cons rec records ih =>
      rw [List.foldlM_cons, List.flatMap_cons, List.foldlM_append]
      exact congrArg _ (funext ih)

/-- Snapshots under numbers of their own are all taken in. -/
theorem insertSnapshots_apart (snaps : Snapshots) (hnew : ∀ x ∈ l, snaps.get? x.1 = none)
    (hl : (l.map (·.1)).Nodup) : l.foldlM (insertSnapshot cid) snaps = .ok (snaps.insertAll l) := by
  induction l generalizing snaps with
  | nil => rfl
  | cons x l ih =>
      obtain ⟨hx, hl⟩ := List.nodup_cons.mp hl
      rw [List.foldlM_cons, insertSnapshot, hnew x List.mem_cons_self]
      refine ih _ (fun y hy => ?_) hl
      have hne : y.1 ≠ x.1 := fun h => hx (List.mem_map.mpr ⟨y, hy, h⟩)
      rw [OrdMap.get?_insert_ne _ _ hne]
      exact hnew y (List.mem_cons_of_mem _ hy)

/-- Ascending snapshots are read back in their order. -/
theorem entries_ascending (h : l.Pairwise fun a b => a.1 < b.1) :
    (OrdMap.empty.insertAll l : Snapshots).entries = l :=
  congrArg OrdMap.entries (OrdMap.insertAll_entries ⟨l, h⟩)

theorem lastSnapshot_counted {e : Nat} {last : Option Snapshot}
    (h : l.map (·.1) = List.range' e l.length) :
    lastSnapshot cid e last l =
      .ok (((l.getLast?.map (·.2)).or last).map fun x => (x.1, x.2, ⟨e + l.length - 1⟩)) := by
  induction l generalizing e last with
  | nil => simp [lastSnapshot]
  | cons x l ih =>
      obtain ⟨seq, x⟩ := x
      simp only [List.map_cons, List.length_cons, List.range'_succ, List.cons.injEq] at h
      obtain ⟨rfl, h⟩ := h
      simp only [lastSnapshot, ne_eq, not_true_eq_false, if_false, ih h, List.getLast?_cons,
        List.length_cons]
      cases hl : l.getLast? with
      | none =>
          rw [List.getLast?_eq_none_iff] at hl
          simp [hl]
      | some y =>
          simp only [Option.map_some, Option.some_or, Option.getD_some]
          congr 5
          omega

/-! ## An order and its snapshots -/

/-- The snapshots are numbered up to the order's cursor, and the last one is the order as it is. -/
structure ReadsBack (row? : Option OrderRow) (l : List (Nat × Snapshot)) : Prop where
  count : l.map (·.1) = List.range' 1 ((row?.map (·.cursor.seq)).getD 0)
  last : ∀ row, row? = some row → row.cursor.seq ≠ 0 →
    l.getLast? = some (row.cursor.seq, row.state, row.ctx)

/-- What is to be read back of an order: nothing, until its first transaction. -/
def liveOrder (row? : Option OrderRow) : Option (OrderState × OrderCtx × OrderCursor) :=
  row?.bind fun row => if row.cursor.seq = 0 then none else some (row.state, row.ctx, row.cursor)

theorem readsBack_none : ReadsBack none [] := ⟨rfl, fun _ h => (by cases h)⟩

/-- The order of a journal is the live one, where its snapshots read back. -/
theorem ReadsBack.rebuild {records : List Record}
    (h : ReadsBack row? (records.flatMap (snapshots ledger cid))) :
    rebuildOrderWithObservations ledger cid records = .ok (liveOrder row?) := by
  generalize hl : records.flatMap (snapshots ledger cid) = l at h
  have hlen : (row?.map (·.cursor.seq)).getD 0 = l.length := by
    have := congrArg List.length h.count
    simpa using this.symm
  have hcount := h.count
  rw [hlen] at hcount
  have hsorted : l.Pairwise fun a b => a.1 < b.1 := by
    have := List.pairwise_lt_range' (s := 1) (n := l.length)
    rw [← hcount] at this
    exact List.pairwise_map.mp this
  have hnodup : (l.map (·.1)).Nodup := by
    rw [hcount]
    exact List.nodup_range'
  simp only [rebuildOrderWithObservations, foldlM_snapshots, hl, bind, Except.bind,
    insertSnapshots_apart .empty (fun _ _ => rfl) hnodup]
  rw [OrdMap.isEmpty, entries_ascending hsorted, lastSnapshot_counted hcount]
  cases l with
  | nil =>
      cases row? with
      | none => rfl
      | some row =>
          have hz : row.cursor.seq = 0 := by simpa using hlen
          simp [liveOrder, hz]
  | cons x l =>
      cases row? with
      | none => simp at hlen
      | some row =>
          simp only [Option.map_some, Option.getD_some] at hlen
          have hz : row.cursor.seq ≠ 0 := by
            rw [hlen]
            simp
          rw [h.last row rfl hz]
          simp [liveOrder, hz, ← hlen]

/-- The order's next transaction. -/
theorem ReadsBack.next {row' : OrderRow} (h : ReadsBack (some row) l)
    (hseq : row'.cursor.seq = row.cursor.seq + 1) :
    ReadsBack (some row') (l ++ [(row'.cursor.seq, row'.state, row'.ctx)]) := by
  refine ⟨?_, fun r hr _ => ?_⟩
  · have hcount : l.map (·.1) = List.range' 1 row.cursor.seq := h.count
    rw [List.map_append, hcount]
    simp [hseq, List.range'_1_concat, Nat.add_comm]
  · cases hr
    simp

/-! ## A step of the shell -/

/-- Every order reads back from the journal. -/
def Recounted (s : Shell) : Prop :=
  ∀ key, ReadsBack (s.orders.get? key) (s.journal.flatMap (snapshots key.ledger key.cid))

theorem recounted_new : Recounted .new := fun _ => readsBack_none

theorem snapshots_append (records : List Record) (rec? : Option Record) :
    (records ++ rec?.toList).flatMap (snapshots ledger cid) =
      records.flatMap (snapshots ledger cid) ++ (rec?.map (snapshots ledger cid)).getD [] := by
  cases rec? <;> simp

variable {event : OrderEvent} {tr : TransitionOutcome} {o : OrderTxnRecord} {a : OrderAfter}
  {key : OrderKey}

/-- The record of an order's transaction is read by that order alone. -/
theorem Advances.snapshot (hs : Sound s) (hrow : s.orders.get? key = some row)
    (h : Advances row event tr o a) (key' : OrderKey) :
    snapshotOf key'.ledger key'.cid o = if key' = key then [(a.seq, a.state, a.ctx)] else [] := by
  have hl : o.ledger = key.ledger := by rw [h.record, orderRecord, hs.ledger key row hrow]
  have hc : o.clientOrderId = key.cid := by rw [h.record, orderRecord, hs.client key row hrow]
  have hkey : (key.ledger = key'.ledger ∧ key.cid = key'.cid) ↔ key' = key := by
    cases key
    cases key'
    simp [eq_comm]
  simp only [snapshotOf, hl, hc, hkey]
  rw [h.record]
  rfl

theorem ReadsBack.advance (h : ReadsBack (some row) l) (hadv : Advances row event tr o a) :
    ReadsBack (some (row.advance (some a))) (l ++ [(a.seq, a.state, a.ctx)]) :=
  h.next (next_ok hadv.next)

/-- A transaction's record adds the snapshot of its own order. -/
theorem Recounted.advance (h : Recounted s) (hs : Sound s) (hrow : s.orders.get? key = some row)
    (hadv : Advances row event tr o a)
    (horders : ∀ k, s'.orders.get? k = if k = key then some (row.advance (some a)) else s.orders.get? k)
    (hjournal : ∀ k : OrderKey, s'.journal.flatMap (snapshots k.ledger k.cid) =
      s.journal.flatMap (snapshots k.ledger k.cid) ++ snapshotOf k.ledger k.cid o) : Recounted s' := by
  intro k
  rw [hjournal, hadv.snapshot hs hrow, horders]
  split
  · rename_i hk
    subst hk
    exact (hrow ▸ h k).advance hadv
  · rw [List.append_nil]
    exact h k

theorem Recounted.same (h : Recounted s) (horders : ∀ k, s'.orders.get? k = s.orders.get? k)
    (hjournal : ∀ k : OrderKey, s'.journal.flatMap (snapshots k.ledger k.cid) =
      s.journal.flatMap (snapshots k.ledger k.cid)) : Recounted s' := by
  intro k
  rw [hjournal, horders]
  exact h k

theorem Noted.snapshots {rec : Record} (h : Noted s act rec) : snapshots ledger cid rec = [] := by
  cases h with
  | amend h =>
      rw [(WireRegistry.prepareAmendLineage_ok h).1]
      rfl
  | frame h =>
      rw [(WireRegistry.prepareUserOrderReceived_some.mp h).1]
      rfl
  | _ => rfl

/-! ## A round -/

theorem membersAfter_sublist {ms : List (OrderRow × MemberScratch)} {after : List MemberAfter}
    (h : ObservationRound.membersAfter ms = .ok after) :
    (after.map (·.clientOrderId)).Sublist (ms.map (·.1.ctx.clientOrderId)) := by
  induction ms generalizing after with
  | nil =>
      cases h
      exact .slnil
  | cons x ms ih =>
      simp only [ObservationRound.membersAfter, bind, Except.bind] at h
      split at h
      · cases h
      · rename_i after' hafter
        split at h
        · split at h
          · cases h
            exact (ih hafter).cons_cons _
          · cases h
        · cases h
          exact (ih hafter).cons _

theorem filter_one {after : List MemberAfter} (h : (after.map (·.clientOrderId)).Nodup) {m : MemberAfter}
    (hm : m ∈ after) (hc : m.clientOrderId = cid) :
    after.filter (fun m => decide (m.clientOrderId = cid)) = [m] := by
  subst hc
  induction after with
  | nil => cases hm
  | cons x after ih =>
      obtain ⟨hx, hafter⟩ := List.nodup_cons.mp h
      rcases List.mem_cons.mp hm with rfl | hm
      · rw [List.filter_cons_of_pos (by simp), List.filter_eq_nil_iff.mpr fun y hy => ?_]
        simpa using fun he => hx (List.mem_map.mpr ⟨y, hy, he⟩)
      · have hne : x.clientOrderId ≠ m.clientOrderId := fun he => hx (List.mem_map.mpr ⟨m, hm, he.symm⟩)
        rw [List.filter_cons_of_neg (by simpa using hne)]
        exact ih hafter hm

section Rounds

variable {w : VenueOrderId} {keys : List OrderKey} {rows : List OrderRow}
  {ev : RowEvidence} {round : ObservationRound} {t : ObservationTransaction}

theorem ObservationRound.Finished.after_nodup {r : WireRegistry} {inv : MarketInventory}
    (h : ObservationRound.Finished round r inv rows ev t) :
    (t.membersAfter.map (·.clientOrderId)).Nodup := by
  refine (membersAfter_sublist h.after).nodup ?_
  simpa [ObservationRound.scratches, Function.comp_def] using h.rows.nodup

/-- The snapshots of the members that a round changed. -/
def memberSnapshots (t : ObservationTransaction) (cid : ClientOrderId) : List (Nat × Snapshot) :=
  (t.membersAfter.filter fun m => decide (m.clientOrderId = cid)).map fun m =>
    (m.seq, m.stateAfter, m.ctxAfter)

theorem ClosedOver.snapshots (h : ClosedOver s s' ledger w keys rows ev round t) (key : OrderKey) :
    s'.journal.flatMap (snapshots key.ledger key.cid) =
      s.journal.flatMap (snapshots key.ledger key.cid) ++
        if key.ledger = ledger then memberSnapshots t key.cid else [] := by
  rw [h.closed.journal, snapshots_append, h.finished.journal]
  split
  · rename_i hsilent
    simp [memberSnapshots, hsilent.1]
  · simp only [Option.map_some, Option.getD_some, Observation.snapshots, h.wire.1, eq_comm]
    rfl

theorem Recounted.closed (h : Recounted s) (hs : Sound s)
    (hc : ClosedOver s s' ledger w keys rows ev round t) : Recounted s' := by
  have hnodup := hc.finished.after_nodup
  have hmember : ∀ m ∈ t.membersAfter, ∃ r ∈ rows, r.ctx.clientOrderId = m.clientOrderId := by
    intro m hm
    obtain ⟨r, hr, -, -, hcid, -⟩ := hc.finished.mem_after.mp hm
    exact ⟨r, hr, hcid.symm⟩
  intro key
  rw [hc.snapshots]
  -- the round is silent about every other order
  have hsilent : (∀ r ∈ rows, s.orders.get? key ≠ some r) →
      (if key.ledger = ledger then memberSnapshots t key.cid else []) = [] := by
    intro hno
    split
    · rename_i hl
      rw [memberSnapshots, List.filter_eq_nil_iff.mpr, List.map_nil]
      intro m hm
      obtain ⟨r, hr, hcid⟩ := hmember m hm
      have hne : m.clientOrderId ≠ key.cid := by
        intro he
        have hkey : (⟨ledger, r.ctx.clientOrderId⟩ : OrderKey) = key := by rw [hcid, he, ← hl]
        exact hno r hr (hkey ▸ (hc.mem_rows hs hr).2)
      simpa using hne
    · rfl
  cases hr' : s'.orders.get? key with
  | none =>
      have hr : s.orders.get? key = none := by
        rw [hc.closed.orders, Option.map_eq_none_iff] at hr'
        exact hr'
      rw [hsilent fun r _ => by rw [hr]; simp, List.append_nil]
      exact hr ▸ h key
  | some row' =>
      obtain ⟨row, hr, ⟨hno, rfl⟩ | ⟨hrow, hb⟩⟩ := hc.became hs hr'
      · rw [hsilent fun r hr₁ he => hno ?_, List.append_nil]
        · exact hr ▸ h key
        · rw [hr] at he
          cases he
          exact hr₁
      · have hl : key.ledger = ledger := by
          rw [← hs.ledger key row hr, hc.finished.rows.ledger row hrow, hc.wire.1]
        have hcid : row.ctx.clientOrderId = key.cid := hs.client key row hr
        rw [if_pos hl, memberSnapshots]
        cases hb with
        | same _ _ hnone =>
            rw [List.filter_eq_nil_iff.mpr fun m hm => ?_, List.map_nil, List.append_nil]
            · exact hr ▸ h key
            · simpa [← hcid] using hnone m hm
        | changed _ hn hm =>
            rw [filter_one hnodup hm hcid]
            exact (hr ▸ h key).next (next_ok hn)

end Rounds

/-- Every order reads back after a step. -/
theorem Moved.recounted (h : Moved s act s') (hs : Sound s) (hr : Recounted s) : Recounted s' := by
  cases h with
  | idle => exact hr
  | @created key market strategy side price qty hnew =>
      intro k
      have hk := hr k
      by_cases hkey : k = key
      · subst hkey
        rw [hnew] at hk
        have hnil := List.map_eq_nil_iff.mp hk.count
        simp only [Shell.setOrder, OrdMap.get?_insert_self, hnil]
        exact ⟨rfl, fun row hrow hz => by cases hrow; exact absurd rfl hz⟩
      · simp only [Shell.setOrder, OrdMap.get?_insert_ne _ _ hkey]
        exact hk
  | @ordered key row event tr o a registry _ hrow _ hadv _ =>
      refine hr.advance hs hrow hadv (fun k => ?_) fun k => ?_
      · by_cases hk : k = key <;> simp [OrdMap.get?_insert, hk]
      · exact snapshots_append s.journal (some (.orderTxn o))
  | @executed l target t part _ hprep hpart h =>
      cases part with
      | none =>
          refine hr.same (fun k => ?_) fun k => ?_
          · rw [h.orders]
            cases hprep with
            | norow _ => rfl
            | @batch _ key row _ _ hrow _ _ =>
                simp only [rowAfter, Option.map_none, OrderRow.advance]
                split
                · rename_i hk
                  rw [hk, hrow]
                · rfl
          · rw [h.journal, snapshots_append]
            rcases h.journaled with ⟨hj, -, -⟩ | hj
            · simp [hj]
            · simp [hj, snapshots]
      | some x =>
          obtain ⟨o, a⟩ := x
          obtain ⟨key, row, event, tr, rfl, -, -, hadv⟩ := hpart o a rfl
          cases hprep with
          | batch hrow _ _ =>
              refine hr.advance hs hrow hadv (fun k => h.orders k) fun k => ?_
              rw [h.journal, snapshots_append]
              rcases h.journaled with ⟨-, hnone, -⟩ | hj
              · cases hnone
              · simp [hj, snapshots]
  | observed _ hrows hround hfin h => exact hr.closed hs ⟨hrows, hround, hfin, h⟩
  | @noted rec registry hrec _ =>
      refine hr.same (fun _ => rfl) fun k => ?_
      rw [List.flatMap_append, List.flatMap_cons, hrec.snapshots]
      simp

/-! ## The registry -/

/-- The journal folds to the registry. -/
def Traced (s : Shell) : Prop := WireRegistry.rebuild s.journal = .ok s.registry

theorem rebuild_append {records : List Record} {r : WireRegistry} {rec : Record}
    (h : WireRegistry.rebuild records = .ok r) :
    WireRegistry.rebuild (records ++ [rec]) = r.fold records.length rec := by
  rw [WireRegistry.rebuild, List.zipIdx_append, List.foldlM_append]
  simp only [WireRegistry.rebuild] at h
  simp only [h, bind, Except.bind, List.zipIdx_singleton, Nat.zero_add, List.foldlM_cons,
    List.foldlM_nil]
  cases r.fold records.length rec <;> rfl

theorem Traced.append (h : Traced s) {rec : Record} {registry : WireRegistry}
    (hfold : s.registry.fold s.journal.length rec = .ok registry)
    (hr : s'.registry = registry) (hj : s'.journal = s.journal ++ [rec]) : Traced s' := by
  rw [Traced, hj, hr, rebuild_append h, hfold]

theorem Traced.same (h : Traced s) (hr : s'.registry = s.registry) (hj : s'.journal = s.journal) :
    Traced s' := by
  rw [Traced, hj, hr]
  exact h

/-- A member that is over is not ended again. -/
theorem setRole_ended {ms : List Member} (h : ∀ m ∈ ms, m.cid = cid → m.role = .terminal) :
    WireState.setRole .terminal cid ms = ms := by
  induction ms with
  | nil => rfl
  | cons m ms ih =>
      simp only [WireState.setRole]
      split
      · rename_i hc
        rw [← h m List.mem_cons_self hc]
      · rw [ih fun x hx => h x (List.mem_cons_of_mem _ hx)]

/-- The members that ended in a round have ended in its wire. -/
theorem closeRoles_ended {after : List MemberAfter} (hnodup : (after.map (·.clientOrderId)).Nodup)
    {a : MemberAfter} (ha : a ∈ after) (hend : isTerminalState a.stateAfter = true) (ms : List Member) :
    ∀ m ∈ closeRoles after ms, m.cid = a.clientOrderId → m.role = .terminal := by
  intro m hm hc
  obtain ⟨m₀, -, rfl⟩ := List.mem_map.mp hm
  cases hf : after.find? (·.clientOrderId = m₀.cid) with
  | none =>
      simp only [hf] at hc
      have hno := List.find?_eq_none.mp hf a ha
      rw [hc] at hno
      simp at hno
  | some b =>
      have hb : b.clientOrderId = m₀.cid := by simpa using List.find?_some hf
      simp only [hf] at hc ⊢
      have hcid : m₀.cid = a.clientOrderId := by
        split at hc <;> exact hc
      obtain rfl : b = a :=
        List.inj_on_of_nodup_map hnodup (List.mem_of_find?_eq_some hf) ha (hb.trans hcid)
      rw [if_pos hend]

theorem modify_same {m : OrdMap WireKey WireState} {k : WireKey} {f : WireState → WireState}
    {ws : WireState} (hk : m.get? k = some ws) (hf : f ws = ws) : m.modify k f = m := by
  apply OrdMap.ext_get?
  intro j
  rw [OrdMap.get?_modify, hk, Option.map_some, hf]
  split
  · rename_i hj
    rw [hj, hk]
  · rfl

/-- The record of a round is folded to the wire that the round leaves. -/
theorem foldObservation_closed {r : WireRegistry} {txn : ObservationTxnRecord} {ms : List Member}
    (hnodup : (txn.membersAfter.map (·.clientOrderId)).Nodup)
    (hroles : txn.wireAfter.members = closeRoles txn.membersAfter ms) :
    r.foldObservation txn = r.set txn.ledger txn.wire txn.wireAfter := by
  have hfold : ∀ after : List MemberAfter, (∀ a ∈ after, a ∈ txn.membersAfter) →
      after.foldl (fun r m =>
        if isTerminalState m.stateAfter then
          { r with wires := r.wires.modify ⟨txn.ledger, txn.wire⟩ (·.terminalize m.clientOrderId) }
        else r) (r.set txn.ledger txn.wire txn.wireAfter) = r.set txn.ledger txn.wire txn.wireAfter := by
    intro after
    induction after with
    | nil => exact fun _ => rfl
    | cons a after ih =>
        intro hsub
        rw [List.foldl_cons]
        split
        · rename_i hend
          have hsame : txn.wireAfter.terminalize a.clientOrderId = txn.wireAfter := by
            have hset := setRole_ended (hroles ▸
              closeRoles_ended hnodup (hsub a List.mem_cons_self) hend ms)
            rw [WireState.terminalize, hset]
          have hwires := modify_same (f := (·.terminalize a.clientOrderId))
            (OrdMap.get?_insert_self r.wires ⟨txn.ledger, txn.wire⟩ txn.wireAfter) hsame
          have hstep : { r.set txn.ledger txn.wire txn.wireAfter with
              wires := (r.set txn.ledger txn.wire txn.wireAfter).wires.modify ⟨txn.ledger, txn.wire⟩
                (·.terminalize a.clientOrderId) } = r.set txn.ledger txn.wire txn.wireAfter := by
            rw [WireRegistry.set, hwires]
          rw [hstep]
          exact ih fun x hx => hsub x (List.mem_cons_of_mem _ hx)
        · exact ih fun x hx => hsub x (List.mem_cons_of_mem _ hx)
  exact hfold _ fun _ h => h

section Rounds

variable {w : VenueOrderId} {keys : List OrderKey} {rows : List OrderRow}
  {ev : RowEvidence} {round : ObservationRound} {t : ObservationTransaction}

/-- A round that leaves its wire as it was leaves the registry as it was: the wire is there, since it
has been observed. -/
theorem set_unchanged {r : WireRegistry} {ws : WireState} (hlast : ws.last.isSome = true)
    (h : ws = r.ensure ledger w) : r.set ledger w ws = r := by
  subst h
  cases hget : r.get ledger w with
  | none =>
      rw [WireRegistry.ensure, hget] at hlast
      cases hlast
  | some ws =>
      rw [WireRegistry.ensure_of_get hget, WireRegistry.set, OrdMap.insert_get? hget]

theorem Traced.closed (h : Traced s) (hc : ClosedOver s s' ledger w keys rows ev round t) :
    Traced s' := by
  have hnodup := hc.finished.after_nodup
  have hjournal := hc.closed.journal
  have hwire := hc.finished.wireAfter
  rw [hc.finished.journal] at hjournal
  split at hjournal
  · rename_i hsilent
    rw [hc.wire.1, hc.wire.2] at hsilent hwire
    have hlast : t.wireAfter.last.isSome = true := by
      rw [hwire]
      rfl
    exact h.same (hc.closed.registry.trans (set_unchanged hlast hsilent.2))
      (by rw [hjournal, Option.toList_none, List.append_nil])
  · refine h.append ?_ hc.closed.registry hjournal
    rw [WireRegistry.fold, foldObservation_closed hnodup (by rw [hwire]; rfl)]
    simp only [hc.wire.1, hc.wire.2]

end Rounds

/-- The record of an execution is folded. -/
theorem PreparedFor.folded {t : ExecutionTransaction} {target : Option (OrderKey × OrderRow)}
    (h : PreparedFor s ledger act target t) (hs : Sound s) {rec : Record} (hj : t.journal = some rec) :
    ∃ registry, s.registry.fold s.journal.length rec = .ok registry := by
  obtain ⟨part, -, hpart, ⟨hnone, -, -⟩ | hsome⟩ := h.part hs
  · rw [hj] at hnone
    cases hnone
  · rw [hj] at hsome
    cases hsome
    have hnew : ∀ o a, part = some (o, a) → s.registry.seenOrder.get? (WireRegistry.txnKey o) = none := by
      intro o a hp
      obtain ⟨key, row, event, tr, htarget, -, -, hadv⟩ := hpart o a hp
      cases h with
      | norow _ => cases htarget
      | batch hrow _ _ =>
          cases htarget
          exact hs.unseen hrow hadv
    obtain ⟨registry, hfold, -⟩ := Shell.fold_executionTxn s.journal.length ledger
      (s.inventory ledger).generation t.outcomes hnew
    exact ⟨registry, hfold⟩

theorem Traced.execution (h : Traced s) (hs : Sound s) {t : ExecutionTransaction}
    {target : Option (OrderKey × OrderRow)} (hprep : PreparedFor s ledger act target t) :
    Traced (s.applyExecution target ledger t).2 := by
  have hplan := hprep.prepared.wellPlanned
  simp only [Shell.applyExecution,
    apply_own hprep.prepared.preparedOrder hplan.ledger hplan.generation]
  generalize hs' : s.install ledger ((s.inventory ledger).install t.plannedEntries t.plannedConflicts)
    target ((target.map (·.2)).map (·.advance t.after)) = s'
  have hregistry : s'.registry = s.registry := hs' ▸ Shell.install_registry ..
  have hlog : s'.journal = s.journal := hs' ▸ Shell.install_journal ..
  cases hj : t.journal with
  | none => exact h.same hregistry hlog
  | some rec =>
      obtain ⟨registry, hfold⟩ := hprep.folded hs hj
      have hfold' : s'.registry.fold s'.journal.length rec = .ok registry := by
        rw [hregistry, hlog, hfold]
      rw [Shell.appendAny, Shell.append_ok rec hfold']
      exact h.append hfold rfl (by rw [hlog])

/-- Any other step folds what it appends. -/
theorem Moved.traced (hm : Moved s act s') (h : Traced s)
    (hexec : ∀ target l e, act ≠ .execution target l e)
    (hbatch : ∀ key l event es, act ≠ .batch key l event es) :
    Traced s' := by
  cases hm with
  | idle => exact h
  | created _ => exact h
  | @ordered key row event tr o a registry _ _ _ _ hfold =>
      have hfold : s.registry.fold s.journal.length (.orderTxn o) = .ok registry := hfold
      exact h.append hfold rfl rfl
  | executed hprep _ _ =>
      cases hprep with
      | norow _ => exact absurd rfl (hexec _ _ _)
      | batch _ hact _ =>
          rcases hact with ⟨e, hact⟩ | hact
          · exact absurd hact (hexec _ _ _)
          · exact absurd hact (hbatch _ _ _ _)
  | observed _ hrows hround hfin hc => exact h.closed ⟨hrows, hround, hfin, hc⟩
  | noted _ hfold => exact h.append hfold rfl rfl

theorem step_traced (hs : Sound s) (h : Traced s) (act : ShellAction) : Traced (shell.step s act).2 := by
  have hmoved := Shell.step_moved hs act
  cases act with
  | execution target l e =>
      simp only [shell, Shell.step, Shell.execution, Shell.findTarget]
      cases target with
      | none =>
          dsimp only [Option.map_none]
          split
          · exact h
          · exact h.execution hs (.norow ‹_›)
      | some key =>
          dsimp only
          cases hrow : s.orders.get? key with
          | none => exact h
          | some row =>
              dsimp only [Option.map_some]
              split
              · exact h
              · exact h.execution hs (.batch hrow (.inl ⟨e, rfl⟩) ‹_›)
  | batch key l event es =>
      simp only [shell, Shell.step, Shell.batch]
      split
      · exact h
      · rename_i row hrow
        split
        · exact h
        · rename_i t ht
          have hprep : PreparedFor s l (.batch key l event es) (some (key, row)) t :=
            .batch hrow (.inr rfl) ht
          exact h.execution hs hprep
  | _ => exact hmoved.traced h (fun _ _ _ he => by cases he) (fun _ _ _ _ he => by cases he)

/-! ## Every prefix of the journal -/

/-- The journal gives back every order and the registry. -/
structure RebuiltLive (s : Shell) : Prop where
  orders : ∀ ledger cid, rebuildOrderWithObservations ledger cid s.journal =
    .ok (liveOrder (s.orders.get? ⟨ledger, cid⟩))
  registry : WireRegistry.rebuild s.journal = .ok s.registry

theorem step_journal (hs : Sound s) (act : ShellAction) :
    ∃ rec? : Option Record, (shell.step s act).2.journal = s.journal ++ rec?.toList := by
  have h := Shell.step_moved hs act
  generalize (shell.step s act).2 = s' at h
  cases h with
  | idle => exact ⟨none, by simp⟩
  | created _ => exact ⟨none, by simp [Shell.setOrder]⟩
  | @ordered _ _ _ _ o _ _ _ _ _ _ _ => exact ⟨some (.orderTxn o), rfl⟩
  | executed _ _ h => exact ⟨_, h.journal⟩
  | observed _ _ _ _ h => exact ⟨_, h.journal⟩
  | @noted rec _ _ _ => exact ⟨some rec, rfl⟩

/-- Every prefix of the journal was the whole journal at some point of the run. -/
theorem journal_prefix (acts : List ShellAction) {records : List Record}
    (h : records <+: (shell.final .new acts).journal) :
    ∃ pre, pre <+: acts ∧ (shell.final .new pre).journal = records := by
  induction acts using List.reverseRecOn with
  | nil => exact ⟨[], List.prefix_rfl, (List.prefix_nil.mp h).symm⟩
  | append_singleton acts act ih =>
      rw [shell.final_append] at h
      obtain ⟨rec?, hj⟩ := step_journal (run_sound acts) act
      have hlast : (shell.final .new (acts ++ [act])).journal =
          (shell.final .new acts).journal ++ rec?.toList := by
        rw [shell.final_append]
        exact hj
      have hcut : records <+: (shell.final .new acts).journal ∨
          records = (shell.final .new acts).journal ++ rec?.toList := by
        rw [show (shell.final (shell.final .new acts) [act]).journal = _ from hj] at h
        cases rec? with
        | none => exact .inl (by simpa using h)
        | some rec =>
            rcases List.prefix_concat_iff.mp h with h | h
            · exact .inr h
            · exact .inl h
      rcases hcut with hcut | hcut
      · obtain ⟨pre, hpre, hj⟩ := ih hcut
        exact ⟨pre, hpre.trans (List.prefix_append acts [act]), hj⟩
      · exact ⟨acts ++ [act], List.prefix_rfl, hlast.trans hcut.symm⟩

theorem run_recounted (acts : List ShellAction) :
    Sound (shell.final .new acts) ∧ Recounted (shell.final .new acts) ∧ Traced (shell.final .new acts) :=
  shell.invariant (I := fun s => Sound s ∧ Recounted s ∧ Traced s)
    (fun _ act h => ⟨step_sound h.1 act, (Shell.step_moved h.1 act).recounted h.1 h.2.1,
      step_traced h.1 h.2.2 act⟩)
    ⟨Shell.sound_new, recounted_new, rfl⟩ acts

/-- Every prefix of the journal of a run gives back, without an error, the orders and the registry as
they were when the journal ended there. -/
theorem every_cut_rebuilds_live (acts : List ShellAction) (n : Nat) :
    ∃ pre, pre <+: acts ∧ (shell.final .new pre).journal = (shell.final .new acts).journal.take n ∧
      RebuiltLive (shell.final .new pre) := by
  obtain ⟨pre, hpre, hj⟩ := journal_prefix acts (List.take_prefix n _)
  obtain ⟨-, horders, hregistry⟩ := run_recounted pre
  exact ⟨pre, hpre, hj, fun ledger cid => (horders ⟨ledger, cid⟩).rebuild, hregistry⟩

end Omsrs.Observation
