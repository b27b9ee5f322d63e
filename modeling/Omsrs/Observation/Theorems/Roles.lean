import Omsrs.Observation.Lemmas.Coherent
import Omsrs.Observation.Lemmas.Members
import Omsrs.Observation.Lemmas.Noted

/-!
# The roles of members

The members of a wire are the orders bound to it, and a member is over exactly when its order is. The
one end that no record tells the wire of is that of an order whose immediate fills were never found.
-/

namespace Omsrs.Observation
open Omsrs.Lib Omsrs.Lifecycle Omsrs.Execution

/-- The roles of the members of every wire follow the states of their orders. -/
structure RolesFollow (s : Shell) : Prop where
  distinct : ∀ l w, ((s.registry.ensure l w).members.map (·.cid)).Nodup
  newest : ∀ l w, ∀ m ∈ (s.registry.ensure l w).members, m.role = .current →
    ∀ m' ∈ (s.registry.ensure l w).members, m' ≠ m → m'.role ≠ .current ∧ m'.bindPos < m.bindPos
  follows : ∀ l w, ∀ m ∈ (s.registry.ensure l w).members, ∃ row,
    s.orders.get? ⟨l, m.cid⟩ = some row ∧ (m.role = .terminal ↔ isTerminalState row.state = true)

/-- The order waits for the fills its create response counted. -/
def awaitsFills : OrderState → Bool
  | .immediateFillUnattributed .. => true
  | _ => false

/-- No deadline elapses on an order that waits for its fills, unless the event is refused. -/
def Timely (s : Shell) : ShellAction → Prop
  | .order key event => event = .backfillDeadlineElapsed → ∀ row, s.orders.get? key = some row →
      awaitsFills row.state = true → row.ctx.market ≠ row.ledger.market ∨ u64Max ≤ row.cursor.seq
  | _ => True

/-! ## The invariant of all runs -/

/-- The orders are coherent, and the members of a wire are the orders bound to it. -/
structure Enrolled (s : Shell) : Prop where
  coherent : ∀ key row, s.orders.get? key = some row → OrderCoherent ⟨row.state, row.ctx⟩
  formed : ∀ l w, Formed s.journal.length (s.registry.ensure l w).members
  bound : ∀ l w cid, (memberEnd (s.registry.ensure l w).members cid).isSome = true ↔
    ∃ row, s.orders.get? ⟨l, cid⟩ = some row ∧ row.ctx.venueOrderId = some w

/-- A member is over exactly when its order is. -/
def EndsAgree (s : Shell) : Prop :=
  ∀ l w cid ended row, memberEnd (s.registry.ensure l w).members cid = some ended →
    s.orders.get? ⟨l, cid⟩ = some row → ended = isTerminalState row.state

variable {s s' : Shell} {act : ShellAction} {key : OrderKey} {row : OrderRow} {event : OrderEvent}
  {tr : TransitionOutcome} {o : OrderTxnRecord} {a : OrderAfter}

theorem Enrolled.follows_iff (h : Enrolled s) : RolesFollow s ↔ EndsAgree s := by
  constructor
  · intro hr l w cid ended row hm hrow
    obtain ⟨m, hm', rfl⟩ := Option.map_eq_some_iff.mp hm
    have hc : m.cid = cid := by simpa using List.find?_some hm'
    obtain ⟨row', hrow', hiff⟩ := hr.follows l w m (List.mem_of_find?_eq_some hm')
    rw [hc, hrow] at hrow'
    cases hrow'
    exact Bool.eq_iff_iff.mpr (by rw [decide_eq_true_eq]; exact hiff)
  · intro he
    refine ⟨fun l w => (h.formed l w).nodup, fun l w m hm hr m' hm' => (h.formed l w).newest hm hr hm',
      fun l w m hm => ?_⟩
    have hend := (h.formed l w).memberEnd hm
    obtain ⟨row, hrow, _⟩ := (h.bound l w m.cid).mp (by rw [hend]; rfl)
    refine ⟨row, hrow, ?_⟩
    rw [← he l w m.cid _ row hend hrow, decide_eq_true_eq]

theorem enrolled_new : Enrolled .new := by
  refine ⟨fun _ _ h => (nomatch h), fun _ _ => formed_nil _, fun l w cid => ?_⟩
  exact iff_of_false (fun h => nomatch h) fun ⟨_, h, _⟩ => nomatch h

theorem endsAgree_new : EndsAgree .new := fun _ _ _ _ _ h _ => nomatch h

/-! ## A row that advances -/

/-- The core's answer marks the order and keeps it coherent. -/
theorem Advances.marked (h : Advances row event tr o a) (hc : OrderCoherent ⟨row.state, row.ctx⟩) :
    (∃ e, eventName e = eventName event ∧
      Marked ⟨row.state, row.ctx⟩ e (o.coreRecords.filter (·.isMark)) a.state a.ctx) ∧
      OrderCoherent ⟨a.state, a.ctx⟩ := by
  have hstate : a.state = tr.newState.getD row.state := by
    rw [h.state]
    cases tr <;> rfl
  have hanswer := h.answer
  rw [h.record, hstate]
  generalize a.ctx = d at hanswer
  cases hanswer with
  | @event e hname =>
      have hs := applyEvent_stepped (P := .any) hc e (fun h => h.elim) (fun _ _ => trivial)
      exact ⟨⟨e, hname, hs.marked hc⟩, hs.coherent hc⟩
  | sides hf =>
      have hb : Binds row.ctx (marksOf []) row.ctx := .same rfl
      exact ⟨⟨event, rfl, marked_halted hb _⟩, halted_coherent hc.accounted _⟩

/-- What the record of an order leaves of the members of a wire: the order is one of them where it is
bound to the wire, and over where the order is, unless the order was stranded. -/
structure Recorded (st st' : OrderState) (ctx ctx' : OrderCtx) (ev : OrderEvent) (pos : Nat) (here : Prop)
    (w : VenueOrderId) (ms ms' : List Member) : Prop where
  formed : Formed (pos + 1) ms'
  others : ∀ c, ¬ (here ∧ c = ctx.clientOrderId) → memberEnd ms' c = memberEnd ms c
  bound : here →
    ((memberEnd ms' ctx.clientOrderId).isSome = true ↔ ctx'.venueOrderId = some w)
  agrees : here → ¬ (ev = .backfillDeadlineElapsed ∧ awaitsFills st = true) →
    (∀ ended, memberEnd ms ctx.clientOrderId = some ended → ended = isTerminalState st) →
      ∀ ended, memberEnd ms' ctx.clientOrderId = some ended → ended = isTerminalState st'

theorem open_not_terminal {st : OrderState} (h : isRestartFrozen st = false) :
    isTerminalState st = false := by
  cases st <;> first | rfl | cases h

theorem marked_members {st st' : OrderState} {c d : OrderCtx} {ev : OrderEvent} {l : LedgerId}
    {w : VenueOrderId} {ws : WireState} {pos : Nat}
    (hm : Marked ⟨st, c⟩ ev (o.coreRecords.filter (·.isMark)) st' d)
    (hcid : o.clientOrderId = c.clientOrderId) (hf : Formed pos ws.members)
    (hbound : l = o.ledger →
      ((memberEnd ws.members c.clientOrderId).isSome = true ↔ c.venueOrderId = some w)) :
    Recorded st st' c d ev pos (l = o.ledger) w ws.members (ws.foldOrder pos o l w).members := by
  have hsome : ∀ {bs d}, Binds c bs d → l = o.ledger →
      ((memberEnd (bs.foldl (WireState.core pos o l w) ws).members c.clientOrderId).isSome = true ↔
        d.venueOrderId = some w) := by
    intro bs d hb hl
    have hiff := hb.venue_iff w
    rw [← hbound hl] at hiff
    rw [(WireState.binds_members hb hf o l w).2]
    refine Iff.trans ?_ hiff.symm
    simp only [hl, true_and]
    cases memberEnd ws.members c.clientOrderId with
    | some b => simp
    | none => by_cases h : c.venueOrderId = none ∧ d.venueOrderId = some w <;> simp [h]
  have hothers : ∀ {bs d}, Binds c bs d → ∀ cid, ¬ (l = o.ledger ∧ cid = c.clientOrderId) →
      memberEnd (bs.foldl (WireState.core pos o l w) ws).members cid = memberEnd ws.members cid := by
    intro bs d hb cid hne
    rw [(WireState.binds_members hb hf o l w).2, if_neg fun h => hne ⟨h.1, h.2.1⟩, Option.or_none]
  rw [WireState.foldOrder_members]
  generalize o.coreRecords.filter (·.isMark) = rs at hm
  cases hm with
  | stays hv =>
      exact ⟨hf.mono (Nat.le_succ _), fun _ _ => rfl, fun hl => by rw [hv]; exact hbound hl,
        fun _ _ hag => hag⟩
  | goesOn hb ho hs =>
      refine ⟨(WireState.binds_members hb hf o l w).1, hothers hb, hsome hb, fun _ _ hag ended hover => ?_⟩
      rw [(WireState.binds_members hb hf o l w).2] at hover
      rw [open_not_terminal hs]
      rw [open_not_terminal ho] at hag
      cases he : memberEnd ws.members c.clientOrderId with
      | some b =>
          rw [he] at hover
          cases hover
          exact hag ended he
      | none =>
          rw [he, Option.none_or] at hover
          split at hover
          · cases hover
            rfl
          · cases hover
  | ends hb hr hs =>
      rw [List.foldl_append, List.foldl_cons, List.foldl_nil, WireState.core_end hr, hcid]
      have hterm : isTerminalState st' = true := by
        rcases hs with ⟨_, rfl⟩ | ⟨kind, rfl⟩
        · rfl
        · cases kind <;> rfl
      have hf₁ := (WireState.binds_members hb hf o l w).1
      by_cases hl : l = o.ledger
      · rw [if_pos hl]
        refine ⟨WireState.terminalize_formed hf₁ _, fun cid hne => ?_, fun _ => ?_, fun _ _ _ ended ho => ?_⟩
        · rw [WireState.terminalize_end hf₁, if_neg fun h => hne ⟨hl, h⟩, hothers hb cid hne]
        · rw [WireState.terminalize_end hf₁, if_pos rfl, Option.isSome_map, hsome hb hl]
        · rw [WireState.terminalize_end hf₁, if_pos rfl] at ho
          obtain ⟨_, _, rfl⟩ := Option.map_eq_some_iff.mp ho
          exact hterm.symm
      · rw [if_neg hl]
        exact ⟨hf₁, hothers hb, fun h => absurd h hl, fun h => absurd h hl⟩
  | stranded hs he =>
      refine ⟨hf.mono (Nat.le_succ _), fun _ _ => rfl, hbound, fun _ hno => absurd ⟨he, ?_⟩ hno⟩
      rw [show st = _ from hs]
      rfl
  | unbound hv =>
      refine ⟨hf.mono (Nat.le_succ _), fun _ _ => rfl, hbound, fun hl _ _ ended ho => ?_⟩
      have := (hbound hl).mp (by rw [show memberEnd ws.members c.clientOrderId = some ended from ho]; rfl)
      rw [show c.venueOrderId = none from hv] at this
      cases this

/-! ## Orders and executions -/

/-- The step advances one row by one record and folds it. -/
structure RowAdvanced (s s' : Shell) (key : OrderKey) (row : OrderRow) (event : OrderEvent)
    (o : OrderTxnRecord) (a : OrderAfter) : Prop where
  before : s.orders.get? key = some row
  advances : ∃ tr, Advances row event tr o a
  self : s'.orders.get? key = some (row.advance (some a))
  others : ∀ k, k ≠ key → s'.orders.get? k = s.orders.get? k
  members : ∀ l w, (s'.registry.ensure l w).members =
    ((s.registry.ensure l w).foldOrder s.journal.length o l w).members
  journal : s'.journal.length = s.journal.length + 1

/-- The step leaves the orders and the members alone. -/
structure Unmoved (s s' : Shell) : Prop where
  orders : ∀ k, s'.orders.get? k = s.orders.get? k
  members : ∀ l w, (s'.registry.ensure l w).members = (s.registry.ensure l w).members
  journal : s.journal.length ≤ s'.journal.length

theorem Unmoved.enrolled (h : Unmoved s s') (he : Enrolled s) : Enrolled s' := by
  refine ⟨fun k r hr => he.coherent k r (h.orders k ▸ hr), fun l w => ?_, fun l w cid => ?_⟩
  · rw [h.members]
    exact (he.formed l w).mono h.journal
  · rw [h.members, he.bound, h.orders]

theorem Unmoved.endsAgree (h : Unmoved s s') (ha : EndsAgree s) : EndsAgree s' := by
  intro l w cid ended r hm hr
  rw [h.members] at hm
  rw [h.orders] at hr
  exact ha l w cid ended r hm hr

/-- Every wire records the row that advanced. -/
theorem RowAdvanced.recorded (h : RowAdvanced s s' key row event o a) (hs : Sound s) (he : Enrolled s) :
    key = ⟨row.ledger, row.ctx.clientOrderId⟩ ∧ OrderCoherent ⟨a.state, a.ctx⟩ ∧
      ∃ ev, eventName ev = eventName event ∧ ∀ l w, Recorded row.state a.state row.ctx a.ctx ev
        s.journal.length (l = row.ledger) w (s.registry.ensure l w).members
        (s'.registry.ensure l w).members := by
  obtain ⟨tr, hadv⟩ := h.advances
  have hkey : key = ⟨row.ledger, row.ctx.clientOrderId⟩ := by
    rw [hs.ledger key row h.before, hs.client key row h.before]
  obtain ⟨⟨ev, hname, hm⟩, hc⟩ := hadv.marked (he.coherent key row h.before)
  refine ⟨hkey, hc, ev, hname, fun l w => ?_⟩
  have hledger : o.ledger = row.ledger := by rw [hadv.record]; rfl
  have hcid : o.clientOrderId = row.ctx.clientOrderId := by rw [hadv.record]; rfl
  rw [h.members, ← hledger]
  refine marked_members hm hcid (he.formed l w) fun hl => ?_
  rw [he.bound, hl, hledger, ← hkey, h.before]
  simp

theorem RowAdvanced.enrolled (h : RowAdvanced s s' key row event o a) (hs : Sound s)
    (he : Enrolled s) : Enrolled s' := by
  obtain ⟨hkey, hc, ev, -, hrec⟩ := h.recorded hs he
  refine ⟨fun k r hr => ?_, fun l w => ?_, fun l w cid => ?_⟩
  · by_cases hk : k = key
    · rw [hk, h.self] at hr
      cases hr
      exact hc
    · rw [h.others k hk] at hr
      exact he.coherent k r hr
  · rw [h.journal]
    exact (hrec l w).formed
  · by_cases hk : (⟨l, cid⟩ : OrderKey) = key
    · rw [hk, h.self]
      rw [hkey, OrderKey.mk.injEq] at hk
      rw [hk.2, (hrec l w).bound hk.1]
      simp [OrderRow.advance]
    · rw [h.others _ hk, (hrec l w).others, he.bound]
      rintro ⟨hl, hcid⟩
      exact hk (by rw [hl, hcid, hkey])

theorem RowAdvanced.endsAgree (h : RowAdvanced s s' key row event o a) (hs : Sound s) (he : Enrolled s)
    (ha : EndsAgree s)
    (hno : ∀ ev, eventName ev = eventName event → ¬ (ev = .backfillDeadlineElapsed ∧
      awaitsFills row.state = true)) : EndsAgree s' := by
  obtain ⟨hkey, -, ev, hname, hrec⟩ := h.recorded hs he
  intro l w cid ended r hm hr
  by_cases hk : (⟨l, cid⟩ : OrderKey) = key
  · rw [hk, h.self] at hr
    cases hr
    have hk' := hk
    rw [hkey, OrderKey.mk.injEq] at hk'
    rw [hk'.2] at hm
    refine (hrec l w).agrees hk'.1 (hno ev hname) (fun ended₀ hm₀ => ?_) ended hm
    rw [← hk'.2] at hm₀
    exact ha l w cid ended₀ row hm₀ (hk ▸ h.before)
  · rw [h.others _ hk] at hr
    rw [(hrec l w).others] at hm
    · exact ha l w cid ended r hm hr
    · rintro ⟨hl, hcid⟩
      exact hk (by rw [hl, hcid, hkey])

/-! ## Rounds -/

section Rounds

variable {l : LedgerId} {w : VenueOrderId} {keys : List OrderKey} {rows : List OrderRow}
  {ev : RowEvidence} {round : ObservationRound} {t : ObservationTransaction}

/-- What a round on the wire `l`, `w` is closed over. -/
structure ClosedOver (s s' : Shell) (l : LedgerId) (w : VenueOrderId) (keys : List OrderKey)
    (rows : List OrderRow) (ev : RowEvidence) (round : ObservationRound)
    (t : ObservationTransaction) : Prop where
  found : keys.mapM s.orders.get? = some rows
  wire : round.ledger = l ∧ round.wire = w
  finish : round.finish s.registry (s.inventory l) rows ev = .ok t
  closed : Closed s l w keys t s'

theorem ClosedOver.finished (h : ClosedOver s s' l w keys rows ev round t) :
    ObservationRound.Finished round s.registry (s.inventory l) rows ev t :=
  ObservationRound.finish_ok h.finish

/-- The rows of a round are those of members of its wire that are not over. -/
theorem ClosedOver.open_member (h : ClosedOver s s' l w keys rows ev round t) (hs : Sound s)
    (he : Enrolled s) {key : OrderKey} {r : OrderRow} (hr : s.orders.get? key = some r) (hk : r ∈ rows) :
    key.ledger = l ∧ memberEnd (s.registry.ensure l w).members key.cid = some false ∧
      r.ctx.venueOrderId = some w := by
  have hl : key.ledger = l := by
    rw [← hs.ledger key r hr, h.finished.rows.ledger r hk, h.wire.1]
  have hend : memberEnd (s.registry.ensure l w).members key.cid = some false := by
    rw [← mem_nonTerminalCids (he.formed l w), ← hs.client key r hr]
    have := (h.finished.rows.mem_iff r.ctx.clientOrderId).mp (List.mem_map_of_mem hk)
    rwa [h.wire.1, h.wire.2] at this
  refine ⟨hl, hend, ?_⟩
  obtain ⟨r', hr', hv⟩ := (he.bound l w key.cid).mp (by rw [hend]; rfl)
  have hkey : (⟨l, key.cid⟩ : OrderKey) = key := by rw [← hl]
  rw [hkey, hr] at hr'
  cases hr'
  exact hv

theorem ClosedOver.members (h : ClosedOver s s' l w keys rows ev round t) (l' : LedgerId)
    (w' : VenueOrderId) : (s'.registry.ensure l' w').members =
      if l' = l ∧ w' = w then closeRoles t.membersAfter (s.registry.ensure l w).members
      else (s.registry.ensure l' w').members := by
  rw [h.closed.registry, WireRegistry.ensure_set]
  split
  · rw [h.finished.wireAfter, h.wire.1, h.wire.2]
    rfl
  · rfl

/-- The rows of a round stand under their own ids. -/
theorem ClosedOver.mem_rows (h : ClosedOver s s' l w keys rows ev round t) (hs : Sound s) {r : OrderRow}
    (hr : r ∈ rows) : (⟨l, r.ctx.clientOrderId⟩ : OrderKey) ∈ keys ∧
      s.orders.get? ⟨l, r.ctx.clientOrderId⟩ = some r := by
  obtain ⟨hlen, hget⟩ := Shell.mapM_rows h.found
  have hmap : (keys.zip rows).map Prod.snd = rows := List.map_snd_zip (by omega)
  have hl : r.ledger = l := (h.finished.rows.ledger r hr).trans h.wire.1
  rw [← hmap] at hr
  obtain ⟨⟨k, r₁⟩, hz, rfl⟩ := List.mem_map.mp hr
  have hr₁ := hget k r₁ hz
  have hk : (⟨l, r₁.ctx.clientOrderId⟩ : OrderKey) = k := by
    rw [← hl, hs.ledger k r₁ hr₁, hs.client k r₁ hr₁]
  rw [hk]
  exact ⟨(List.of_mem_zip hz).1, hr₁⟩

/-- What became of a row: it is as it was and no member of the round, or the round closed it. -/
theorem ClosedOver.became (h : ClosedOver s s' l w keys rows ev round t) (hs : Sound s)
    {key : OrderKey} {r' : OrderRow} (hr' : s'.orders.get? key = some r') :
    ∃ r, s.orders.get? key = some r ∧ ((r ∉ rows ∧ r' = r) ∨ (r ∈ rows ∧
      Became (closeMember round (s.registry.ensure l w) ev t.outcome r) t.membersAfter r r')) := by
  obtain ⟨r, hr, ⟨hk, rfl⟩ | ⟨_, hmem, hb⟩⟩ := h.closed.became h.found h.finish hr'
  · refine ⟨r', hr, .inl ⟨fun hmem => hk ?_, rfl⟩⟩
    have hkey : (⟨l, r'.ctx.clientOrderId⟩ : OrderKey) = key := by
      rw [hs.client key r' hr, ← (h.finished.rows.ledger r' hmem).trans h.wire.1, hs.ledger key r' hr]
    exact hkey ▸ (h.mem_rows hs hmem).1
  · rw [h.wire.1, h.wire.2] at hb
    exact ⟨r, hr, .inr ⟨hmem, hb⟩⟩

theorem ClosedOver.enrolled (h : ClosedOver s s' l w keys rows ev round t) (hs : Sound s)
    (he : Enrolled s) : Enrolled s' := by
  have hsome : ∀ l' w' cid, (memberEnd (s'.registry.ensure l' w').members cid).isSome =
      (memberEnd (s.registry.ensure l' w').members cid).isSome := by
    intro l' w' cid
    rw [h.members]
    split
    · rename_i hw
      rw [closeRoles_end, Option.isSome_map, hw.1, hw.2]
    · rfl
  have hvenue : ∀ key, (s'.orders.get? key).map (·.ctx.venueOrderId) =
      (s.orders.get? key).map (·.ctx.venueOrderId) := by
    intro key
    cases hr' : s'.orders.get? key with
    | none =>
        have := h.closed.orders key
        rw [hr'] at this
        cases hr : s.orders.get? key with
        | none => rfl
        | some r => simp [hr] at this
    | some r' =>
        obtain ⟨r, hr, ⟨_, rfl⟩ | ⟨_, hb⟩⟩ := h.became hs hr'
        · rw [hr]
        · rw [hr]
          simp only [Option.map_some, hb.ctx, (closeMember_books ..).2.2.2.2]
  refine ⟨fun key r' hr' => ?_, fun l' w' => ?_, fun l' w' cid => ?_⟩
  · obtain ⟨r, hr, ⟨_, rfl⟩ | ⟨hmem, hb⟩⟩ := h.became hs hr'
    · exact he.coherent key _ hr
    · rw [hb.state, hb.ctx]
      exact closeMember_coherent round _ ev _ (he.coherent key r hr)
        (h.open_member hs he hr hmem).2.2
  · have hlen : s.journal.length ≤ s'.journal.length := by
      rw [h.closed.journal, List.length_append]
      exact Nat.le_add_right _ _
    rw [h.members]
    split
    · exact closeRoles_formed ((he.formed l w).mono hlen) _
    · exact (he.formed l' w').mono hlen
  · rw [hsome, he.bound]
    have hv := hvenue ⟨l', cid⟩
    constructor
    · rintro ⟨r, hr, hw⟩
      rw [hr, Option.map_some, Option.map_eq_some_iff] at hv
      obtain ⟨r', hr', hv⟩ := hv
      exact ⟨r', hr', hv.trans hw⟩
    · rintro ⟨r', hr', hw⟩
      rw [hr', Option.map_some, eq_comm, Option.map_eq_some_iff] at hv
      obtain ⟨r, hr, hv⟩ := hv
      exact ⟨r, hr, hv.trans hw⟩

theorem ClosedOver.endsAgree (h : ClosedOver s s' l w keys rows ev round t) (hs : Sound s)
    (he : Enrolled s) (ha : EndsAgree s) : EndsAgree s' := by
  intro l' w' cid ended r' hm hr'
  obtain ⟨r, hr, hcase⟩ := h.became hs hr'
  have hcid : r.ctx.clientOrderId = cid := hs.client ⟨l', cid⟩ r hr
  -- a row the round did not close has no entry among the members it left
  have hnone : l' = l → (∀ a ∈ t.membersAfter, a.clientOrderId ≠ cid) →
      ended = isTerminalState r.state := by
    intro hl hno
    refine ha l' w' cid ended r ?_ hr
    rw [h.members] at hm
    split at hm
    · rename_i hw
      rw [closeRoles_end, List.find?_eq_none.mpr (by simpa using hno)] at hm
      rw [hw.1, hw.2]
      simpa using hm
    · exact hm
  rcases hcase with ⟨hnot, rfl⟩ | ⟨hmem, hb⟩
  · by_cases hl : l' = l
    · refine hnone hl fun x hx hxc => ?_
      obtain ⟨order, ho, -, -, hc, -⟩ := h.finished.mem_after.mp hx
      have hget := (h.mem_rows hs ho).2
      rw [← hc, hxc, ← hl, hr] at hget
      cases hget
      exact hnot ho
    · rw [h.members, if_neg fun hw => hl hw.1] at hm
      exact ha l' w' cid ended _ hm hr
  · obtain ⟨hl, hopen, hv⟩ := h.open_member hs he hr hmem
    obtain rfl : l' = l := hl
    cases hb with
    | same hst _ hno =>
        exact hnone rfl fun x hx => by rw [← hcid]; exact hno x hx
    | @changed seq _ _ hin =>
        have hw : w' = w := by
          obtain ⟨r₁, hr₁, hv₁⟩ := (he.bound l' w' cid).mp (by
            rw [h.members] at hm
            split at hm
            · rename_i hw
              rw [hw.2, hopen]
              rfl
            · rw [hm]
              rfl)
          rw [hr] at hr₁
          cases hr₁
          rw [hv] at hv₁
          exact (Option.some.inj hv₁).symm
        subst hw
        have hopen' : memberEnd (s.registry.ensure l' w').members cid = some false := hopen
        rw [h.members, if_pos ⟨rfl, rfl⟩, closeRoles_end, hopen'] at hm
        cases hfind : t.membersAfter.find? (·.clientOrderId = cid) with
        | none => exact absurd hcid (by simpa using List.find?_eq_none.mp hfind _ hin)
        | some x =>
            have hxc : x.clientOrderId = cid := by simpa using List.find?_some hfind
            obtain ⟨order, ho, -, -, hc, hst, -⟩ :=
              h.finished.mem_after.mp (List.mem_of_find?_eq_some hfind)
            have horder : order = r :=
              h.finished.rows.unique ho hmem (hc.symm.trans (hxc.trans hcid.symm))
            rw [hfind] at hm
            simp only [Option.map_some, Bool.or_false, Option.some.injEq] at hm
            rw [← hm, hst, horder, h.wire.1, h.wire.2]

end Rounds

/-! ## Steps -/

/-- What a step does to the orders and the members. -/
inductive Course (s : Shell) (act : ShellAction) (s' : Shell) : Prop
  | unmoved (h : Unmoved s s')
  | created {key : OrderKey} {market strategy : String} {side : Side} {priceCents qty : Nat}
      (hnew : s.orders.get? key = none) (hs' : s' = s.setOrder key
        ⟨key.ledger, ⟨0⟩, .new, .new key.cid market strategy side priceCents qty⟩)
  | advanced {key : OrderKey} {row : OrderRow} {event : OrderEvent} {o : OrderTxnRecord}
      {a : OrderAfter} (h : RowAdvanced s s' key row event o a)
      (hact : bringsFills event = true ∨
        act = .order key event ∧ row.ctx.market = row.ledger.market)
  | closed {l : LedgerId} {w : VenueOrderId} {keys : List OrderKey} {rows : List OrderRow}
      {ev : RowEvidence} {round : ObservationRound} {t : ObservationTransaction}
      (h : ClosedOver s s' l w keys rows ev round t)

theorem foldExecutions_members (os : List ExecutionOutcome) (ledger l : LedgerId) (w : VenueOrderId)
    (ws : WireState) : (os.foldl (WireState.foldExecution ledger l w) ws).members = ws.members := by
  have hhold : ∀ (ws : WireState) id entry, (ws.hold id entry).members = ws.members := by
    intro ws id entry
    simp only [WireState.hold]
    split
    · split <;> rfl
    · rfl
  induction os generalizing ws with
  | nil => rfl
  | cons o os ih =>
      rw [List.foldl_cons, ih]
      simp only [WireState.foldExecution]
      split
      · split
        · exact hhold _ _ _
        · rfl
      · rfl

theorem WireNoted.members_eq {pos : Nat} {inv : MarketInventory} {l : LedgerId} {w : VenueOrderId}
    {ws ws' : WireState} {rec : Record} (h : WireNoted pos inv l w ws rec ws') :
    ws'.members = ws.members := by
  cases h <;> rfl

theorem Installed.unmoved {l : LedgerId} {target : Option (OrderKey × OrderRow)}
    {t : ExecutionTransaction} (h : Installed s l target t none s')
    (htarget : ∀ key row, target = some (key, row) → s.orders.get? key = some row) : Unmoved s s' := by
  refine ⟨fun k => ?_, fun l' w => ?_, ?_⟩
  · rw [h.orders]
    cases target with
    | none => rfl
    | some kr =>
        simp only [rowAfter, Option.map_none, OrderRow.advance]
        split
        · rename_i hk
          rw [hk, htarget kr.1 kr.2 rfl]
        · rfl
  · rw [h.wires, foldExecutions_members]
    rfl
  · rw [h.journal, List.length_append]
    exact Nat.le_add_right _ _

theorem Installed.advanced {l : LedgerId} {t : ExecutionTransaction}
    (h : Installed s l (some (key, row)) t (some (o, a)) s') (hrow : s.orders.get? key = some row)
    (hadv : Advances row event tr o a) : RowAdvanced s s' key row event o a := by
  refine ⟨hrow, ⟨tr, hadv⟩, ?_, fun k hk => ?_, fun l' w => ?_, ?_⟩
  · rw [h.orders]
    simp [rowAfter]
  · rw [h.orders]
    simp [rowAfter, hk]
  · rw [h.wires, foldExecutions_members]
    rfl
  · rcases h.journaled with ⟨_, hno, _⟩ | hj
    · cases hno
    · rw [h.journal, hj]
      simp

/-- The record of an order event that is folded advances its row. -/
theorem RowAdvanced.ordered {registry : WireRegistry} (hs : Sound s)
    (hrow : s.orders.get? key = some row) (hadv : Advances row event tr o a)
    (hfold : s.registry.foldOrderPart s.journal.length o = .ok registry) :
    RowAdvanced s ⟨s.orders.insert key (row.advance (some a)), s.inventories, registry,
      s.journal ++ [.orderTxn o]⟩ key row event o a := by
  rcases WireRegistry.foldOrderPart_ok hfold with ⟨hseen, _⟩ | ⟨_, _, hwires⟩
  · rw [hs.unseen hrow hadv] at hseen
    cases hseen
  · refine ⟨hrow, ⟨tr, hadv⟩, ?_, fun k hk => ?_, fun l w => ?_, ?_⟩
    · simp
    · simp [OrdMap.get?_insert, hk]
    · exact congrArg _ (hwires l w)
    · simp

theorem Moved.course (h : Moved s act s') (hs : Sound s) : Course s act s' := by
  cases h with
  | idle => exact .unmoved ⟨fun _ => rfl, fun _ _ => rfl, le_rfl⟩
  | created hnew => exact .created hnew rfl
  | ordered hact hrow hmarket hadv hfold =>
      exact .advanced (.ordered hs hrow hadv hfold) (.inr ⟨hact, hmarket⟩)
  | @executed l target t part _ hprep hpart h =>
      have htarget : ∀ key row, target = some (key, row) → s.orders.get? key = some row := by
        intro key row hkr
        cases hprep with
        | norow _ => cases hkr
        | batch hrow _ _ => cases hkr; exact hrow
      cases part with
      | none => exact .unmoved (h.unmoved htarget)
      | some x =>
          obtain ⟨key, row, event, tr, rfl, _, hbrings, hadv⟩ := hpart x.1 x.2 rfl
          exact .advanced (h.advanced (htarget key row rfl) hadv) (.inl hbrings)
  | observed _ hrows hround hfin h => exact .closed ⟨hrows, hround, hfin, h⟩
  | noted hrec hfold =>
      obtain ⟨l, w, ws', hws, hwires⟩ := hrec.wire hfold
      refine .unmoved ⟨fun _ => rfl, fun l' w' => ?_, by simp⟩
      refine (congrArg _ (hwires l' w')).trans ?_
      split
      · rename_i heq
        rw [hws.members_eq, heq.1, heq.2]
      · rfl

theorem Course.enrolled (h : Course s act s') (hs : Sound s) (he : Enrolled s) : Enrolled s' := by
  cases h with
  | unmoved h => exact h.enrolled he
  | @created key market strategy side price qty hnew hs' =>
      subst hs'
      refine ⟨fun k r hr => ?_, he.formed, fun l w cid => ?_⟩
      · by_cases hk : k = key
        · simp only [Shell.setOrder, hk, OrdMap.get?_insert_self] at hr
          cases hr
          exact orderCoherent_new ..
        · simp only [Shell.setOrder, OrdMap.get?_insert, hk, if_false] at hr
          exact he.coherent k r hr
      · refine (he.bound l w cid).trans ?_
        by_cases hk : (⟨l, cid⟩ : OrderKey) = key
        · simp [Shell.setOrder, hk, hnew, OrdMap.get?_insert_self, OrderCtx.new]
        · simp [Shell.setOrder, hk, OrdMap.get?_insert]
  | advanced h _ => exact h.enrolled hs he
  | closed h => exact h.enrolled hs he

theorem eventName_deadline {e : OrderEvent} (h : eventName e = eventName .backfillDeadlineElapsed) :
    e = .backfillDeadlineElapsed := by
  cases e <;> first | rfl | simp [eventName] at h

theorem Course.endsAgree (h : Course s act s') (hs : Sound s) (he : Enrolled s) (ha : EndsAgree s)
    (hc : Timely s act) : EndsAgree s' := by
  cases h with
  | unmoved h => exact h.endsAgree ha
  | @created key market strategy side price qty hnew hs' =>
      subst hs'
      intro l w cid ended r hm hr
      by_cases hk : (⟨l, cid⟩ : OrderKey) = key
      · obtain ⟨_, hr', _⟩ := (he.bound l w cid).mp (by
          rw [show memberEnd (s.registry.ensure l w).members cid = some ended from hm]; rfl)
        rw [hk, hnew] at hr'
        cases hr'
      · simp only [Shell.setOrder, OrdMap.get?_insert, hk, if_false] at hr
        exact ha l w cid ended r hm hr
  | @advanced key row event o a h hact =>
      refine h.endsAgree hs he ha fun ev hname hlate => ?_
      obtain ⟨hev, hwaits⟩ := hlate
      rw [hev] at hname
      obtain rfl := eventName_deadline hname.symm
      rcases hact with hbrings | ⟨rfl, hmarket⟩
      · cases hbrings
      · obtain ⟨tr, hadv⟩ := h.advances
        rcases hc rfl row h.before hwaits with hne | hseq
        · exact hne hmarket
        · have := hadv.next
          simp only [OrderCursor.next] at this
          cases hcheck : checkedAdd u64Max row.cursor.seq 1 with
          | none => simp [hcheck] at this
          | some n =>
              have := checkedAdd_eq_some.mp hcheck
              omega
  | closed h => exact h.endsAgree hs he ha

/-- An order that waits for its fills is left over by the deadline, with a record that marks nothing. -/
theorem deadline_advances (hs : Sound s) (hrow : s.orders.get? key = some row)
    (hmarket : row.ctx.market = row.ledger.market) (hseq : row.cursor.seq < u64Max)
    (hwaits : awaitsFills row.state = true) :
    ∃ o a, o.coreRecords.filter (·.isMark) = [] ∧ a.state = .immediateFillUnresolved ∧
      RowAdvanced s (shell.step s (.order key .backfillDeadlineElapsed)).2 key row
        .backfillDeadlineElapsed o a := by
  let tr : TransitionOutcome := .halt .immediateFillUnresolved .immediateFillUnresolved
    [.appendFsync (.immediateFillUnresolvedCid row.ctx.clientOrderId), .haltNewExposure]
  let a : OrderAfter := ⟨.immediateFillUnresolved, row.ctx, row.cursor.seq + 1⟩
  let o := orderRecord row .backfillDeadlineElapsed tr a.seq a.state a.ctx
  have hanswer : applyEvent row.state row.ctx .backfillDeadlineElapsed = (tr, row.ctx) := by
    cases hst : row.state <;> first | rfl | simp [hst, awaitsFills] at hwaits
  have hnext : row.cursor.next = .ok (row.cursor.seq + 1) := by
    have : checkedAdd u64Max row.cursor.seq 1 = some (row.cursor.seq + 1) :=
      checkedAdd_eq_some.mpr ⟨by omega, rfl⟩
    simp only [OrderCursor.next, this]
  have ht : prepareOrderEvent row .backfillDeadlineElapsed =
      .ok ⟨some (.orderTxn o), [.haltNewExposure], none, row, some a⟩ := by
    simp [prepareOrderEvent, hmarket, eventHasIdentifiedFills, countEventFills, OrderEvent.fills,
      hanswer, orderChanged, TransitionOutcome.effects, TransitionOutcome.newState, hnext, bind,
      Except.bind, nonJournal, stateAfterTransition, tr, a, o]
  have hadv : Advances row .backfillDeadlineElapsed tr o a := by
    refine ⟨?_, rfl, hnext, rfl⟩
    have : CoreAnswer row .backfillDeadlineElapsed _ _ := .event (e := .backfillDeadlineElapsed) rfl
    rwa [hanswer] at this
  obtain ⟨registry, hfold⟩ := foldOrderPart_new s.journal.length (hs.unseen hrow hadv)
  have hstep : (shell.step s (.order key .backfillDeadlineElapsed)).2 =
      ⟨s.orders.insert key (row.advance (some a)), s.inventories, registry,
        s.journal ++ [.orderTxn o]⟩ := by
    have happly : (⟨some (.orderTxn o), [.haltNewExposure], none, row, some a⟩ :
        OrderTransaction).apply row = .ok (row.advance (some a)) := by
      simp [OrderTransaction.apply, checkTarget, bind, Except.bind]
    simp only [shell, Shell.step, Shell.order, hrow, ht, happly, Shell.appendAny]
    exact Shell.append_ok (s := s.setOrder key (row.advance (some a))) (.orderTxn o) hfold
  refine ⟨o, a, rfl, rfl, ?_⟩
  rw [hstep]
  exact .ordered hs hrow hadv hfold

/-- The deadline leaves an order that waits for its fills over, and its member as it is. -/
theorem endsAgree_timely (hs : Sound s) (he : Enrolled s) (ha : EndsAgree s)
    (h : EndsAgree (shell.step s act).2) : Timely s act := by
  cases act with
  | order key event =>
      rintro rfl row hrow hwaits
      by_contra hno
      simp only [ne_eq, not_or, not_not, not_le] at hno
      obtain ⟨o, a, hmarks, hstate, hadv⟩ := deadline_advances hs hrow hno.1 hno.2 hwaits
      obtain ⟨v, hv⟩ : ∃ v, row.ctx.venueOrderId = some v := by
        have hc := he.coherent key row hrow
        cases hst : row.state with
        | immediateFillUnattributed v _ _ _ _ =>
            rw [hst] at hc
            exact ⟨v, (hc.coherent rfl).agrees.1⟩
        | _ => simp [hst, awaitsFills] at hwaits
      have hmember := (he.bound key.ledger v key.cid).mpr ⟨row, hrow, hv⟩
      obtain ⟨ended, hover⟩ := Option.isSome_iff_exists.mp hmember
      have hlive : ended = false := by
        rw [ha _ _ _ _ row hover hrow]
        cases hst : row.state <;> first | rfl | simp [hst, awaitsFills] at hwaits
      have hover' := hover
      rw [← show _ = (s.registry.ensure key.ledger v).members from
        (hadv.members key.ledger v).trans (by rw [WireState.foldOrder_members, hmarks]; rfl)] at hover'
      have := h _ _ _ ended _ hover' hadv.self
      rw [hlive, show (row.advance (some a)).state = .immediateFillUnresolved from hstate] at this
      cases this
  | _ => trivial

/-! ## Runs -/

theorem step_enrolled (hs : Sound s) (he : Enrolled s) (act : ShellAction) :
    Enrolled (shell.step s act).2 := ((Shell.step_moved hs act).course hs).enrolled hs he

/-- A step keeps the roles exactly when it lets no deadline elapse on a waiting order. -/
theorem step_roles_iff (hs : Sound s) (he : Enrolled s) (hr : RolesFollow s) (act : ShellAction) :
    RolesFollow (shell.step s act).2 ↔ Timely s act := by
  rw [(step_enrolled hs he act).follows_iff]
  have ha := he.follows_iff.mp hr
  exact ⟨endsAgree_timely hs he ha,
    ((Shell.step_moved hs act).course hs).endsAgree hs he ha⟩

/-- The roles of the members follow the states of their orders all along a run exactly when no deadline
elapses on an order that waits for its fills. -/
theorem roles_follow_iff (acts : List ShellAction) :
    (∀ pre, pre <+: acts → RolesFollow (shell.final .new pre)) ↔ shell.Always Timely .new acts :=
  shell.kept_iff_always (I := RolesFollow) (J := fun s => Sound s ∧ Enrolled s)
    (fun _ act h => ⟨step_sound h.1 act, step_enrolled h.1 h.2 act⟩)
    (fun _ act h hr => step_roles_iff h.1 h.2 hr act) ⟨Shell.sound_new, enrolled_new⟩
    (enrolled_new.follows_iff.mpr endsAgree_new) acts

/-! ## An order whose fills were never found -/

def lateKey : OrderKey := ⟨⟨⟨"s"⟩, "M"⟩, ⟨"c"⟩⟩

/-- The create response counts one fill, and no fill is found before the deadline. -/
def lateRun : List ShellAction :=
  [.create lateKey "M" "x" .buyYes 40 3, .order lateKey .prepareSubmit,
    .order lateKey (.startSubmit ⟨"a"⟩), .order lateKey (.submitResponse ⟨"v"⟩ 1 2 none none none),
    .order lateKey .backfillDeadlineElapsed]

/-- The order is over and still the current member of its wire. -/
theorem late_member_current : ¬ ∀ acts, RolesFollow (shell.final .new acts) := by
  intro h
  obtain ⟨row, hrow, hiff⟩ :=
    (h lateRun).follows lateKey.ledger ⟨"v"⟩ ⟨lateKey.cid, .current, 2⟩ (by decide)
  have hstate : ((shell.final .new lateRun).orders.get? lateKey).map (·.state) =
      some .immediateFillUnresolved := by decide
  rw [show (⟨lateKey.ledger, lateKey.cid⟩ : OrderKey) = lateKey from rfl] at hrow
  rw [hrow, Option.map_some, Option.some.injEq] at hstate
  rw [hstate] at hiff
  exact absurd (hiff.mpr rfl) (by decide)

end Omsrs.Observation
