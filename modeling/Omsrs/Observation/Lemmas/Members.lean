import Omsrs.Lifecycle.Lemmas.Marks
import Omsrs.Observation.Lemmas.Wire
import Omsrs.Observation.Round

/-!
# The members of a wire

Binding appends a member and takes the current role from the one before, an end changes the role of one
member. What a record does to the members of a wire is read off the marks of its order part.
-/

namespace Omsrs.Observation
open Omsrs.Lib Omsrs.Lifecycle Omsrs.Execution

/-! ## Well-formed member lists -/

/-- The members are listed in the order of their binding, each once, all of them bound before the
position `n`; only the last one may be current. -/
structure Formed (n : Nat) (ms : List Member) : Prop where
  ordered : ms.Pairwise fun a b => a.cid ≠ b.cid ∧ a.bindPos < b.bindPos ∧ a.role ≠ .current
  bound : ∀ m ∈ ms, m.bindPos < n

/-- Whether the member is over; `none` where there is no such member. -/
def memberEnd (ms : List Member) (cid : ClientOrderId) : Option Bool :=
  (ms.find? (·.cid = cid)).map fun m => decide (m.role = .terminal)

variable {n : Nat} {ms : List Member} {cid c : ClientOrderId}

theorem formed_nil (n : Nat) : Formed n [] := ⟨.nil, by simp⟩

theorem Formed.mono {n' : Nat} (h : Formed n ms) (hn : n ≤ n') : Formed n' ms :=
  ⟨h.ordered, fun m hm => (h.bound m hm).trans_le hn⟩

theorem Formed.nodup (h : Formed n ms) : (ms.map (·.cid)).Nodup := by
  rw [List.Nodup, List.pairwise_map]
  exact h.ordered.imp fun h => h.1

/-- The current member is bound last, and is the only one. -/
theorem Formed.newest (h : Formed n ms) {m : Member} (hm : m ∈ ms) (hr : m.role = .current) {m' : Member}
    (hm' : m' ∈ ms) (hne : m' ≠ m) : m'.role ≠ .current ∧ m'.bindPos < m.bindPos := by
  have hp := h.ordered
  clear h
  induction ms with
  | nil => cases hm
  | cons a ms ih =>
      rw [List.pairwise_cons] at hp
      rcases List.mem_cons.mp hm with rfl | htail
      · rcases List.mem_cons.mp hm' with rfl | htail'
        · exact absurd rfl hne
        · exact absurd hr (hp.1 m' htail').2.2
      · rcases List.mem_cons.mp hm' with rfl | htail'
        · exact ⟨(hp.1 m htail).2.2, (hp.1 m htail).2.1⟩
        · exact ih htail htail' hp.2

/-- A member is found under its own id. -/
theorem Formed.memberEnd (h : Formed n ms) {m : Member} (hm : m ∈ ms) :
    memberEnd ms m.cid = some (decide (m.role = .terminal)) := by
  have hf : ms.find? (·.cid = m.cid) = some m := by
    cases hf : ms.find? (·.cid = m.cid) with
    | none => simpa using List.find?_eq_none.mp hf m hm
    | some m' =>
        have hc : m'.cid = m.cid := by simpa using List.find?_some hf
        rw [List.inj_on_of_nodup_map h.nodup (List.mem_of_find?_eq_some hf) hm hc]
  rw [Observation.memberEnd, hf]
  rfl

theorem memberEnd_eq_none : memberEnd ms cid = none ↔ ∀ m ∈ ms, m.cid ≠ cid := by
  simp [memberEnd]

/-- A change of roles that lets no member become current keeps the list well formed. -/
theorem Formed.map {f : Member → Member} (h : Formed n ms) (hc : ∀ m, (f m).cid = m.cid)
    (hp : ∀ m, (f m).bindPos = m.bindPos) (hr : ∀ m, m.role ≠ .current → (f m).role ≠ .current) :
    Formed n (ms.map f) := by
  refine ⟨?_, fun m hm => ?_⟩
  · rw [List.pairwise_map]
    exact h.ordered.imp fun ⟨h₁, h₂, h₃⟩ => ⟨by rwa [hc, hc], by rwa [hp, hp], hr _ h₃⟩
  · obtain ⟨m', hm', rfl⟩ := List.mem_map.mp hm
    rw [hp]
    exact h.bound m' hm'

theorem memberEnd_map {f : Member → Member} (hc : ∀ m, (f m).cid = m.cid) (ms : List Member)
    (cid : ClientOrderId) : memberEnd (ms.map f) cid =
      (ms.find? (·.cid = cid)).map fun m => decide ((f m).role = .terminal) := by
  simp only [memberEnd, List.find?_map, Function.comp_def, hc, Option.map_map]

/-! ## The operations -/

namespace WireState

theorem setRole_eq_map (h : Formed n ms) (role : MemberRole) (cid : ClientOrderId) :
    setRole role cid ms = ms.map fun m => if m.cid = cid then { m with role := role } else m := by
  have hn := h.nodup
  clear h
  induction ms with
  | nil => rfl
  | cons a ms ih =>
      rw [List.map_cons, List.nodup_cons] at hn
      simp only [setRole, List.map_cons]
      split
      · rename_i ha
        congr 1
        refine (List.map_congr_left fun m hm => ?_).trans (List.map_id _) |>.symm
        rw [if_neg]
        · rfl
        · rintro rfl
          exact hn.1 (ha ▸ List.mem_map_of_mem hm)
      · rw [ih hn.2]

theorem terminalize_formed {ws : WireState} (h : Formed n ws.members) (cid : ClientOrderId) :
    Formed n (ws.terminalize cid).members := by
  rw [terminalize, setRole_eq_map h]
  refine h.map (fun m => ?_) (fun m => ?_) fun m hm => ?_
  · split <;> rfl
  · split <;> rfl
  · split
    · simp
    · exact hm

theorem terminalize_end {ws : WireState} (h : Formed n ws.members) (cid c : ClientOrderId) :
    memberEnd (ws.terminalize cid).members c =
      if c = cid then (memberEnd ws.members c).map fun _ => true else memberEnd ws.members c := by
  rw [terminalize, setRole_eq_map h, memberEnd_map (fun m => by split <;> rfl), memberEnd]
  have hfound : ∀ m, ws.members.find? (·.cid = c) = some m → m.cid = c := fun m hm => by
    simpa using List.find?_some hm
  cases hf : ws.members.find? (·.cid = c) with
  | none => simp
  | some m =>
      have hc := hfound m hf
      by_cases hcid : c = cid
      · simp [hc, hcid]
      · simp [hc, hcid]

theorem bind_formed {ws : WireState} {pos : Nat} (h : Formed pos ws.members) (cid : ClientOrderId) :
    Formed (pos + 1) (ws.bind pos cid).members := by
  simp only [bind]
  split
  · exact h.mono (Nat.le_succ _)
  · rename_i hnew
    have hmap : Formed pos (ws.members.map fun m =>
        if m.role ≠ .terminal then { m with role := .superseded } else m) :=
      h.map (fun m => by split <;> rfl) (fun m => by split <;> rfl) fun m hm => by split <;> simp [hm]
    refine ⟨?_, fun m hm => ?_⟩
    · dsimp only
      rw [List.pairwise_append]
      refine ⟨hmap.ordered, List.pairwise_singleton _ _, fun a ha b hb => ?_⟩
      obtain rfl := List.mem_singleton.mp hb
      refine ⟨?_, hmap.bound a ha, ?_⟩
      · obtain ⟨m, hm, rfl⟩ := List.mem_map.mp ha
        simp only [hasMember, List.any_eq_true, decide_eq_true_eq, not_exists, not_and] at hnew
        have := hnew m hm
        split <;> exact this
      · obtain ⟨m, _, rfl⟩ := List.mem_map.mp ha
        split
        · simp
        · rename_i hr
          simp only [ne_eq, Decidable.not_not] at hr
          simp [hr]
    · rcases List.mem_append.mp hm with hm | hm
      · exact (hmap.bound m hm).trans (Nat.lt_succ_self _)
      · obtain rfl := List.mem_singleton.mp hm
        exact Nat.lt_succ_self _

theorem bind_end (ws : WireState) (pos : Nat) (cid c : ClientOrderId) :
    memberEnd (ws.bind pos cid).members c =
      (memberEnd ws.members c).or (if c = cid then some false else none) := by
  have hend : ∀ c, memberEnd (ws.members.map fun m =>
      if m.role ≠ .terminal then { m with role := .superseded } else m) c = memberEnd ws.members c := by
    intro c
    rw [memberEnd_map (fun m => by split <;> rfl), memberEnd]
    congr 1
    funext m
    by_cases hr : m.role = .terminal <;> simp [hr]
  simp only [bind]
  split
  · rename_i hmem
    simp only [hasMember, List.any_eq_true, decide_eq_true_eq] at hmem
    obtain ⟨m, hm, hc⟩ := hmem
    cases he : memberEnd ws.members c with
    | some b => rfl
    | none =>
        rw [if_neg]
        · rfl
        · rintro rfl
          exact memberEnd_eq_none.mp he m hm hc
  · dsimp only
    rw [← hend c]
    simp only [memberEnd, List.find?_append, List.find?_cons, List.find?_nil]
    cases List.find? (fun x => decide (x.cid = c)) (ws.members.map fun m =>
        if m.role ≠ .terminal then { m with role := .superseded } else m) with
    | some m => rfl
    | none =>
        by_cases hc : c = cid
        · simp [hc]
        · simp [hc, show ¬ cid = c from fun h => hc h.symm]

/-! ## What the order part of a record does -/

/-- What a core record does to the members depends on the members only. -/
theorem core_members_congr {ws ws' : WireState} (h : ws.members = ws'.members) (pos : Nat)
    (o : OrderTxnRecord) (l : LedgerId) (w : VenueOrderId) (rec : JournalRecord) :
    (ws.core pos o l w rec).members = (ws'.core pos o l w rec).members := by
  have hbind : ∀ cid, (ws.bind pos cid).members = (ws'.bind pos cid).members := by
    intro cid
    simp only [bind, hasMember, h]
    split <;> simp [*]
  cases rec with
  | venueBoundCid cid wire =>
      simp only [core]
      split
      · exact hbind cid
      · exact h
  | orderTerminal _ _ _ _ _ _ _ => simp only [core, terminalize]; split <;> simp [h]
  | halted _ => simp only [core, terminalize]; split <;> simp [h]
  | ownActionCid _ _ =>
      simp only [core, bump]
      split <;> split <;> exact h
  | _ => exact h

theorem core_members_unmarked (ws : WireState) (pos : Nat) (o : OrderTxnRecord) (l : LedgerId)
    (w : VenueOrderId) {rec : JournalRecord} (h : rec.isMark = false) :
    (ws.core pos o l w rec).members = ws.members := by
  cases rec with
  | venueBoundCid _ _ => cases h
  | orderTerminal _ _ _ _ _ _ _ => cases h
  | halted _ => cases h
  | ownActionCid _ _ => simp only [core, bump]; split <;> rfl
  | _ => rfl

/-- Only the marks change the members. -/
theorem cores_members (pos : Nat) (o : OrderTxnRecord) (l : LedgerId) (w : VenueOrderId)
    (recs : List JournalRecord) {ws ws' : WireState} (h : ws.members = ws'.members) :
    (recs.foldl (core pos o l w) ws).members =
      ((recs.filter (·.isMark)).foldl (core pos o l w) ws').members := by
  induction recs generalizing ws ws' with
  | nil => exact h
  | cons rec recs ih =>
      rw [List.foldl_cons]
      cases hm : rec.isMark with
      | true =>
          rw [List.filter_cons_of_pos hm, List.foldl_cons]
          exact ih (core_members_congr h pos o l w rec)
      | false =>
          rw [List.filter_cons_of_neg (by simp [hm])]
          exact ih ((core_members_unmarked ws pos o l w hm).trans h)

theorem foldOrder_members (ws : WireState) (pos : Nat) (o : OrderTxnRecord) (l : LedgerId)
    (w : VenueOrderId) : (ws.foldOrder pos o l w).members =
      ((o.coreRecords.filter (·.isMark)).foldl (core pos o l w) ws).members := by
  rw [← cores_members pos o l w o.coreRecords rfl]
  simp only [foldOrder]
  split
  · simp only [WireRegistry.dischargeEnd]
    split <;> rfl
  · rfl

theorem core_end {rec : JournalRecord} (h : rec.isEnd = true) (ws : WireState) (pos : Nat)
    (o : OrderTxnRecord) (l : LedgerId) (w : VenueOrderId) : ws.core pos o l w rec =
      if l = o.ledger then ws.terminalize o.clientOrderId else ws := by
  cases rec <;> first | rfl | cases h

/-- The marks of a binding on a wire: the order becomes a member where it was bound to that wire. -/
theorem binds_members {ctx d : OrderCtx} {bs : List JournalRecord} (hb : Binds ctx bs d) {ws : WireState}
    {pos : Nat} (hf : Formed pos ws.members) (o : OrderTxnRecord) (l : LedgerId) (w : VenueOrderId) :
    Formed (pos + 1) (bs.foldl (core pos o l w) ws).members ∧
      ∀ c, memberEnd (bs.foldl (core pos o l w) ws).members c =
        (memberEnd ws.members c).or
          (if l = o.ledger ∧ c = ctx.clientOrderId ∧ ctx.venueOrderId = none ∧ d.venueOrderId = some w
          then some false else none) := by
  have hmono : Formed (pos + 1) ws.members := hf.mono (Nat.le_succ _)
  cases hb with
  | same h =>
      refine ⟨hmono, fun c => ?_⟩
      rw [if_neg, Option.or_none]
      · rfl
      · rintro ⟨_, _, hn, hs⟩
        rw [h, hn] at hs
        cases hs
  | @bound _ v hc hd =>
      simp only [List.foldl_cons, List.foldl_nil, core, hc, hd, Option.some.injEq, true_and]
      by_cases h : l = o.ledger ∧ w = v
      · rw [if_pos h]
        refine ⟨bind_formed hf _, fun c => ?_⟩
        rw [bind_end]
        simp [h.1, h.2]
      · rw [if_neg h]
        refine ⟨hmono, fun c => ?_⟩
        rw [if_neg, Option.or_none]
        rintro ⟨hl, _, hw⟩
        exact h ⟨hl, hw.symm⟩

end WireState

/-! ## What a round does -/

theorem mem_nonTerminalCids {ws : WireState} (h : Formed n ws.members) :
    cid ∈ ws.nonTerminalCids ↔ memberEnd ws.members cid = some false := by
  simp only [WireState.nonTerminalCids, List.mem_map, List.mem_filter, decide_eq_true_eq]
  constructor
  · rintro ⟨m, ⟨hm, hr⟩, rfl⟩
    rw [h.memberEnd hm, decide_eq_false hr]
  · intro he
    obtain ⟨m, hm, hr⟩ := Option.map_eq_some_iff.mp he
    exact ⟨m, ⟨List.mem_of_find?_eq_some hm, of_decide_eq_false hr⟩, by simpa using List.find?_some hm⟩

theorem closeRoles_formed (h : Formed n ms) (after : List MemberAfter) : Formed n (closeRoles after ms) := by
  refine h.map (fun m => ?_) (fun m => ?_) fun m hm => ?_
  · split
    · split <;> rfl
    · rfl
  · split
    · split <;> rfl
    · rfl
  · split
    · split
      · simp
      · exact hm
    · exact hm

/-- A round ends the members whose orders it left over. -/
theorem closeRoles_end (ms : List Member) (after : List MemberAfter) (cid : ClientOrderId) :
    memberEnd (closeRoles after ms) cid = (memberEnd ms cid).map fun ended =>
      match after.find? (·.clientOrderId = cid) with
      | some a => isTerminalState a.stateAfter || ended
      | none => ended := by
  refine (memberEnd_map (fun m => ?_) ms cid).trans ?_
  · split
    · split <;> rfl
    · rfl
  rw [memberEnd]
  cases hf : ms.find? (·.cid = cid) with
  | none => rfl
  | some m =>
      have hc : m.cid = cid := by simpa using List.find?_some hf
      simp only [Option.map_some, hc]
      cases after.find? (·.clientOrderId = cid) with
      | none => rfl
      | some a => cases ht : isTerminalState a.stateAfter <;> simp [ht]

end Omsrs.Observation
