import Omsrs.Virtual.Lemmas.Order
import Omsrs.Virtual.Broker

/-!
# The books of the users

Every user of the virtual broker has one book: the orders that the user came with, and after them a copy
of each order placed in the user's name since, as the broker answered it. No later call touches a copy.
-/

namespace Omsrs.Virtual
open Omsrs.Lib Omsrs.Replica

variable {F R : Type} [Amount F] {w : World F R} {b b' : VirtualBroker F R}

/-! ## What a call books -/

/-- The user that a placement names. -/
def addressee (args : Args F) : Option String :=
  ((args.get? "userid").bind (·.asStr)).map (·.map Char.toUpper)

/-- The order that an answer hands over. -/
def BrokerReply.data : BrokerReply F → Option (PublicOrder F)
  | .order r => r.data
  | .passthrough _ => none

/-- What a call adds to the book of a user. -/
def entry (w : World F R) (uid : String) : VirtualCall F R → VirtualReply F → List (VirtualOrder F R)
  | .orderPlace _ args, .order reply =>
      if addressee args = some uid then (reply.data.map fun clone => ⟨clone, w.seed⟩).toList else []
  | _, _ => []

/-- What the calls add to it. -/
def booked (w : World F R) (uid : String) :
    VirtualBroker F R → List (VirtualCall F R) → List (VirtualOrder F R)
  | _, [] => []
  | b, c :: cs =>
      entry w uid c ((virtualBroker w).step b c).1 ++ booked w uid ((virtualBroker w).step b c).2 cs

theorem booked_append (uid : String) (b : VirtualBroker F R) (cs ds : List (VirtualCall F R)) :
    booked w uid b (cs ++ ds) = booked w uid b cs ++ booked w uid ((virtualBroker w).final b cs) ds := by
  induction cs generalizing b with
  | nil => rfl
  | cons c cs ih => simp [booked, ih]

/-! ## The users of a broker -/

def ids (users : List (VUser F R)) : List String := users.map (·.userid)

/-- The users have ids of their own, and the broker knows them. -/
structure Enrolled (b : VirtualBroker F R) : Prop where
  distinct : (ids b.users).Nodup
  clients : ∀ uid, b.clients.contains uid = true ↔ uid ∈ ids b.users

/-- A user whose book grew. -/
structure Grown (more : List (VirtualOrder F R)) (u u' : VUser F R) : Prop where
  userid : u'.userid = u.userid
  name : u'.name = u.name
  orders : u'.orders = u.orders ++ more

omit [Amount F] in
theorem Grown.none (u : VUser F R) : Grown [] u u := ⟨rfl, rfl, by simp⟩

omit [Amount F] in
theorem attach_ids (uid : String) (clone : PublicOrder F) (seed : R) (users : List (VUser F R)) :
    ids (attach uid clone seed users) = ids users := by
  induction users with
  | nil => rfl
  | cons u users ih =>
      unfold attach
      split
      · rfl
      · simp only [ids, List.map_cons] at ih ⊢
        rw [ih]

omit [Amount F] in
/-- The copy goes to the user of that id. -/
theorem attach_get {uid : String} {clone : PublicOrder F} {seed : R} {users : List (VUser F R)}
    (hd : (ids users).Nodup) {k : Nat} {u : VUser F R} (hk : users[k]? = some u) :
    ∃ u', (attach uid clone seed users)[k]? = some u' ∧
      Grown (if u.userid = uid then [⟨clone, seed⟩] else []) u u' := by
  induction users generalizing k with
  | nil => cases hk
  | cons v users ih =>
      obtain ⟨hv, hrest⟩ := List.nodup_cons.mp hd
      unfold attach
      split
      · rename_i hvu
        cases k with
        | zero =>
            cases hk
            exact ⟨_, rfl, by rw [if_pos hvu]; exact ⟨rfl, rfl, rfl⟩⟩
        | succ k =>
            -- another user of this id would come twice
            have hne : u.userid ≠ uid := fun h =>
              hv (List.mem_map.mpr ⟨u, List.mem_of_getElem? hk, h.trans hvu.symm⟩)
            exact ⟨u, hk, by rw [if_neg hne]; exact .none u⟩
      · rename_i hvu
        cases k with
        | zero =>
            cases hk
            exact ⟨u, rfl, by rw [if_neg hvu]; exact .none u⟩
        | succ k => exact ih hrest hk

/-! ## One call -/

theorem isFailure_broker (b : VirtualBroker F R) : (b.isFailure w).2 = { b with drawn := b.drawn + 1 } := rfl

/-- A placement leaves the clients, and attaches what it hands over to the user it names. -/
theorem orderPlace_users (b : VirtualBroker F R) (now : Int) (args : Args F) :
    (b.orderPlace w now args).2.clients = b.clients ∧
      (((b.orderPlace w now args).1.data = none ∧ (b.orderPlace w now args).2.users = b.users) ∨
        ∃ clone, (b.orderPlace w now args).1.data = some clone ∧
          ((∃ uid, addressee args = some uid ∧ b.clients.contains uid = true ∧
              (b.orderPlace w now args).2.users = attach uid clone w.seed b.users) ∨
            ((∀ uid, addressee args = some uid → b.clients.contains uid = false) ∧
              (b.orderPlace w now args).2.users = b.users))) := by
  unfold VirtualBroker.orderPlace
  cases args.get? "response" with
  | some v => exact ⟨rfl, .inl ⟨rfl, rfl⟩⟩
  | none =>
      dsimp only
      have hroll := isFailure_broker (w := w) b
      generalize b.isFailure w = rolled at hroll ⊢
      obtain ⟨fails, b₁⟩ := rolled
      obtain rfl : b₁ = { b with drawn := b.drawn + 1 } := hroll
      cases fails with
      | true => exact ⟨rfl, .inl ⟨rfl, rfl⟩⟩
      | false =>
          cases missingFields args with
          | cons fld rest => exact ⟨rfl, .inl ⟨rfl, rfl⟩⟩
          | nil =>
              simp only [Bool.false_eq_true, if_false]
              cases VirtualOrder.fromInit w (VirtualBroker.placeInit now (w.uuid b.issued) args) with
              | error msg => exact ⟨rfl, .inl ⟨rfl, rfl⟩⟩
              | ok order =>
                  simp only [OrdMap.get?_insert_self, Option.bind_some, clonedCloneWeak_eq]
                  have haddr : ((args.get? "userid").bind fun v : Value F => v.asStr).map
                      (fun s : String => s.map Char.toUpper) = addressee args := rfl
                  rw [haddr]
                  cases addressee args with
                  | none => exact ⟨rfl, .inr ⟨_, rfl, .inr ⟨by simp, rfl⟩⟩⟩
                  | some uid =>
                      dsimp only
                      split
                      · rename_i hc
                        exact ⟨rfl, .inr ⟨_, rfl, .inl ⟨uid, rfl, hc, rfl⟩⟩⟩
                      · rename_i hc
                        refine ⟨rfl, .inr ⟨_, rfl, .inr ⟨?_, rfl⟩⟩⟩
                        simpa using hc

theorem orderModify_users (b : VirtualBroker F R) (now : Int) (orderId : String) (args : Args F) :
    (b.orderModify w now orderId args).2.users = b.users ∧
      (b.orderModify w now orderId args).2.clients = b.clients := by
  unfold VirtualBroker.orderModify
  cases args.get? "response" with
  | some v => exact ⟨rfl, rfl⟩
  | none =>
      dsimp only
      have hroll := isFailure_broker (w := w) b
      generalize b.isFailure w = rolled at hroll ⊢
      obtain ⟨fails, b₁⟩ := rolled
      obtain rfl : b₁ = { b with drawn := b.drawn + 1 } := hroll
      cases fails with
      | true => exact ⟨rfl, rfl⟩
      | false => cases b.orders.get? orderId <;> exact ⟨rfl, rfl⟩

theorem orderCancel_users (b : VirtualBroker F R) (now : Int) (orderId : String) (args : Args F) :
    (b.orderCancel w now orderId args).2.users = b.users ∧
      (b.orderCancel w now orderId args).2.clients = b.clients := by
  unfold VirtualBroker.orderCancel
  cases args.get? "response" with
  | some v => exact ⟨rfl, rfl⟩
  | none =>
      dsimp only
      have hroll := isFailure_broker (w := w) b
      generalize b.isFailure w = rolled at hroll ⊢
      obtain ⟨fails, b₁⟩ := rolled
      obtain rfl : b₁ = { b with drawn := b.drawn + 1 } := hroll
      cases fails with
      | true => exact ⟨rfl, rfl⟩
      | false =>
          cases b.orders.get? orderId with
          | none => exact ⟨rfl, rfl⟩
          | some order =>
              simp only [Bool.false_eq_true, if_false]
              constructor <;> split <;> rfl

theorem get_users (b : VirtualBroker F R) (now : Int) (orderId : String) (status : Status) :
    (b.get w now orderId status).2.users = b.users ∧ (b.get w now orderId status).2.clients = b.clients := by
  unfold VirtualBroker.get
  split <;> exact ⟨rfl, rfl⟩

theorem setFailureRate_users (b : VirtualBroker F R) (v : F) :
    (b.setFailureRate v).2.users = b.users ∧ (b.setFailureRate v).2.clients = b.clients := by
  unfold VirtualBroker.setFailureRate
  split <;> exact ⟨rfl, rfl⟩

/-- What a call does to the users: a new one at the end, nothing, or a copy for one. -/
inductive UserStep (b b' : VirtualBroker F R) (c : VirtualCall F R) (reply : VirtualReply F) : Prop
  | joined (user : VUser F R) (hc : c = .addUser user) (hnew : b.clients.contains user.userid = false)
      (hclients : b'.clients = b.clients.insert user.userid ()) (husers : b'.users = b.users ++ [user])
  | refused (user : VUser F R) (hc : c = .addUser user) (hold : b.clients.contains user.userid = true)
      (hb : b' = b)
  | unbooked (hc : ∀ user, c ≠ .addUser user) (hclients : b'.clients = b.clients)
      (husers : b'.users = b.users)
      (hentry : ∀ uid, b.clients.contains uid = true → entry w uid c reply = [])
  | copied (uid : String) (clone : PublicOrder F) (hc : ∀ user, c ≠ .addUser user)
      (hclients : b'.clients = b.clients) (husers : b'.users = attach uid clone w.seed b.users)
      (hentry : ∀ uid', entry w uid' c reply = if uid' = uid then [⟨clone, w.seed⟩] else [])

theorem step_users (b : VirtualBroker F R) (c : VirtualCall F R) :
    UserStep (w := w) b ((virtualBroker w).step b c).2 c ((virtualBroker w).step b c).1 := by
  cases c with
  | orderPlace now args =>
      obtain ⟨hclients, h⟩ := orderPlace_users (w := w) b now args
      have hc : ∀ user : VUser F R, VirtualCall.orderPlace now args ≠ .addUser user := by simp
      rcases h with ⟨hdata, husers⟩ | ⟨clone, hdata, ⟨uid, haddr, -, husers⟩ | ⟨haddr, husers⟩⟩
      · refine .unbooked hc hclients husers fun uid _ => ?_
        simp [virtualBroker, VirtualBroker.step, entry, hdata]
      · refine .copied uid clone hc hclients husers fun uid' => ?_
        simp only [virtualBroker, VirtualBroker.step, entry, haddr, hdata, Option.some.injEq,
          Option.map_some, Option.toList_some]
        by_cases hu : uid' = uid
        · simp [hu]
        · simp [hu, Ne.symm hu]
      · refine .unbooked hc hclients husers fun uid huid => ?_
        have hne : addressee args ≠ some uid := fun he => by
          rw [haddr uid he] at huid
          cases huid
        simp [virtualBroker, VirtualBroker.step, entry, hne]
  | orderModify now orderId args =>
      obtain ⟨hu, hc⟩ := orderModify_users (w := w) b now orderId args
      exact .unbooked (by simp) hc hu fun _ _ => rfl
  | orderCancel now orderId args =>
      obtain ⟨hu, hc⟩ := orderCancel_users (w := w) b now orderId args
      exact .unbooked (by simp) hc hu fun _ _ => rfl
  | get now orderId status =>
      obtain ⟨hu, hc⟩ := get_users (w := w) b now orderId status
      exact .unbooked (by simp) hc hu fun _ _ => rfl
  | setFailureRate v =>
      obtain ⟨hu, hc⟩ := setFailureRate_users b v
      exact .unbooked (by simp) hc hu fun _ _ => rfl
  | addUser user =>
      cases hold : b.clients.contains user.userid with
      | true =>
          refine .refused user rfl hold ?_
          simp [virtualBroker, VirtualBroker.step, VirtualBroker.addUser, hold]
      | false =>
          refine .joined user rfl hold ?_ ?_
          · simp [virtualBroker, VirtualBroker.step, VirtualBroker.addUser, hold]
          · simp [virtualBroker, VirtualBroker.step, VirtualBroker.addUser, hold]

omit [Amount F] in
theorem UserStep.enrolled {c : VirtualCall F R} {reply : VirtualReply F} (h : UserStep (w := w) b b' c reply)
    (hb : Enrolled b) : Enrolled b' := by
  cases h with
  | joined user hc hnew hclients husers =>
      have hids : ids b'.users = ids b.users ++ [user.userid] := by simp [ids, husers]
      have hout : user.userid ∉ ids b.users := fun hin => by
        rw [(hb.clients _).mpr hin] at hnew
        cases hnew
      refine ⟨?_, fun uid => ?_⟩
      · rw [hids]
        exact List.nodup_append.mpr ⟨hb.distinct, by simp, by
          intro a ha b hb' hab
          rw [List.mem_singleton.mp hb'] at hab
          exact hout (hab ▸ ha)⟩
      · rw [hids, hclients, List.mem_append, List.mem_singleton, ← hb.clients uid]
        unfold OrdMap.contains
        rw [OrdMap.get?_insert]
        by_cases hu : uid = user.userid
        · simp [hu]
        · simp [hu]
  | refused user hc hold hb' => exact hb' ▸ hb
  | unbooked hc hclients husers hentry =>
      exact ⟨by rw [husers]; exact hb.distinct, fun uid => by rw [hclients, husers]; exact hb.clients uid⟩
  | copied uid clone hc hclients husers hentry =>
      have hids : ids b'.users = ids b.users := by rw [husers, attach_ids]
      exact ⟨by rw [hids]; exact hb.distinct, fun uid => by rw [hclients, hids]; exact hb.clients uid⟩

omit [Amount F] in
/-- The book of a user that was there. -/
theorem UserStep.grown {c : VirtualCall F R} {reply : VirtualReply F} (h : UserStep (w := w) b b' c reply)
    (hb : Enrolled b) {k : Nat} {u : VUser F R} (hk : b.users[k]? = some u) :
    ∃ u', b'.users[k]? = some u' ∧ Grown (entry w u.userid c reply) u u' := by
  have hin : b.clients.contains u.userid = true :=
    (hb.clients _).mpr (List.mem_map_of_mem (List.mem_of_getElem? hk))
  cases h with
  | joined user hc hnew hclients husers =>
      subst hc
      refine ⟨u, ?_, .none u⟩
      rw [husers, List.getElem?_append_left (List.getElem?_eq_some_iff.mp hk).1]
      exact hk
  | refused user hc hold hb' =>
      subst hc
      rw [hb']
      exact ⟨u, hk, .none u⟩
  | unbooked hc hclients husers hentry =>
      rw [husers, hentry _ hin]
      exact ⟨u, hk, .none u⟩
  | copied uid clone hc hclients husers hentry =>
      rw [husers, hentry]
      exact attach_get hb.distinct hk

/-! ## Any run -/

theorem enrolled_run (hb : Enrolled b) (cs : List (VirtualCall F R)) :
    Enrolled ((virtualBroker w).final b cs) :=
  (virtualBroker w).invariant (I := Enrolled) (fun b c h => (step_users b c).enrolled h) hb cs

omit [Amount F] in
theorem UserStep.ids_iff {c : VirtualCall F R} {reply : VirtualReply F} (h : UserStep (w := w) b b' c reply)
    (hb : Enrolled b) (uid : String) :
    uid ∈ ids b'.users ↔ uid ∈ ids b.users ∨ ∃ user, c = .addUser user ∧ user.userid = uid := by
  cases h with
  | joined user hc hnew hclients husers =>
      subst hc
      simp [ids, husers, @eq_comm _ uid]
  | refused user hc hold hb' =>
      subst hc hb'
      have hin := (hb.clients _).mp hold
      constructor
      · exact .inl
      · rintro (h | ⟨user', hc, rfl⟩)
        · exact h
        · cases hc
          exact hin
  | unbooked hc hclients husers hentry =>
      rw [husers]
      simp [hc]
  | copied uid' clone hc hclients husers hentry =>
      rw [husers, attach_ids]
      simp [hc]

theorem ids_run (hb : Enrolled b) (cs : List (VirtualCall F R)) (uid : String) :
    uid ∈ ids ((virtualBroker w).final b cs).users ↔
      uid ∈ ids b.users ∨ ∃ user, .addUser user ∈ cs ∧ user.userid = uid := by
  induction cs generalizing b with
  | nil => simp
  | cons c cs ih =>
      have hstep := step_users (w := w) b c
      rw [Machine.final_cons, ih (hstep.enrolled hb), hstep.ids_iff hb, or_assoc]
      refine or_congr_right ?_
      constructor
      · rintro (⟨user, rfl, hu⟩ | ⟨user, hm, hu⟩)
        · exact ⟨user, by simp, hu⟩
        · exact ⟨user, List.mem_cons_of_mem _ hm, hu⟩
      · rintro ⟨user, hm, hu⟩
        rcases List.mem_cons.mp hm with he | hm
        · exact .inl ⟨user, he.symm, hu⟩
        · exact .inr ⟨user, hm, hu⟩

/-- Who is there now and was not at first joined in between. -/
theorem books_run (hb : Enrolled b) (hempty : b.users = []) (cs : List (VirtualCall F R)) :
    ∀ u ∈ ((virtualBroker w).final b cs).users, ∃ before user after, cs = before ++ .addUser user :: after ∧
      ((virtualBroker w).final b before).clients.contains u.userid = false ∧
      Grown (booked w u.userid ((virtualBroker w).final b (before ++ [.addUser user])) after) user u := by
  induction cs using List.reverseRecOn with
  | nil =>
      rw [Machine.final_nil, hempty]
      simp
  | append_singleton cs c ih =>
      intro u hu
      have hcs := enrolled_run (w := w) hb cs
      have hstep := step_users (w := w) ((virtualBroker w).final b cs) c
      have hfinal : (virtualBroker w).final b (cs ++ [c]) =
          ((virtualBroker w).step ((virtualBroker w).final b cs) c).2 := by
        rw [Machine.final_append]
        rfl
      rw [hfinal] at hu
      obtain ⟨k, hk⟩ := List.mem_iff_getElem?.mp hu
      cases h₁ : ((virtualBroker w).final b cs).users[k]? with
      | some u₁ =>
          obtain ⟨before, user, after, rfl, hfresh, hg⟩ := ih u₁ (List.mem_of_getElem? h₁)
          obtain ⟨u', h', hg'⟩ := hstep.grown hcs h₁
          rw [hk] at h'
          cases h'
          refine ⟨before, user, after ++ [c], by simp, by rw [hg'.userid]; exact hfresh, ?_⟩
          refine ⟨hg'.userid.trans hg.userid, hg'.name.trans hg.name, ?_⟩
          rw [hg'.orders, hg.orders, hg'.userid, booked_append, ← Machine.final_append]
          simp [booked]
      | none =>
          have hlen := List.getElem?_eq_none_iff.mp h₁
          cases hstep with
          | joined user hc hnew hclients husers =>
              rw [husers, List.getElem?_append_right hlen] at hk
              obtain rfl := List.mem_singleton.mp (List.mem_of_getElem? hk)
              exact ⟨cs, u, [], by rw [hc], hnew, .none u⟩
          | refused user hc hold hb' =>
              rw [hb', h₁] at hk
              cases hk
          | unbooked hc hclients husers hentry =>
              rw [husers, h₁] at hk
              cases hk
          | copied uid clone hc hclients husers hentry =>
              have hlt := (List.getElem?_eq_some_iff.mp hk).1
              have hids := congrArg List.length (attach_ids uid clone w.seed ((virtualBroker w).final b cs).users)
              rw [← husers] at hids
              simp only [ids, List.length_map] at hids
              omega

/-- Over every run of calls on a new broker: the users have ids of their own, those of the clients, which
are the ids that were added; and the book of a user is what the user joined with, and after it the copies
that were handed over in the user's name since. -/
theorem user_books [OfScientific F] (w : World F R) (cs : List (VirtualCall F R)) :
    let b := (virtualBroker w).final .new cs
    Enrolled b ∧ (∀ uid, uid ∈ ids b.users ↔ ∃ user, .addUser user ∈ cs ∧ user.userid = uid) ∧
      ∀ u ∈ b.users, ∃ before user after, cs = before ++ .addUser user :: after ∧
        ((virtualBroker w).final .new before).clients.contains u.userid = false ∧
        Grown (booked w u.userid ((virtualBroker w).final .new (before ++ [.addUser user])) after) user u := by
  intro b
  have hnew : Enrolled (VirtualBroker.new : VirtualBroker F R) :=
    ⟨.nil, fun uid => by simp [VirtualBroker.new, ids, OrdMap.contains]⟩
  refine ⟨enrolled_run hnew cs, fun uid => ?_, ?_⟩
  · rw [ids_run hnew]
    simp [VirtualBroker.new, ids]
  · exact books_run hnew rfl cs

end Omsrs.Virtual
