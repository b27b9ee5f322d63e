import Omsrs.Replica.Theorems.Interleaving

/-!
# The prices of the fills

A pass writes the prices back by position. They are the right ones as long as every row it writes to holds
an order of the symbol that the pass found there when it began.
-/

namespace Omsrs.Replica
open Omsrs.Lib

variable {F : Type} [Quantity F] {uuid : Nat → String}

/-- At some time of the run the instrument of the symbol had this last price. -/
def WasPriced (uuid : Nat → String) (acts : List (AsyncAction F)) (symbol : String) (price : F) : Prop :=
  ∃ pre, pre <+: acts ∧ ∃ i, ((asyncReplicaBroker uuid).final .new pre).inner.instruments.get? symbol =
    some i ∧ i.lastPrice = price

/-- Every fill carries a price that the instrument of its own order had at some time. -/
def FillsPriced (uuid : Nat → String) (acts : List (AsyncAction F)) : Prop :=
  ∀ f ∈ ((asyncReplicaBroker uuid).final .new acts).inner.fills,
    ∃ o, ((asyncReplicaBroker uuid).final .new acts).inner.cell f.order = some o ∧
      WasPriced uuid acts o.symbol f.lastPrice

/-! ## The condition -/

/-- The broker and, beside it, the rows that every pass has collected, by the number of its call. -/
structure Watched (F : Type) where
  broker : AsyncReplicaBroker F
  rows : OrdMap Nat (List Handle)

namespace Watched

def new : Watched F := ⟨.new, .empty⟩

def rowsOf (s : Watched F) (i : Nat) : List Handle := (s.rows.get? i).getD []

/-- The first section of a pass collects its rows. -/
def collect (s : Watched F) (i : Nat) : Option (Task F) → OrdMap Nat (List Handle)
  | some .fillHandles => s.rows.insert i s.broker.inner.fillHandles
  | _ => s.rows

def step (uuid : Nat → String) (s : Watched F) (a : AsyncAction F) : Unit × Watched F :=
  ((), ⟨((asyncReplicaBroker uuid).step s.broker a).2,
    match a with
    | .call _ => s.rows
    | .advance i => s.collect i s.broker.tasks[i]?⟩)

end Watched

def watched (uuid : Nat → String) : Machine (Watched F) (AsyncAction F) Unit := ⟨Watched.step uuid⟩

def ReplicaBroker.symbolOf (b : ReplicaBroker F) (h : Handle) : Option String := (b.cell h).map (·.symbol)

/-- Where a pass ends, every row it writes to holds an order of the symbol that the pass found there. -/
def WritesInPlace (s : Watched F) : AsyncAction F → Prop
  | .call _ => True
  | .advance i =>
      match s.broker.tasks[i]? with
      | some (.fillSymbol pass []) =>
          ∀ w ∈ pass.priceWrites, ∀ h ∈ s.broker.inner.fillHandles[w.1]?,
            (s.rowsOf i)[w.1]?.bind s.broker.inner.symbolOf = s.broker.inner.symbolOf h
      | _ => True

instance (s : Watched F) : (a : AsyncAction F) → Decidable (WritesInPlace s a)
  | .call _ => isTrue trivial
  | .advance i => by
      dsimp only [WritesInPlace]
      split <;> infer_instance

theorem watched_idle {s : Watched F} {i : Nat} (h : s.broker.tasks[i]? = none) :
    ((watched uuid).step s (.advance i)).2 = s := by
  simp only [watched, Watched.step, asyncReplicaBroker, AsyncReplicaBroker.step, h, Watched.collect]

/-- One section of a task, and what it collects. -/
theorem watched_advance {s : Watched F} {i : Nat} {task : Task F} (h : s.broker.tasks[i]? = some task) :
    ((watched uuid).step s (.advance i)).2 =
      ⟨⟨(task.section s.broker.inner).2, s.broker.tasks.set i (task.section s.broker.inner).1⟩,
        s.collect i (some task)⟩ := by
  simp only [watched, Watched.step, asyncReplicaBroker, AsyncReplicaBroker.step, h]

theorem watched_broker (s : Watched F) (acts : List (AsyncAction F)) :
    ((watched uuid).final s acts).broker = (asyncReplicaBroker uuid).final s.broker acts := by
  induction acts generalizing s with
  | nil => rfl
  | cons a acts ih => exact ih _

/-! ## Symbols stay -/

/-- Every order stays, with its symbol. -/
def KeepsSymbols (b b' : ReplicaBroker F) : Prop :=
  ∀ h o, b.cell h = some o → ∃ o', b'.cell h = some o' ∧ o'.symbol = o.symbol

omit [Quantity F] in
theorem KeepsSymbols.of_cells {b b' : ReplicaBroker F} (h : b'.cells = b.cells) : KeepsSymbols b b' := by
  intro j o ho
  refine ⟨o, ?_, rfl⟩
  rw [ReplicaBroker.cell, h]
  exact ho

omit [Quantity F] in
theorem onCell_keepsSymbols {f : VOrder F → VOrder F} (hf : ∀ o, (f o).symbol = o.symbol)
    (b : ReplicaBroker F) (h : Handle) : KeepsSymbols b (b.onCell h f) := by
  intro j o ho
  rw [ReplicaBroker.cell_onCell]
  split
  · exact ⟨f o, by rw [ho]; rfl, hf o⟩
  · exact ⟨o, ho, rfl⟩

theorem section_keepsSymbols (b : ReplicaBroker F) (task : Task F) :
    KeepsSymbols b (task.section b).2 := by
  have hsame : KeepsSymbols b b := .of_cells rfl
  unfold Task.section
  split
  case h_1 | h_3 | h_6 => split <;> exact hsame
  case h_2 => exact onCell_keepsSymbols (fun o => (o.modify_frame _).2) _ _
  case h_4 | h_7 =>
    split
    · exact hsame
    · split
      · exact hsame
      · exact onCell_keepsSymbols (fun o => (rfl : o.cancel.symbol = o.symbol)) _ _
  case h_12 => split <;> exact hsame
  case h_13 => exact onCell_keepsSymbols (fun o => (VOrder.applyFillUpdate_frame _ o).2.1) _ _
  all_goals exact hsame

theorem place_keepsSymbols {b b' : ReplicaBroker F} {orderId : String} {args : Args F} {h : Handle}
    (hp : b.place pushCompletedUnique orderId args = some (h, b')) : KeepsSymbols b b' := by
  obtain ⟨-, ⟨o, ho, -⟩, -⟩ := place_placed hp
  intro j o' hj
  refine ⟨o', ?_, rfl⟩
  rw [ReplicaBroker.cell, ho, List.getElem?_append_left]
  · exact hj
  · exact (List.getElem?_eq_some_iff.mp hj).1

/-- A new fill carries the price that its instrument has now. -/
theorem place_fills {b b' : ReplicaBroker F} {orderId : String} {args : Args F} {h : Handle}
    (hp : b.place pushCompletedUnique orderId args = some (h, b')) :
    ∀ f ∈ b'.fills, f ∈ b.fills ∨ ∃ o i, b'.cell f.order = some o ∧
      b.instruments.get? o.symbol = some i ∧ i.lastPrice = f.lastPrice := by
  unfold ReplicaBroker.place at hp
  obtain ⟨o, ho, hr⟩ := Option.map_eq_some_iff.mp hp
  dsimp only at hr
  split at hr
  · cases hr
    exact fun f hf => .inl hf
  · rename_i instrument hi
    cases hr
    intro f hf
    rcases List.mem_append.mp hf with hf | hf
    · exact .inl hf
    · obtain rfl := List.mem_singleton.mp hf
      refine .inr ⟨o.applyAsMarket instrument.lastPrice, instrument, ?_, ?_, rfl⟩
      · simp [ReplicaBroker.cell, ReplicaBroker.onCell, ReplicaBroker.register, modify_last]
      · rw [(VOrder.applyAsMarket_frame _ o).2]
        exact hi

/-! ## A pass and its rows -/

/-- The order in the row has a cell, and its instrument had the price. -/
def RowPriced (seen : String → F → Prop) (b : ReplicaBroker F) (h : Handle) (price : F) : Prop :=
  ∃ o, b.cell h = some o ∧ seen o.symbol price

/-- What a pass has kept is about the rows it collected. -/
structure PassRight (seen : String → F → Prop) (b : ReplicaBroker F) (rows : List Handle)
    (pass : Pass F) (todo : List (Nat × Handle)) : Prop where
  prices : ∀ symbol price, pass.prices.get? symbol = some price → seen symbol price
  writes : ∀ w ∈ pass.priceWrites, ∃ h, rows[w.1]? = some h ∧ RowPriced seen b h w.2
  todo : ∀ x ∈ todo, rows[x.1]? = some x.2

def TaskRight (seen : String → F → Prop) (b : ReplicaBroker F) (rows : List Handle) : Task F → Prop
  | .fillPrices todo => ∀ x ∈ todo, rows[x.1]? = some x.2
  | .fillSymbol pass todo => PassRight seen b rows pass todo
  | .fillUpdate pass i handle lastPrice todo | .fillDone pass i handle lastPrice todo =>
      PassRight seen b rows pass todo ∧ rows[i]? = some handle ∧ RowPriced seen b handle lastPrice
  | _ => True

variable {seen : String → F → Prop} {b b' : ReplicaBroker F} {rows : List Handle} {task : Task F}

omit [Quantity F] in
theorem RowPriced.keep {h : Handle} {price : F} (hr : RowPriced seen b h price) (hk : KeepsSymbols b b') :
    RowPriced seen b' h price := by
  obtain ⟨o, ho, hs⟩ := hr
  obtain ⟨o', ho', hsym⟩ := hk h o ho
  exact ⟨o', ho', hsym ▸ hs⟩

omit [Quantity F] in
theorem PassRight.keep {pass : Pass F} {todo : List (Nat × Handle)}
    (h : PassRight seen b rows pass todo) (hk : KeepsSymbols b b') : PassRight seen b' rows pass todo :=
  ⟨h.prices, fun w hw => (h.writes w hw).imp fun _ hr => ⟨hr.1, hr.2.keep hk⟩, h.todo⟩

omit [Quantity F] in
theorem TaskRight.keep (h : TaskRight seen b rows task) (hk : KeepsSymbols b b') :
    TaskRight seen b' rows task := by
  cases task with
  | fillSymbol pass todo => exact PassRight.keep h hk
  | fillUpdate pass i handle lastPrice todo => exact ⟨h.1.keep hk, h.2.1, h.2.2.keep hk⟩
  | fillDone pass i handle lastPrice todo => exact ⟨h.1.keep hk, h.2.1, h.2.2.keep hk⟩
  | fillPrices todo => exact h
  | _ => trivial

omit [Quantity F] in
/-- A price that is written back is that of its position. -/
theorem mem_priceWrites {writes : List (Nat × F)} {fills : List (ReplicaFill F)} {f : ReplicaFill F}
    (h : f ∈ writes.foldl (fun fills w => fills.modify w.1 fun f => { f with lastPrice := w.2 }) fills) :
    f ∈ fills ∨ ∃ w ∈ writes, (fills.map (·.order))[w.1]? = some f.order ∧ f.lastPrice = w.2 := by
  induction writes generalizing fills with
  | nil => exact .inl h
  | cons w writes ih =>
      have hhandles := priceWrites_handles [w] fills
      simp only [List.foldl_cons, List.foldl_nil] at hhandles
      rcases ih h with hf | ⟨w', hw', hrow, hprice⟩
      · obtain ⟨i, hi⟩ := List.mem_iff_getElem?.mp hf
        rw [List.getElem?_modify] at hi
        obtain ⟨f₀, hf₀, heq⟩ := Option.map_eq_some_iff.mp hi
        split at heq
        · rename_i hwi
          subst heq
          refine .inr ⟨w, List.mem_cons_self, ?_, rfl⟩
          simp [hwi, hf₀]
        · exact .inl (heq ▸ List.mem_of_getElem? hf₀)
      · rw [hhandles] at hrow
        exact .inr ⟨w', List.mem_cons_of_mem _ hw', hrow, hprice⟩

/-- The rows a task has collected, after its next section. -/
def Task.rowsAfter (b : ReplicaBroker F) (rows : List Handle) : Task F → List Handle
  | .fillHandles => b.fillHandles
  | _ => rows

omit [Quantity F] in
theorem rowsOf_collect (s : Watched F) (i : Nat) (task : Task F) (broker : AsyncReplicaBroker F) (j : Nat) :
    Watched.rowsOf ⟨broker, s.collect i (some task)⟩ j =
      if j = i then task.rowsAfter s.broker.inner (s.rowsOf i) else s.rowsOf j := by
  by_cases hji : j = i
  · subst hji
    cases task <;> simp [Watched.rowsOf, Watched.collect, Task.rowsAfter]
  · cases task <;> simp [Watched.rowsOf, Watched.collect, hji, OrdMap.get?_insert]

theorem section_right (hnow : ∀ symbol i, b.instruments.get? symbol = some i → seen symbol i.lastPrice)
    (h : TaskRight seen b rows task) :
    TaskRight seen (task.section b).2 (task.rowsAfter b rows) (task.section b).1 := by
  cases task with
  | modifyFind orderId args => simp only [Task.section]; split <;> trivial
  | cancelFind orderId => simp only [Task.section]; split <;> trivial
  | cancelOrder handle =>
      simp only [Task.section]
      split
      · trivial
      · split <;> trivial
  | outcomeFind orderId => simp only [Task.section]; split <;> trivial
  | outcomeOrder handle =>
      simp only [Task.section]
      split
      · trivial
      · split <;> trivial
  | fillHandles =>
      intro x hx
      obtain ⟨⟨f, i⟩, hf, rfl⟩ := List.mem_map.mp hx
      have hi := List.mem_zipIdx_iff_getElem?.mp hf
      simp only [Task.rowsAfter, ReplicaBroker.fillHandles, List.getElem?_map]
      exact congrArg _ hi
  | fillPrices todo =>
      refine ⟨fun symbol price hp => ?_, fun _ hw => (by cases hw), h⟩
      dsimp only at hp
      rw [OrdMap.get?_insertAll_map b.instruments (·.lastPrice) symbol, Option.map_eq_some_iff] at hp
      obtain ⟨i, hi, rfl⟩ := hp
      exact hnow symbol i hi
  | fillSymbol pass todo =>
      cases todo with
      | nil => trivial
      | cons next todo =>
          obtain ⟨i, handle⟩ := next
          have hrest : PassRight seen b rows pass todo :=
            ⟨h.prices, h.writes, fun x hx => h.todo x (List.mem_cons_of_mem _ hx)⟩
          simp only [Task.section]
          split
          · exact hrest
          · rename_i lastPrice hp
            refine ⟨hrest, h.todo _ List.mem_cons_self, ?_⟩
            obtain ⟨o, ho, hp⟩ := Option.bind_eq_some_iff.mp (Option.filter_eq_some_iff.mp hp).1
            exact ⟨o, ho, h.prices _ _ hp⟩
  | fillUpdate pass i handle lastPrice todo =>
      have hk := section_keepsSymbols b (.fillUpdate pass i handle lastPrice todo)
      exact ⟨h.1.keep hk, h.2.1, h.2.2.keep hk⟩
  | fillDone pass i handle lastPrice todo =>
      refine ⟨h.1.prices, fun w hw => ?_, h.1.todo⟩
      rcases List.mem_append.mp hw with hw | hw
      · exact h.1.writes w hw
      · obtain rfl := List.mem_singleton.mp hw
        exact ⟨handle, h.2⟩
  | _ => trivial

/-- Only the end of a pass changes the fills. -/
theorem section_fills (b : ReplicaBroker F) (task : Task F)
    (hend : ∀ pass, task ≠ .fillSymbol pass []) : (task.section b).2.fills = b.fills := by
  cases task with
  | fillSymbol pass todo =>
      cases todo with
      | nil => exact absurd rfl (hend pass)
      | cons next todo =>
          obtain ⟨i, handle⟩ := next
          simp only [Task.section]
          split <;> rfl
  | modifyFind orderId args => simp only [Task.section]; split <;> rfl
  | cancelFind orderId => simp only [Task.section]; split <;> rfl
  | cancelOrder handle =>
      simp only [Task.section]
      split
      · rfl
      · split <;> rfl
  | outcomeFind orderId => simp only [Task.section]; split <;> rfl
  | outcomeOrder handle =>
      simp only [Task.section]
      split
      · rfl
      · split <;> rfl
  | _ => rfl

theorem section_instruments (b : ReplicaBroker F) (task : Task F) :
    (task.section b).2.instruments = b.instruments := by
  cases task with
  | fillSymbol pass todo =>
      cases todo with
      | nil => rfl
      | cons next todo =>
          obtain ⟨i, handle⟩ := next
          simp only [Task.section]
          split <;> rfl
  | modifyFind orderId args => simp only [Task.section]; split <;> rfl
  | cancelFind orderId => simp only [Task.section]; split <;> rfl
  | cancelOrder handle =>
      simp only [Task.section]
      split
      · rfl
      · split <;> rfl
  | outcomeFind orderId => simp only [Task.section]; split <;> rfl
  | outcomeOrder handle =>
      simp only [Task.section]
      split
      · rfl
      · split <;> rfl
  | _ => rfl

/-! ## A step -/

structure Right (seen : String → F → Prop) (s : Watched F) : Prop where
  fills : ∀ f ∈ s.broker.inner.fills, RowPriced seen s.broker.inner f.order f.lastPrice
  tasks : ∀ i task, s.broker.tasks[i]? = some task → TaskRight seen s.broker.inner (s.rowsOf i) task

omit [Quantity F] in
theorem reconcile_right {pass : Pass F} (hpass : PassRight seen b rows pass [])
    (hfills : ∀ f ∈ b.fills, RowPriced seen b f.order f.lastPrice)
    (hplace : ∀ w ∈ pass.priceWrites, ∀ h ∈ b.fillHandles[w.1]?,
      rows[w.1]?.bind b.symbolOf = b.symbolOf h) :
    ∀ f ∈ (b.reconcile pass).fills, RowPriced seen (b.reconcile pass) f.order f.lastPrice := by
  intro f hf
  rcases mem_priceWrites (List.mem_filter.mp hf).1 with hf | ⟨w, hw, hrow, hprice⟩
  · exact hfills f hf
  · -- the row at the position has the symbol of the order that the pass found there
    obtain ⟨h, hh, o, ho, hseen⟩ := hpass.writes w hw
    obtain ⟨f₀, hf₀, hf₀o⟩ := List.mem_map.mp (List.mem_of_getElem? hrow)
    obtain ⟨o', ho', -⟩ := hfills f₀ hf₀
    have hsym := hplace w hw f.order hrow
    rw [hf₀o] at ho'
    simp only [hh, Option.bind_some, ReplicaBroker.symbolOf, ho, ho', Option.map_some,
      Option.some.injEq] at hsym
    exact ⟨o', ho', by rw [hprice, ← hsym]; exact hseen⟩

variable {s : Watched F}

omit [Quantity F] in
/-- A new task that has collected nothing. -/
theorem Right.start (h : Right seen s) {inner : ReplicaBroker F} {task : Task F}
    (hk : KeepsSymbols s.broker.inner inner)
    (hfills : ∀ f ∈ inner.fills, RowPriced seen inner f.order f.lastPrice)
    (ht : ∀ rows, TaskRight seen inner rows task) :
    Right seen ⟨⟨inner, s.broker.tasks ++ [task]⟩, s.rows⟩ := by
  refine ⟨hfills, fun i t hi => ?_⟩
  dsimp only at hi
  rw [List.getElem?_append] at hi
  split at hi
  · exact (h.tasks i t hi).keep hk
  · rw [List.getElem?_singleton] at hi
    split at hi
    · cases hi
      exact ht _
    · cases hi

theorem step_right (hnow : ∀ symbol i, s.broker.inner.instruments.get? symbol = some i →
      seen symbol i.lastPrice) (h : Right seen s) {a : AsyncAction F} (hc : WritesInPlace s a) :
    Right seen ((watched uuid).step s a).2 := by
  have hsame : KeepsSymbols s.broker.inner s.broker.inner := .of_cells rfl
  cases a with
  | call c =>
      show Right seen ⟨s.broker.call uuid c, s.rows⟩
      cases c with
      | update instruments =>
          exact h.start (.of_cells rfl) h.fills fun _ => trivial
      | place args =>
          simp only [AsyncReplicaBroker.call]
          split
          · exact h.start hsame h.fills fun _ => trivial
          · rename_i handle inner hp
            refine h.start (place_keepsSymbols hp) (fun f hf => ?_) fun _ => trivial
            rcases place_fills hp f hf with hf | ⟨o, i, ho, hi, hprice⟩
            · exact (h.fills f hf).keep (place_keepsSymbols hp)
            · exact ⟨o, ho, hprice ▸ hnow _ i hi⟩
      | modify args | cancel args | orderCancelOutcome args =>
          simp only [AsyncReplicaBroker.call]
          split <;> exact h.start hsame h.fills fun _ => trivial
      | runFill => exact h.start hsame h.fills fun _ => trivial
  | advance i =>
      cases ht : s.broker.tasks[i]? with
      | none =>
          rw [watched_idle ht]
          exact h
      | some task =>
          rw [watched_advance ht]
          have hk := section_keepsSymbols s.broker.inner task
          refine ⟨?_, fun j t hj => ?_⟩
          · by_cases hend : ∃ pass, task = .fillSymbol pass []
            · obtain ⟨pass, rfl⟩ := hend
              simp only [WritesInPlace, ht] at hc
              exact reconcile_right (h.tasks i _ ht) h.fills hc
            · rw [show (task.section s.broker.inner).2.fills = s.broker.inner.fills from
                section_fills _ _ fun pass he => hend ⟨pass, he⟩]
              exact fun f hf => (h.fills f hf).keep hk
          · rw [rowsOf_collect]
            dsimp only at hj
            rw [List.getElem?_set] at hj
            split at hj
            · rename_i hij
              subst hij
              split at hj
              · cases hj
                rw [if_pos rfl]
                exact section_right hnow (h.tasks i task ht)
              · cases hj
            · rename_i hij
              rw [if_neg (Ne.symm hij)]
              exact (h.tasks j t hj).keep hk

/-! ## Runs -/

theorem WasPriced.append {acts : List (AsyncAction F)} {symbol : String} {price : F}
    (h : WasPriced uuid acts symbol price) (more : List (AsyncAction F)) :
    WasPriced uuid (acts ++ more) symbol price := by
  obtain ⟨pre, hpre, hi⟩ := h
  exact ⟨pre, hpre.trans (List.prefix_append acts more), hi⟩

omit [Quantity F] in
theorem Right.imp {seen' : String → F → Prop} (h : Right seen s)
    (himp : ∀ symbol price, seen symbol price → seen' symbol price) : Right seen' s := by
  have hrow : ∀ {h : Handle} {price : F}, RowPriced seen s.broker.inner h price →
      RowPriced seen' s.broker.inner h price := fun ⟨o, ho, hs⟩ => ⟨o, ho, himp _ _ hs⟩
  have hpass : ∀ {rows : List Handle} {pass : Pass F} {todo : List (Nat × Handle)},
      PassRight seen s.broker.inner rows pass todo → PassRight seen' s.broker.inner rows pass todo :=
    fun hp => ⟨fun symbol price he => himp _ _ (hp.prices symbol price he),
      fun w hw => (hp.writes w hw).imp fun _ hr => ⟨hr.1, hrow hr.2⟩, hp.todo⟩
  refine ⟨fun f hf => hrow (h.fills f hf), fun i task ht => ?_⟩
  have hr := h.tasks i task ht
  cases task with
  | fillSymbol pass todo => exact hpass hr
  | fillUpdate pass i handle lastPrice todo => exact ⟨hpass hr.1, hr.2.1, hrow hr.2.2⟩
  | fillDone pass i handle lastPrice todo => exact ⟨hpass hr.1, hr.2.1, hrow hr.2.2⟩
  | fillPrices todo => exact hr
  | _ => trivial

theorem run_right (acts : List (AsyncAction F)) (h : (watched uuid).Always WritesInPlace .new acts) :
    Right (WasPriced uuid acts) ((watched uuid).final .new acts) := by
  induction acts using List.reverseRecOn with
  | nil => exact ⟨fun _ hf => (nomatch hf), fun _ _ ht => by simp [Watched.new, AsyncReplicaBroker.new] at ht⟩
  | append_singleton acts a ih =>
      obtain ⟨hacts, hc, -⟩ := (Machine.Always.append (watched uuid)).mp h
      rw [(watched uuid).final_append]
      refine (step_right (fun symbol i hi => ?_) (ih hacts) hc).imp fun _ _ hs => hs.append [a]
      rw [watched_broker] at hi
      exact ⟨acts, List.prefix_rfl, i, hi, rfl⟩

/-- In every interleaving in which each pass writes to rows of the symbols it found there, every fill carries
a price of its own order's instrument. -/
theorem fills_priced (uuid : Nat → String) (acts : List (AsyncAction F))
    (h : (watched uuid).Always WritesInPlace .new acts) : FillsPriced uuid acts := by
  have hr := (run_right acts h).fills
  rw [watched_broker] at hr
  exact hr

/-! ## Passes that leave each other their rows -/

/-- The task has collected rows and is not over. -/
def Task.midway : Task F → Bool
  | .fillPrices _ | .fillSymbol _ _ | .fillUpdate _ _ _ _ _ | .fillDone _ _ _ _ _ => true
  | _ => false

/-- Where a pass ends, it removes no row that another pass has collected and is still about. -/
def Undisturbed (s : Watched F) : AsyncAction F → Prop
  | .call _ => True
  | .advance i => ∀ pass, s.broker.tasks[i]? = some (.fillSymbol pass []) →
      ∀ j task, j ≠ i → s.broker.tasks[j]? = some task → task.midway = true →
        ∀ h ∈ s.rowsOf j, h ∉ pass.doneHandles

/-- The rows that a pass has collected are where it found them. -/
def Stays (s : Watched F) : Prop :=
  ∀ i task, s.broker.tasks[i]? = some task → task.midway = true →
    s.rowsOf i <+: s.broker.inner.fillHandles

omit [Quantity F] in
theorem filter_of_prefix {l m : List Handle} {p : Handle → Bool} (h : l <+: m) (hl : ∀ x ∈ l, p x = true) :
    l <+: m.filter p := by
  obtain ⟨rest, rfl⟩ := h
  rw [List.filter_append, List.filter_eq_self.mpr hl]
  exact List.prefix_append _ _

theorem place_handles {b b' : ReplicaBroker F} {orderId : String} {args : Args F} {h : Handle}
    (hp : b.place pushCompletedUnique orderId args = some (h, b')) : b.fillHandles <+: b'.fillHandles := by
  unfold ReplicaBroker.place at hp
  obtain ⟨o, -, hr⟩ := Option.map_eq_some_iff.mp hp
  dsimp only at hr
  split at hr
  · cases hr
    exact List.prefix_rfl
  · cases hr
    exact (List.prefix_append b.fills _).map _

/-- A task is midway after a section when it collected there, or was so before. -/
theorem section_midway (b : ReplicaBroker F) (task : Task F) (h : (task.section b).1.midway = true) :
    task = .fillHandles ∨ task.midway = true ∧ ∀ pass, task ≠ .fillSymbol pass [] := by
  cases task with
  | fillHandles => exact .inl rfl
  | fillPrices todo => exact .inr ⟨rfl, by simp⟩
  | fillUpdate pass i handle lastPrice todo => exact .inr ⟨rfl, by simp⟩
  | fillDone pass i handle lastPrice todo => exact .inr ⟨rfl, by simp⟩
  | fillSymbol pass todo =>
      cases todo with
      | nil => cases h
      | cons next todo => exact .inr ⟨rfl, by simp⟩
  | modifyFind orderId args => simp only [Task.section] at h; split at h <;> cases h
  | modifyOrder handle args => cases h
  | cancelFind orderId => simp only [Task.section] at h; split at h <;> cases h
  | cancelOrder handle =>
      simp only [Task.section] at h
      split at h
      · cases h
      · split at h <;> cases h
  | cancelComplete handle => cases h
  | outcomeFind orderId => simp only [Task.section] at h; split at h <;> cases h
  | outcomeOrder handle =>
      simp only [Task.section] at h
      split at h
      · cases h
      · split at h <;> cases h
  | outcomeComplete handle orderId => cases h
  | finished reply => cases h

omit [Quantity F] in
/-- A new task that has collected nothing. -/
theorem Stays.start (h : Stays s) {inner : ReplicaBroker F} {task : Task F}
    (hk : s.broker.inner.fillHandles <+: inner.fillHandles) (ht : task.midway = false) :
    Stays ⟨⟨inner, s.broker.tasks ++ [task]⟩, s.rows⟩ := by
  intro i t hi hm
  dsimp only at hi
  rw [List.getElem?_append] at hi
  split at hi
  · exact (h i t hi hm).trans hk
  · rw [List.getElem?_singleton] at hi
    split at hi
    · cases hi
      rw [ht] at hm
      cases hm
    · cases hi

theorem Stays.step (h : Stays s) {a : AsyncAction F} (hc : Undisturbed s a) :
    Stays ((watched uuid).step s a).2 := by
  cases a with
  | call c =>
      show Stays ⟨s.broker.call uuid c, s.rows⟩
      cases c with
      | update instruments => exact h.start List.prefix_rfl rfl
      | place args =>
          simp only [AsyncReplicaBroker.call]
          split
          · exact h.start List.prefix_rfl rfl
          · rename_i handle inner hp
            exact h.start (place_handles hp) rfl
      | modify args | cancel args | orderCancelOutcome args =>
          simp only [AsyncReplicaBroker.call]
          split <;> exact h.start List.prefix_rfl rfl
      | runFill => exact h.start List.prefix_rfl rfl
  | advance i =>
      cases ht : s.broker.tasks[i]? with
      | none =>
          rw [watched_idle ht]
          exact h
      | some task =>
          rw [watched_advance ht]
          intro j t hj hm
          dsimp only at hj ⊢
          rw [List.getElem?_set] at hj
          split at hj
          · -- the task that moved collects its rows, or has them already
            rename_i hij
            subst hij
            split at hj
            · cases hj
              rw [rowsOf_collect, if_pos rfl]
              rcases section_midway _ _ hm with rfl | ⟨hmid, hend⟩
              · exact List.prefix_rfl
              · have hrows : task.rowsAfter s.broker.inner (s.rowsOf i) = s.rowsOf i := by
                  cases task with
                  | fillHandles => cases hmid
                  | _ => rfl
                rw [hrows, ReplicaBroker.fillHandles, section_fills _ _ hend]
                exact h i task ht hmid
            · cases hj
          · rename_i hij
            rw [rowsOf_collect, if_neg (Ne.symm hij)]
            have hbefore := h j t hj hm
            by_cases hend : ∃ pass, task = .fillSymbol pass []
            · obtain ⟨pass, rfl⟩ := hend
              rw [show ((Task.fillSymbol pass []).section s.broker.inner).2 =
                s.broker.inner.reconcile pass from rfl, reconcile_handles]
              exact filter_of_prefix hbefore fun x hx =>
                decide_eq_true (hc pass ht j t (Ne.symm hij) hj hm x hx)
            · rw [ReplicaBroker.fillHandles, section_fills _ _ fun pass he => hend ⟨pass, he⟩]
              exact hbefore

omit [Quantity F] in
theorem Stays.writesInPlace (h : Stays s) (hr : Right seen s) (a : AsyncAction F) :
    WritesInPlace s a := by
  cases a with
  | call c => trivial
  | advance i =>
      simp only [WritesInPlace]
      split
      · rename_i pass ht
        intro w hw x hx
        obtain ⟨y, hy, -⟩ := (hr.tasks i _ ht).writes w hw
        obtain ⟨rest, hrest⟩ := h i _ ht rfl
        have hkept : s.broker.inner.fillHandles[w.1]? = some y := by
          rw [← hrest, List.getElem?_append_left (List.getElem?_eq_some_iff.mp hy).1]
          exact hy
        obtain rfl : y = x := Option.some.inj (hkept.symm.trans hx)
        rw [hy]
        rfl
      · trivial

/-- In an interleaving in which no pass removes a row from under another one, every pass writes to rows of
the symbols it found there. -/
theorem undisturbed_writesInPlace (acts : List (AsyncAction F))
    (h : (watched uuid).Always Undisturbed .new acts) :
    (watched uuid).Always WritesInPlace .new acts := by
  suffices hboth : (watched uuid).Always WritesInPlace .new acts ∧ Stays ((watched uuid).final .new acts) from
    hboth.1
  induction acts using List.reverseRecOn with
  | nil => exact ⟨trivial, fun i t ht => by simp [Watched.new, AsyncReplicaBroker.new] at ht⟩
  | append_singleton acts a ih =>
      obtain ⟨hacts, hc, -⟩ := (Machine.Always.append (watched uuid)).mp h
      obtain ⟨hwrites, hstays⟩ := ih hacts
      refine ⟨(Machine.Always.append (watched uuid)).mpr
        ⟨hwrites, hstays.writesInPlace (run_right acts hwrites) a, trivial⟩, ?_⟩
      rw [(watched uuid).final_append]
      exact hstays.step hc

/-! ## Where the prices come from -/

omit [Quantity F] in
theorem insertAll_named {m : OrdMap String (Instrument F)} {l : List (Instrument F)} {symbol : String}
    {i : Instrument F} (h : (m.insertAll (l.map fun i => (i.name, i))).get? symbol = some i) :
    m.get? symbol = some i ∨ i ∈ l ∧ i.name = symbol := by
  rw [OrdMap.get?_insertAll] at h
  cases hl : (OrdMap.empty.insertAll (l.map fun i => (i.name, i))).get? symbol with
  | none =>
      rw [hl] at h
      exact .inl h
  | some i' =>
      rw [hl] at h
      cases h
      obtain ⟨i₀, hi₀, heq⟩ := List.mem_map.mp (OrdMap.mem_of_get?_insertAll hl)
      cases heq
      exact .inr ⟨hi₀, rfl⟩

/-- A price is one that an update brought. -/
theorem wasPriced_update {acts : List (AsyncAction F)} {symbol : String} {price : F}
    (h : WasPriced uuid acts symbol price) : ∃ instruments, .call (.update instruments) ∈ acts ∧
      ∃ i ∈ instruments, i.name = symbol ∧ i.lastPrice = price := by
  obtain ⟨pre, hpre, i, hi, rfl⟩ := h
  suffices hsome : ∀ i, ((asyncReplicaBroker uuid).final .new pre).inner.instruments.get? symbol = some i →
      ∃ instruments, .call (.update instruments) ∈ pre ∧ i ∈ instruments ∧ i.name = symbol by
    obtain ⟨instruments, hm, hin, hname⟩ := hsome i hi
    exact ⟨instruments, hpre.subset hm, i, hin, hname, rfl⟩
  clear hi hpre
  induction pre using List.reverseRecOn with
  | nil => exact fun _ h => (nomatch h)
  | append_singleton pre a ih =>
      intro i hi
      rw [(asyncReplicaBroker uuid).final_append] at hi
      have hold : ((asyncReplicaBroker uuid).final .new pre).inner.instruments.get? symbol = some i →
          ∃ instruments, .call (.update instruments) ∈ pre ++ [a] ∧ i ∈ instruments ∧ i.name = symbol := by
        intro hi
        obtain ⟨instruments, hm, hin⟩ := ih i hi
        exact ⟨instruments, List.mem_append_left _ hm, hin⟩
      generalize (asyncReplicaBroker uuid).final .new pre = s at hi hold
      have hi : (s.step uuid a).2.inner.instruments.get? symbol = some i := hi
      cases a with
      | call c =>
          cases c with
          | update instruments =>
              rcases insertAll_named hi with hi | ⟨hin, hname⟩
              · exact hold hi
              · exact ⟨instruments, by simp, hin, hname⟩
          | place args =>
              simp only [AsyncReplicaBroker.step, AsyncReplicaBroker.call] at hi
              split at hi
              · exact hold hi
              · rename_i handle inner hp
                refine hold ?_
                unfold ReplicaBroker.place at hp
                obtain ⟨o, -, hr⟩ := Option.map_eq_some_iff.mp hp
                dsimp only at hr
                split at hr <;> (cases hr; exact hi)
          | modify args | cancel args | orderCancelOutcome args =>
              simp only [AsyncReplicaBroker.step, AsyncReplicaBroker.call] at hi
              split at hi <;> exact hold hi
          | runFill => exact hold hi
      | advance j =>
          simp only [AsyncReplicaBroker.step] at hi
          split at hi
          · exact hold hi
          · rename_i task _
            rw [section_instruments s.inner task] at hi
            exact hold hi

/-! ## Two passes at a time -/

namespace Sample

/-- A resting limit order for a symbol. -/
def restingLimit (symbol : String) : Args Int :=
  OrdMap.empty.insertAll
    [("symbol", .str symbol), ("side", .int 1), ("quantity", .int 10), ("order_type", .int 2),
      ("price", .int 50)]

/-- Two orders rest, and a pass over them is about to write the prices back. -/
def passBegun : List (AsyncAction Int) :=
  [.call (.update [⟨"A", 100⟩, ⟨"B", 200⟩]), .call (.place (restingLimit "A")),
    .call (.place (restingLimit "B")), .call .runFill] ++ List.replicate 8 (.advance 3)

/-- Between, the first order is canceled and a second pass removes its row. -/
def passesOverlap : List (AsyncAction Int) :=
  passBegun ++ .call (.cancel (OrdMap.empty.insert "order_id" (.str (ids 0)))) ::
    List.replicate 3 (.advance 4) ++ .call .runFill :: List.replicate 9 (.advance 5) ++ [.advance 3]

end Sample

open Sample in
theorem fills_priced_pass : FillsPriced ids (passBegun ++ [.advance 3]) :=
  fills_priced ids _ (by decide)

open Sample in
/-- The price of the first order's instrument is written to the row of the second order. -/
theorem fills_priced_breaks : ¬ ∀ acts : List (AsyncAction Int), FillsPriced ids acts := by
  intro h
  have hfill : (⟨1, 100⟩ : ReplicaFill Int) ∈
      ((asyncReplicaBroker ids).final .new passesOverlap).inner.fills := by decide
  have hsym : (((asyncReplicaBroker ids).final .new passesOverlap).inner.cell 1).map (·.symbol) =
      some "B" := by decide
  obtain ⟨o, ho, hpriced⟩ := h passesOverlap _ hfill
  rw [ho, Option.map_some, Option.some.injEq] at hsym
  obtain ⟨instruments, hm, i, hi, hname, hprice⟩ := wasPriced_update hpriced
  rw [hsym] at hname
  simp only [passesOverlap, passBegun, List.mem_append, List.mem_cons, List.mem_replicate,
    AsyncAction.call.injEq, AsyncCall.update.injEq, reduceCtorEq, and_false, or_false,
    List.not_mem_nil] at hm
  subst hm
  simp only [List.mem_cons, List.not_mem_nil, or_false] at hi
  rcases hi with rfl | rfl
  · exact absurd hname (by decide)
  · exact absurd hprice (by decide)

end Omsrs.Replica
