import Mathlib.Data.List.Basic

/-!
# Write-ahead streams

A program writes records to a journal and sends commands to the outside, both in one stream of
entries. A reader of the journal knows which commands the records stand for. The stream is ahead if
at every cut the commands sent are among the first that the journal stands for.
-/

namespace Omsrs.Lib

/-- How a stream of entries `ω` is read: its records `ρ`, its commands `κ`, and a reader with states
`σ` that says which commands a record stands for. -/
structure WriteAhead (ω ρ κ σ : Type) where
  record : ω → Option ρ
  command : ω → Option κ
  reads : σ → ρ → List κ × σ

namespace WriteAhead

variable {ω ρ κ σ : Type} (W : WriteAhead ω ρ κ σ)

/-- The journal in a stream. -/
def journal (log : List ω) : List ρ := log.filterMap W.record

/-- The commands in a stream. -/
def told (log : List ω) : List κ := log.filterMap W.command

/-- The commands a journal stands for. -/
def commands (s : σ) : List ρ → List κ
  | [] => []
  | r :: rs => (W.reads s r).1 ++ commands (W.reads s r).2 rs

/-- The reader after a journal. -/
def after (s : σ) : List ρ → σ
  | [] => s
  | r :: rs => after (W.reads s r).2 rs

/-- No command is sent before the record that stands for it, wherever the stream is cut. -/
def Ahead (s : σ) (log : List ω) : Prop :=
  ∀ cut, cut <+: log → W.told cut <+: W.commands s (W.journal cut)

theorem commands_snoc (s : σ) (rs : List ρ) (r : ρ) :
    W.commands s (rs ++ [r]) = W.commands s rs ++ (W.reads (W.after s rs) r).1 := by
  induction rs generalizing s with
  | nil => simp [commands, after]
  | cons q rs ih => simp only [List.cons_append, commands, after, ih, List.append_assoc]

theorem after_snoc (s : σ) (rs : List ρ) (r : ρ) :
    W.after s (rs ++ [r]) = (W.reads (W.after s rs) r).2 := by
  induction rs generalizing s with
  | nil => rfl
  | cons q rs ih => simp only [List.cons_append, after, ih]

/-- The stream so far is ahead, the reader of its journal stands at `t`, and of the commands it stands
for exactly the last ones, `due`, are still to be sent. -/
structure Owing (s : σ) (log : List ω) (due : List κ) (t : σ) : Prop where
  balance : W.told log ++ due = W.commands s (W.journal log)
  reader : W.after s (W.journal log) = t
  ahead : W.Ahead s log

variable {W} {s t : σ} {log : List ω} {due : List κ} {e : ω}

theorem Owing.start (s : σ) : W.Owing s [] [] s := by
  refine ⟨rfl, rfl, fun cut hcut => ?_⟩
  rw [List.prefix_nil.mp hcut]
  exact List.nil_prefix

/-- A longer stream is ahead if the shorter one was and the commands balance at its end. -/
theorem Ahead.snoc (h : W.Ahead s log)
    (hb : W.told (log ++ [e]) ++ due = W.commands s (W.journal (log ++ [e]))) :
    W.Ahead s (log ++ [e]) := by
  intro cut hcut
  rcases List.prefix_concat_iff.mp hcut with rfl | hcut
  · exact ⟨due, hb⟩
  · exact h cut hcut

/-- An entry that is neither. -/
theorem Owing.quiet (h : W.Owing s log due t) (hr : W.record e = none)
    (hk : W.command e = none) : W.Owing s (log ++ [e]) due t := by
  have hj : W.journal (log ++ [e]) = W.journal log := by simp [journal, hr]
  have ht : W.told (log ++ [e]) = W.told log := by simp [told, hk]
  have hb : W.told (log ++ [e]) ++ due = W.commands s (W.journal (log ++ [e])) := by
    rw [hj, ht]
    exact h.balance
  exact ⟨hb, hj ▸ h.reader, h.ahead.snoc hb⟩

/-- A record: what it stands for is owed from now on. -/
theorem Owing.writes {t' : σ} {ks : List κ} {r : ρ} (h : W.Owing s log due t)
    (hr : W.record e = some r) (hk : W.command e = none) (hread : W.reads t r = (ks, t')) :
    W.Owing s (log ++ [e]) (due ++ ks) t' := by
  have hj : W.journal (log ++ [e]) = W.journal log ++ [r] := by simp [journal, hr]
  have ht : W.told (log ++ [e]) = W.told log := by simp [told, hk]
  have hb : W.told (log ++ [e]) ++ (due ++ ks) = W.commands s (W.journal (log ++ [e])) := by
    rw [hj, ht, commands_snoc, h.reader, hread, ← List.append_assoc, h.balance]
  refine ⟨hb, ?_, h.ahead.snoc hb⟩
  rw [hj, after_snoc, h.reader, hread]

/-- The first command owed is sent. -/
theorem Owing.send {k : κ} (h : W.Owing s log (k :: due) t) (hr : W.record e = none)
    (hk : W.command e = some k) : W.Owing s (log ++ [e]) due t := by
  have hj : W.journal (log ++ [e]) = W.journal log := by simp [journal, hr]
  have ht : W.told (log ++ [e]) = W.told log ++ [k] := by simp [told, hk]
  have hb : W.told (log ++ [e]) ++ due = W.commands s (W.journal (log ++ [e])) := by
    rw [hj, ht, List.append_assoc]
    exact h.balance
  exact ⟨hb, hj ▸ h.reader, h.ahead.snoc hb⟩

/-- A record that stands for nothing and leaves the reader as it is. -/
theorem Owing.note (h : W.Owing s log due t) {r : ρ} (hr : W.record e = some r)
    (hk : W.command e = none) (hn : W.reads t r = ([], t)) : W.Owing s (log ++ [e]) due t := by
  simpa using h.writes hr hk hn

end WriteAhead

end Omsrs.Lib
