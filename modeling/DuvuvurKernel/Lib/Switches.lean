import Mathlib.Data.Finset.Insert
import Mathlib.Data.Finset.Erase
import Mathlib.Data.List.Chain

/-!
# Switches

A log of switches: each event turns one key on or off. Replaying the log gives the keys that are on
(`replay`). An observer who only sees which keys are on, now and then, and sends an event for each key that has changed
(`Brings`), makes a log that replays to what was seen last, in which each key goes on and off by turns
(`Brings.replay`, `Brings.alternates`).
-/

namespace Lib.Switches

variable {K : Type*} [DecidableEq K]

/-- The keys that are on after the events. -/
def replay (on : Finset K) (log : List (K × Bool)) : Finset K :=
  log.foldl (fun on e => if e.2 then insert e.1 on else on.erase e.1) on

/-- The events of a key. -/
def turns (key : K) (log : List (K × Bool)) : List Bool := (log.filter fun e => e.1 = key).map Prod.snd

/-- On, off, on and so forth. -/
def Alternates (xs : List Bool) : Prop := xs.head? ≠ some false ∧ xs.IsChain (· ≠ ·)

/-- The events turn the keys on and off that are on in one of the two sets only, each once. -/
def Brings (on on' : Finset K) (events : List (K × Bool)) : Prop :=
  ∀ key, turns key events = if (key ∈ on ↔ key ∈ on') then [] else [decide (key ∈ on')]

variable {on on' : Finset K} {log events : List (K × Bool)} {key : K}

theorem turns_append (key : K) (log events : List (K × Bool)) :
    turns key (log ++ events) = turns key log ++ turns key events := by
  rw [turns, List.filter_append, List.map_append]
  rfl

theorem replay_append (on : Finset K) (log events : List (K × Bool)) :
    replay on (log ++ events) = replay (replay on log) events :=
  List.foldl_append

theorem turns_singleton (k : K) (b : Bool) : turns key [(k, b)] = if k = key then [b] else [] := by
  by_cases hk : k = key <;> simp [turns, hk]

theorem mem_replay_singleton (k : K) (b : Bool) :
    decide (key ∈ replay on [(k, b)]) = if k = key then b else decide (key ∈ on) := by
  by_cases hk : k = key
  · subst hk
    cases b <;> simp [replay]
  · cases b <;> simp [replay, hk, Ne.symm hk]

/-- The last event of a key says whether it is on. -/
theorem mem_replay (key : K) (on : Finset K) (log : List (K × Bool)) :
    decide (key ∈ replay on log) = ((turns key log).getLast?).getD (decide (key ∈ on)) := by
  induction log using List.reverseRecOn with
  | nil => rfl
  | append_singleton log e ih =>
    obtain ⟨k, b⟩ := e
    rw [replay_append, turns_append, turns_singleton, mem_replay_singleton]
    by_cases hk : k = key
    · rw [if_pos hk, if_pos hk, List.getLast?_concat, Option.getD_some]
    · rw [if_neg hk, if_neg hk, List.append_nil]
      exact ih

/-- The events bring about what has been seen. -/
theorem Brings.replay (h : Brings on on' events) : replay on events = on' := by
  ext key
  have hkey := mem_replay key on events
  rw [h key] at hkey
  by_cases hsame : key ∈ on ↔ key ∈ on'
  · rw [if_pos hsame] at hkey
    simpa [hsame] using hkey
  · rw [if_neg hsame] at hkey
    simpa using hkey

/-- The events of a key that has not changed. -/
theorem Brings.turns_eq_nil (h : Brings on on' events) (hon : key ∈ on) (hon' : key ∈ on') : turns key events = [] := by
  rw [h key, if_pos (iff_of_true hon hon')]

theorem notMem_of_turns (h : turns key events = []) : ∀ e ∈ events, e.1 ≠ key := by
  intro e he hkey
  rw [turns, List.map_eq_nil_iff, List.filter_eq_nil_iff] at h
  exact h e he (decide_eq_true hkey)

/-- **Each key goes on and off by turns.** -/
theorem Brings.alternates (h : Brings (Switches.replay ∅ log) on' events) (hlog : Alternates (turns key log)) :
    Alternates (turns key (log ++ events)) := by
  have hlast := mem_replay key ∅ log
  rw [turns_append, h key]
  by_cases hsame : key ∈ Switches.replay ∅ log ↔ key ∈ on'
  · rw [if_pos hsame, List.append_nil]
    exact hlog
  · rw [if_neg hsame]
    have hne : decide (key ∈ Switches.replay ∅ log) ≠ decide (key ∈ on') := fun heq => hsame (decide_eq_decide.mp heq)
    rw [hlast] at hne
    refine ⟨?_, List.isChain_append.mpr ⟨hlog.2, .singleton _, fun x hx y hy => ?_⟩⟩
    · cases hturns : turns key log with
      | nil =>
        rw [hturns] at hne
        simpa using hne
      | cons b bs =>
        have hhead := hlog.1
        rw [hturns] at hhead
        exact hhead
    · rw [Option.mem_def.mp hx] at hne
      rw [List.head?_cons, Option.mem_some_iff] at hy
      exact hy ▸ hne

end Lib.Switches
