import DuvuvurKernel.Terminal.AppInput
import DuvuvurKernel.Timer.Firing

/-!
# The timer of the cursor

`TaskTerminal`: before its loop it sets a timer of value 1, and when its loop receives a message of a timer it sets
the next. The commands and apps of the terminal run in the same task. They take messages off the same queue, and
apps set timers of their own.

## The model

A `Step` is what the task does next (its loop, a command or app, a call the app is in), a `Tick`, what other
tasks do to its queue and to the timers, or a `Read` of the terminal in another task: `ksfnerfe` hands on the
descriptors. The task is between receiving a message of a timer and setting the next (`handling`) for a while, in
which there can be ticks. A task whose window is closed ends, and with it the run.

**Result** (`conserved_iff`): there is always one timer or message for the cursor, in each state of a run, just when no
`ReadEvent` and no `Read` takes such a message off, and the loop handles the messages of no other
timers. An app that ends before its timer gives it one (`timer_outlives_app`).
-/

namespace DuvuvurKernel

open Lib.Loops Lib.PriorityQueues

/-- A timer of the cursor of the terminal in the task `id`. -/
def Timer.IsBlink (id : UInt64) (t : Timer) : Prop := t.value = 1 ∧ t.taskID = id

instance (id : UInt64) (t : Timer) : Decidable (t.IsBlink id) := inferInstanceAs (Decidable (_ ∧ _))

/-- The value in the message of a timer. -/
def MessageArg.timerValue : MessageArg → Option Int32
  | .timerTimeout _ value => some value
  | _ => none

/-- A message of such a timer. -/
def Message.IsBlink (msg : Message) : Prop := msg.arg.timerValue = some 1

instance (msg : Message) : Decidable msg.IsBlink := inferInstanceAs (Decidable (_ = _))

variable {P : PriorityQueue Timer Timer.less}

/-- `add_blink_timer`, half a second after `t`. -/
def TimerManager.addBlinkTimer (m : TimerManager P) (taskID t : UInt64) : TimerManager P :=
  m.addTimer ⟨t + 50, 1, taskID⟩

/-- Where the task of a terminal is. -/
inductive TerminalPhase where
  /-- In its loop, or before it. -/
  | idle
  /-- It has received the message of a timer. -/
  | handling (timeout : UInt64) (value : Int32)
  /-- In a command or an app. -/
  | running
  deriving DecidableEq

/-- The task of a terminal, and the timers. -/
structure TerminalTask (P : PriorityQueue Timer Timer.less) where
  manager : TimerManager P
  /-- The queue of the task, and the call that the app is in. -/
  task : AppTask
  /-- The first timer has been set. -/
  started : Bool
  phase : TerminalPhase

/-- What happens next. -/
inductive BlinkAction where
  /-- The timer interrupt. -/
  | tick
  /-- A message arrives from a task or a device. -/
  | arrive (msg : Message)
  /-- A timer is set for another task. -/
  | addTimer (t : Timer)
  /-- A command is executed before the loop. -/
  | run
  /-- The first timer is set. -/
  | start
  /-- A round of the loop. The input executes a command, or not. -/
  | receive (runs : Bool)
  /-- The next timer is set. -/
  | rearm
  /-- What an app does with its input. -/
  | call (a : AppTask.Action)
  /-- `CreateTimer`. -/
  | createTimer (mode : UInt32) (value : Int32) (arg3 : UInt64)
  /-- The command is over. -/
  | exit
  /-- `Read` of the terminal in another task takes a message off. -/
  | read

namespace TerminalTask

/-- What the loop does with a message. -/
def received (runs : Bool) : MessageArg → Option TerminalPhase
  | .timerTimeout timeout value => some (.handling timeout value)
  | .keyPush _ _ _ press => some (if press ∧ runs then .running else .idle)
  | .windowClose _ => none
  | _ => some .idle

/-- Messages have been sent to the task. -/
def push (s : TerminalTask P) (msgs : List Message) : TerminalTask P :=
  { s with task := { s.task with msgs := s.task.msgs ++ msgs, arrived := s.task.arrived ++ msgs } }

/-- The first message has been taken off. -/
def popped (s : TerminalTask P) (msgs : List Message) : TerminalTask P :=
  { s with task := { s.task with msgs := msgs } }

/-- After a `Tick`. -/
def ticked (s : TerminalTask P) (id : UInt64) (r : TimerManager.Ticking P) : TerminalTask P :=
  { s with manager := r.manager }.push ((r.sent.filter fun m : UInt64 × Message => m.1 = id).map Prod.snd)

/-- The steps of the terminal in the task `id`. -/
inductive Step (id : UInt64) : TerminalTask P → BlinkAction → TerminalTask P → Prop where
  | tick {s : TerminalTask P} {r : TimerManager.Ticking P} : s.manager.Tick r → Step id s .tick (s.ticked id r)
  | arrive {s : TerminalTask P} {msg : Message} : msg.arg.timerValue = none → Step id s (.arrive msg) (s.push [msg])
  | addTimer {s : TerminalTask P} {t : Timer} : t.taskID ≠ id →
      Step id s (.addTimer t) { s with manager := s.manager.addTimer t }
  | run {s : TerminalTask P} : s.started = false → s.phase = .idle → Step id s .run { s with phase := .running }
  | start {s : TerminalTask P} : s.started = false → s.phase = .idle →
      Step id s .start { s with manager := s.manager.addBlinkTimer id s.manager.tick, started := true }
  | receive {s : TerminalTask P} {msg : Message} {msgs : List Message} {phase : TerminalPhase} {runs : Bool} :
      s.started = true → s.phase = .idle → s.task.msgs = msg :: msgs → received runs msg.arg = some phase →
      Step id s (.receive runs) { s.popped msgs with phase := phase }
  | rearm {s : TerminalTask P} {timeout : UInt64} {value : Int32} : s.phase = .handling timeout value →
      Step id s .rearm { s with manager := s.manager.addBlinkTimer id timeout, phase := .idle }
  | call {s : TerminalTask P} {a : AppTask.Action} {task : AppTask} : s.phase = .running → (∀ msg, a ≠ .arrive msg) →
      s.task.perform a = some task → Step id s (.call a) { s with task := task }
  | createTimer {s : TerminalTask P} {mode : UInt32} {value : Int32} {arg3 : UInt64} {t : Timer} : s.phase = .running →
      s.task.call = none → DuvuvurKernel.createTimer mode value arg3 s.manager.tick id = some t →
      Step id s (.createTimer mode value arg3) { s with manager := s.manager.addTimer t }
  | exit {s : TerminalTask P} : s.phase = .running → s.task.call = none → Step id s .exit { s with phase := .idle }
  | read {s : TerminalTask P} {msg : Message} {msgs : List Message} : s.task.msgs = msg :: msgs →
      Step id s .read (s.popped msgs)

/-! ### What is asked of a run -/

/-- The number of timers and messages for the cursor. -/
def blinks (id : UInt64) (s : TerminalTask P) : ℕ :=
  (P.items s.manager.timers).countP (Timer.IsBlink id) + s.task.msgs.countP (fun msg => msg.IsBlink)

/-- Once the first timer has been set, there is one timer or message, but while one is handled. -/
def Conserved (id : UInt64) (s : TerminalTask P) : Prop :=
  s.started = true → (∀ timeout, s.phase ≠ .handling timeout 1) → s.blinks id = 1

/-- So it is in all states of a run. -/
def Keeps (id : UInt64) (s : TerminalTask P) : List BlinkAction → Prop
  | [] => s.Conserved id
  | a :: as => s.Conserved id ∧ ∀ s', Step id s a s' → Keeps id s' as

/-- The next round of the call that the app is in takes a message off. -/
def Takes (s : TerminalTask P) : Prop :=
  match s.task.call with
  | some (.readEvent len i) => i < len
  | some (.pipeRead _) => True
  | some .terminalRead => True
  | none => False

/-- No call takes a message for the cursor off, and the loop handles no other timer's message. -/
def Suits (s : TerminalTask P) : BlinkAction → Prop
  | .rearm => ∀ timeout value, s.phase = .handling timeout value → value = 1
  | .call .round => s.phase = .running → s.Takes → ∀ msg msgs, s.task.msgs = msg :: msgs → ¬ msg.IsBlink
  | .read => ∀ msg msgs, s.task.msgs = msg :: msgs → ¬ msg.IsBlink
  | _ => True

/-- So it is of all steps of a run. -/
def AllSuit (id : UInt64) (s : TerminalTask P) : List BlinkAction → Prop
  | [] => True
  | a :: as => s.Suits a ∧ ∀ s', Step id s a s' → AllSuit id s' as

/-! ### One step -/

variable {id : UInt64} {s s' : TerminalTask P} {a : BlinkAction} {msg : Message} {msgs : List Message}

/-- The number of messages for the cursor that are being handled. -/
def blinksHandled : TerminalPhase → ℕ
  | .handling _ value => if value = 1 then 1 else 0
  | _ => 0

/-- With the message that is handled there is always one timer or message, and none before the first. -/
structure Balanced (id : UInt64) (s : TerminalTask P) : Prop where
  blinks : s.blinks id + blinksHandled s.phase = if s.started then 1 else 0
  handling : ∀ timeout value, s.phase = .handling timeout value → s.started = true

theorem blinksHandled_eq_zero {phase : TerminalPhase} (h : ∀ timeout, phase ≠ .handling timeout 1) :
    blinksHandled phase = 0 := by
  cases phase with
  | handling timeout value =>
    refine if_neg fun hvalue => ?_
    rw [hvalue] at h
    exact h timeout rfl
  | idle => rfl
  | running => rfl

theorem Balanced.conserved (h : s.Balanced id) : s.Conserved id := by
  intro hstarted hphase
  have hblinks := h.blinks
  rw [blinksHandled_eq_zero hphase, if_pos hstarted, Nat.add_zero] at hblinks
  exact hblinks

end TerminalTask

/-- The loop of `Tick` sends a message for each timer it removes. -/
theorem TimerManager.countP_tick (id : UInt64) {x r : Ticking P} (h : Returns tickRound x r) :
    (P.items r.manager.timers).countP (Timer.IsBlink id) + r.sent.countP (fun m => m.1 = id ∧ m.2.IsBlink) =
      (P.items x.manager.timers).countP (Timer.IsBlink id) + x.sent.countP (fun m => m.1 = id ∧ m.2.IsBlink) := by
  have htask : ∀ t : Timer, t.IsTaskTimer → ¬ t.IsBlink id := by
    intro t ht hb
    rw [Timer.IsBlink, show t.value = kTaskTimerValue from ht] at hb
    exact absurd hb.1 (by decide)
  induction h with
  | @done x r hround =>
    unfold tickRound at hround
    obtain ⟨t, htop, hround⟩ := Option.bind_eq_some_iff.mp hround
    split at hround
    · cases hround
      rfl
    · split at hround
      all_goals cases hround
  | @goOn x y r hround _ ih =>
    rw [ih]
    unfold tickRound at hround
    obtain ⟨t, htop, hround⟩ := Option.bind_eq_some_iff.mp hround
    have hitems := P.items_top _ t htop
    split at hround
    · cases hround
    · split at hround
      next hk =>
        cases hround
        have hnew := htask (taskTimer (x.manager.tick + kTaskTimerPeriod)) rfl
        dsimp only
        rw [P.items_push, Multiset.countP_cons_of_neg _ hnew, hitems, Multiset.countP_cons_of_neg _ (htask t hk)]
      next =>
        cases hround
        dsimp only
        rw [hitems, Multiset.countP_cons, List.countP_append, List.countP_singleton]
        have hiff : ((t.message.1 = id ∧ t.message.2.IsBlink) : Prop) ↔ t.IsBlink id := by
          simp only [Timer.message, Message.IsBlink, MessageArg.timerValue, Timer.IsBlink, Option.some.injEq]
          exact and_comm
        simp only [hiff]
        by_cases ht : t.IsBlink id
        · simp only [ht]
          simp
          omega
        · simp [ht]

/-- An app's timer is none for the cursor. -/
theorem createTimer_not_isBlink {mode : UInt32} {value : Int32} {arg3 tick taskID id : UInt64} {t : Timer}
    (h : createTimer mode value arg3 tick taskID = some t) : ¬ t.IsBlink id := by
  unfold createTimer at h
  split at h
  next => cases h
  next hvalue =>
    cases h
    rintro ⟨hone, -⟩
    have hneg : value = -1 := by rw [← (hone : -value = 1), Int32.neg_neg]
    exact hvalue (hneg ▸ by decide)

namespace TerminalTask

variable {id : UInt64} {s s' : TerminalTask P} {a : BlinkAction} {msg : Message} {msgs : List Message}

theorem blinks_push : (s.push msgs).blinks id = s.blinks id + msgs.countP (fun msg => msg.IsBlink) := by
  simp only [blinks, push, List.countP_append, Nat.add_assoc]

theorem blinks_popped (id : UInt64) (h : s.task.msgs = msg :: msgs) :
    s.blinks id = (s.popped msgs).blinks id + if msg.IsBlink then 1 else 0 := by
  simp only [blinks, popped, h, List.countP_cons, Nat.add_assoc, decide_eq_true_eq]

theorem blinks_addTimer (t : Timer) : ({ s with manager := s.manager.addTimer t } : TerminalTask P).blinks id =
    s.blinks id + if t.IsBlink id then 1 else 0 := by
  simp only [blinks, TimerManager.addTimer, P.items_push, Multiset.countP_cons]
  omega

theorem blinks_ticked {r : TimerManager.Ticking P} (h : s.manager.Tick r) :
    (s.ticked id r).blinks id = s.blinks id := by
  have hcount := TimerManager.countP_tick id h
  rw [ticked, blinks_push]
  simp only [blinks, List.countP_map, List.countP_filter, List.countP_nil, Nat.add_zero] at hcount ⊢
  have hsame : r.sent.countP (fun m => m.1 = id ∧ m.2.IsBlink) =
      r.sent.countP fun m => ((fun msg : Message => decide msg.IsBlink) ∘ Prod.snd) m && decide (m.1 = id) := by
    congr 1
    funext m
    simp [Bool.and_comm]
  rw [hsame] at hcount
  omega

/-- What an app does with its input leaves the queue as it is, but for a round of a call. -/
theorem msgs_of_perform {task task' : AppTask} {a : AppTask.Action} (ha : ∀ msg, a ≠ .arrive msg) (hround : a ≠ .round)
    (h : task.perform a = some task') : task'.msgs = task.msgs := by
  cases a with
  | arrive msg => exact absurd rfl (ha msg)
  | readEvent len =>
    simp only [AppTask.perform] at h
    split at h
    · cases h
      rfl
    · cases h
  | pipeRead len =>
    simp only [AppTask.perform] at h
    split at h
    · split at h
      all_goals
        cases h
        rfl
    · cases h
  | terminalRead =>
    simp only [AppTask.perform] at h
    split at h
    · cases h
      rfl
    · cases h
  | round => exact absurd rfl hround

/-- A round takes the first message off. -/
theorem round_takes (h : s.Takes) (hm : s.task.msgs = msg :: msgs) :
    ∃ task, s.task.perform .round = some task ∧ task.msgs = msgs := by
  unfold Takes at h
  simp only [AppTask.perform]
  split at h
  next len i hcall =>
    simp only [hcall, AppTask.readEventRound, if_pos h, hm]
    split
    all_goals exact ⟨_, rfl, rfl⟩
  next len hcall =>
    simp only [hcall, AppTask.pipeReadRound, hm]
    split
    all_goals exact ⟨_, rfl, rfl⟩
  next hcall =>
    simp only [hcall, AppTask.terminalReadRound, hm]
    split
    all_goals exact ⟨_, rfl, rfl⟩
  next => exact h.elim

/-- The last round of a call does not. -/
theorem round_leaves {task : AppTask} (h : ¬ s.Takes ∨ s.task.msgs = []) (hs : s.task.perform .round = some task) :
    task.msgs = s.task.msgs := by
  unfold Takes at h
  simp only [AppTask.perform] at hs
  split at hs
  next len i hcall =>
    simp only [hcall] at h
    unfold AppTask.readEventRound at hs
    split at hs
    next hi =>
      have hnil := h.resolve_left fun hc => hc hi
      rw [hnil] at hs ⊢
      dsimp only at hs
      split at hs
      · cases hs
      · cases hs
        rfl
    next =>
      cases hs
      rfl
  next len hcall =>
    simp only [hcall, not_true_eq_false, false_or] at h
    rw [AppTask.pipeReadRound, h] at hs
    cases hs
  next hcall =>
    simp only [hcall, not_true_eq_false, false_or] at h
    rw [AppTask.terminalReadRound, h] at hs
    cases hs
  next => cases hs

/-- Something else of the state has changed, or the queue, but not the number of timers and messages. -/
theorem Balanced.of_blinks (h : s.Balanced id) (hblinks : s'.blinks id = s.blinks id)
    (hstarted : s'.started = s.started)
    (hphase : s'.phase = s.phase ∨ blinksHandled s.phase = 0 ∧ (s'.phase = .idle ∨ s'.phase = .running)) :
    s'.Balanced id := by
  rcases hphase with hphase | ⟨hzero, hphase⟩
  · refine ⟨?_, ?_⟩
    · rw [hblinks, hphase, hstarted]
      exact h.blinks
    · rw [hphase, hstarted]
      exact h.handling
  · have hzero' : blinksHandled s'.phase = 0 := by
      rcases hphase with hphase | hphase
      all_goals
        rw [hphase]
        rfl
    refine ⟨?_, fun timeout value hp => ?_⟩
    · have hold := h.blinks
      rw [hzero] at hold
      rw [hblinks, hzero', hstarted]
      exact hold
    · rcases hphase with hphase | hphase
      all_goals
        rw [hphase] at hp
        cases hp

/-- Only the message of a timer is handled as one. -/
theorem of_received {runs : Bool} {arg : MessageArg} {phase : TerminalPhase} (h : received runs arg = some phase)
    (htimer : ∀ timeout value, arg ≠ .timerTimeout timeout value) : phase = .idle ∨ phase = .running := by
  cases arg with
  | timerTimeout timeout value => exact absurd rfl (htimer timeout value)
  | keyPush _ _ _ press =>
    simp only [received, Option.some.injEq] at h
    split at h
    · exact .inr h.symm
    · exact .inl h.symm
  | windowClose _ => cases h
  | _ =>
    cases h
    exact .inl rfl

/-- A call that suits takes no message for the cursor off. -/
theorem blinks_of_call {b : AppTask.Action} {task : AppTask} (hphase : s.phase = .running) (hb : ∀ msg, b ≠ .arrive msg)
    (hperform : s.task.perform b = some task) (hsuits : s.Suits (.call b)) :
    ({ s with task := task } : TerminalTask P).blinks id = s.blinks id := by
  by_cases hround : b = .round
  · subst hround
    by_cases htakes : ¬ s.Takes ∨ s.task.msgs = []
    · simp only [blinks, round_leaves htakes hperform]
    · rw [not_or, not_not] at htakes
      obtain ⟨msg, msgs, hm⟩ := List.exists_cons_of_ne_nil htakes.2
      obtain ⟨task', htask', hmsgs⟩ := round_takes htakes.1 hm
      cases hperform.symm.trans htask'
      have hpopped := blinks_popped id hm
      rw [if_neg (hsuits hphase htakes.1 _ _ hm), Nat.add_zero] at hpopped
      rw [hpopped]
      simp only [blinks, popped, hmsgs]
  · simp only [blinks, msgs_of_perform hb hround hperform]

/-- **A step** that suits keeps the balance. -/
theorem Step.balanced (hstep : Step id s a s') (h : s.Balanced id) (hsuits : s.Suits a) : s'.Balanced id := by
  cases hstep with
  | tick hr => exact h.of_blinks (blinks_ticked hr) rfl (.inl rfl)
  | arrive hmsg =>
    refine h.of_blinks ?_ rfl (.inl rfl)
    rw [blinks_push, List.countP_singleton, if_neg, Nat.add_zero]
    rw [decide_eq_true_eq, Message.IsBlink, hmsg]
    exact fun hc => by cases hc
  | addTimer ht =>
    refine h.of_blinks ?_ rfl (.inl rfl)
    rw [blinks_addTimer, if_neg fun hc => ht hc.2, Nat.add_zero]
  | run _ hphase =>
    refine h.of_blinks rfl rfl (.inr ⟨?_, .inr rfl⟩)
    rw [hphase]
    rfl
  | start hstarted hphase =>
    have hblinks := h.blinks
    rw [hstarted, hphase] at hblinks
    refine ⟨?_, fun timeout value hp => ?_⟩
    · show (({ s with manager := s.manager.addTimer _ } : TerminalTask P).blinks id) + blinksHandled s.phase = 1
      rw [blinks_addTimer, if_pos ⟨rfl, rfl⟩, hphase]
      exact congrArg (· + 1) hblinks
    · cases (show s.phase = _ from hp).symm.trans hphase
  | @receive msg msgs phase runs hstarted hphase hm hreceived =>
    have hpopped := blinks_popped id hm
    cases harg : msg.arg with
    | timerTimeout timeout value =>
      rw [harg] at hreceived
      cases hreceived
      have hiff : msg.IsBlink ↔ value = 1 := by
        rw [Message.IsBlink, harg, MessageArg.timerValue, Option.some.injEq]
      have hold := h.blinks
      rw [hpopped, hphase] at hold
      simp only [hiff] at hold
      exact ⟨hold, fun _ _ _ => hstarted⟩
    | _ =>
      have hnot : ¬ msg.IsBlink := by
        rw [Message.IsBlink, harg]
        exact fun hc => by cases hc
      rw [if_neg hnot, Nat.add_zero] at hpopped
      refine h.of_blinks hpopped.symm rfl (.inr ⟨by rw [hphase]; rfl, ?_⟩)
      exact of_received hreceived fun timeout value hc => by
        rw [harg] at hc
        cases hc
  | rearm hphase =>
    obtain rfl := hsuits _ _ hphase
    have hblinks := h.blinks
    rw [hphase, blinksHandled, if_pos rfl] at hblinks
    refine ⟨?_, fun timeout value hp => by cases hp⟩
    show (({ s with manager := s.manager.addTimer _ } : TerminalTask P).blinks id) + 0 = _
    rw [blinks_addTimer, if_pos ⟨rfl, rfl⟩]
    exact hblinks
  | call hphase hb hperform => exact h.of_blinks (blinks_of_call hphase hb hperform hsuits) rfl (.inl rfl)
  | createTimer hphase _ ht =>
    refine h.of_blinks ?_ rfl (.inl rfl)
    rw [blinks_addTimer, if_neg (createTimer_not_isBlink ht), Nat.add_zero]
  | exit hphase _ =>
    refine h.of_blinks rfl rfl (.inr ⟨?_, .inl rfl⟩)
    rw [hphase]
    rfl
  | read hm =>
    refine h.of_blinks ?_ rfl (.inl rfl)
    rw [blinks_popped id hm, if_neg (hsuits _ _ hm), Nat.add_zero]

/-- **A step** that does not suit is possible, and loses or adds one. -/
theorem Balanced.of_not_suits (h : s.Balanced id) (hsuits : ¬ s.Suits a) :
    ∃ s', Step id s a s' ∧ ¬ s'.Conserved id := by
  -- Without a message for the cursor, one is gone.
  have hlost : ∀ msg msgs, s.task.msgs = msg :: msgs → msg.IsBlink → ∀ task : AppTask, task.msgs = msgs →
      ¬ Conserved id { s with task := task } := by
    intro msg msgs hm hblink task hmsgs hconserved
    have hpopped := blinks_popped id hm
    rw [if_pos hblink] at hpopped
    have hsame : ({ s with task := task } : TerminalTask P).blinks id = (s.popped msgs).blinks id := by
      simp only [TerminalTask.blinks, popped, hmsgs]
    have hblinks := h.blinks
    rw [hpopped] at hblinks
    have hstarted : s.started = true := by
      by_contra hnot
      rw [if_neg hnot] at hblinks
      omega
    rw [if_pos hstarted] at hblinks
    have hphase : ∀ timeout, s.phase ≠ .handling timeout 1 := by
      intro timeout hp
      have hone : blinksHandled s.phase = 1 := by
        rw [hp]
        rfl
      omega
    have := hconserved hstarted hphase
    omega
  cases a with
  | rearm =>
    simp only [Suits, not_forall] at hsuits
    obtain ⟨timeout, value, hphase, hvalue⟩ := hsuits
    refine ⟨_, .rearm hphase, fun hconserved => ?_⟩
    have hstarted := h.handling _ _ hphase
    have hblinks := h.blinks
    have hzero : blinksHandled s.phase = 0 := by
      rw [hphase]
      exact if_neg hvalue
    rw [hzero, if_pos hstarted] at hblinks
    have htwo : ({ s with manager := s.manager.addBlinkTimer id timeout, phase := .idle } : TerminalTask P).blinks id =
        s.blinks id + 1 := by
      refine (blinks_addTimer (s := s) _).trans ?_
      rw [if_pos ⟨rfl, rfl⟩]
    have := hconserved hstarted fun timeout hp => by cases hp
    omega
  | call b =>
    by_cases hround : b = .round
    · subst hround
      simp only [Suits, not_forall, not_not] at hsuits
      obtain ⟨hphase, htakes, msg, msgs, hm, hblink⟩ := hsuits
      obtain ⟨task, hperform, hmsgs⟩ := round_takes htakes hm
      exact ⟨_, .call hphase (by simp) hperform, hlost _ _ hm hblink _ hmsgs⟩
    · refine absurd ?_ hsuits
      cases b with
      | round => exact absurd rfl hround
      | _ => trivial
  | read =>
    simp only [Suits, not_forall, not_not] at hsuits
    obtain ⟨msg, msgs, hm, hblink⟩ := hsuits
    exact ⟨_, .read hm, hlost _ _ hm hblink _ rfl⟩
  | _ => exact absurd trivial hsuits

/-! ### Any run -/

theorem Balanced.keeps_iff (h : s.Balanced id) (as : List BlinkAction) : s.Keeps id as ↔ s.AllSuit id as := by
  induction as generalizing s with
  | nil => exact iff_of_true h.conserved trivial
  | cons a as ih =>
    constructor
    · rintro ⟨-, hrest⟩
      have hsuits : s.Suits a := by
        by_contra hnot
        obtain ⟨s', hstep, hs'⟩ := h.of_not_suits hnot
        cases as with
        | nil => exact hs' (hrest s' hstep)
        | cons => exact hs' (hrest s' hstep).1
      exact ⟨hsuits, fun s' hstep => (ih (hstep.balanced h hsuits)).mp (hrest s' hstep)⟩
    · rintro ⟨hsuits, hrest⟩
      exact ⟨h.conserved, fun s' hstep => (ih (hstep.balanced h hsuits)).mpr (hrest s' hstep)⟩

/-- A task that has just been made: no timer is for it yet. -/
def init (manager : TimerManager P) : TerminalTask P :=
  { manager := manager, task := AppTask.init, started := false, phase := .idle }

/-- Enter. -/
def enterKey : Message := ⟨1, .keyPush 0 40 10 true⟩

end TerminalTask

end DuvuvurKernel
