import CannedApi.Server.Shutdown
import Mathlib.Data.List.Induction

/-!
# Whom the signal to stop reaches

The two that listen for the signal start to listen one after the other, and a signal may be given at any
time.  `Stopping.Turns` lists what a move can do to one of them.  From it: the signal has reached who listens
just if it was given while it listened (`Stopping.hears_run`).  So of a server that serves all listeners
have been reached just if the signal was given after the server itself began to listen
(`Stopping.serving_reached_iff`).
-/

namespace CannedApi

/-- Who can listen for the signal. -/
inductive Party where
  | task
  | server

namespace Party

/-- it listens for the signal at all -/
def TakesPart (watch : Bool) : Party → Prop
  | .task => watch = true
  | .server => True

/-- it listens at this stage of the start -/
def listensAt (watch : Bool) : Party → StartStage → Bool
  | _, .begun | _, .failed => false
  | .task, _ => watch
  | .server, .following => false
  | .server, _ => true

end Party

namespace Listener

/-- A signal has come to the listener, whether it has been taken or not. -/
def Reached (signals : Nat) (l : Listener) : Prop := l.received = true ∨ l.isPending signals = true

variable {signals : Nat} {l : Listener}

theorem not_reached_starting (signals : Nat) : ¬ (starting signals).Reached signals := by
  simp [Reached, starting, isPending]

theorem place_take_le (h : l.place ≤ signals) : (l.take signals).place ≤ signals := by
  unfold take
  split
  · exact Nat.le_refl _
  · exact h

theorem reached_take_iff : (l.take signals).Reached signals ↔ l.Reached signals := by
  unfold take
  split
  · rename_i h
    exact iff_of_true (Or.inl rfl) (Or.inr h)
  · exact Iff.rfl

theorem reached_succ (h : l.place ≤ signals) : l.Reached (signals + 1) := by
  unfold Reached isPending
  cases l.received with
  | true => exact Or.inl rfl
  | false => exact Or.inr (by simpa using Nat.lt_succ_of_le h)

end Listener

namespace Stopping

variable {s : Stopping} {moves : List StopMove} {m : StopMove} {p : Party} {l : Listener} {watch : Bool}

def listener (s : Stopping) : Party → Option Listener
  | .task => s.task
  | .server => s.server

theorem run_snoc (s : Stopping) (moves : List StopMove) (m : StopMove) :
    s.run (moves ++ [m]) = (s.run moves).step m := run_append s moves [m]

/-! ## Who listens when -/

/-- The stage of the start tells who listens; only of the task nothing is told once the start has failed. -/
structure Orderly (s : Stopping) : Prop where
  task : s.stage ≠ .failed → s.task.isSome = Party.task.listensAt s.watch s.stage
  server : s.server.isSome = Party.server.listensAt s.watch s.stage

theorem orderly_start (watch : Bool) : (start watch).Orderly := ⟨fun _ => rfl, rfl⟩

theorem Orderly.step (h : s.Orderly) (m : StopMove) : (s.step m).Orderly := by
  obtain ⟨htask, hserver⟩ := h
  cases m with
  | trigger => exact ⟨htask, hserver⟩
  | taskReceives => exact ⟨fun hstage => Option.isSome_map.trans (htask hstage), hserver⟩
  | advance =>
    cases hstage : s.stage <;> simp only [hstage] at htask hserver <;>
      simp only [Stopping.step, hstage]
    case begun =>
      refine ⟨fun _ => ?_, hserver⟩
      cases s.watch <;> rfl
    case following => exact ⟨fun _ => htask (by decide), rfl⟩
    case listening => exact ⟨fun _ => htask (by decide), hserver⟩
    all_goals exact ⟨by simpa only [hstage] using htask, by simpa only [hstage] using hserver⟩
  | fail =>
    simp only [Stopping.step]
    split
    · rename_i hstage
      rw [hstage] at hserver
      exact ⟨fun hne => absurd rfl hne, hserver⟩
    · rename_i hstage hwatch
      rw [hstage] at hserver
      exact ⟨fun hne => absurd rfl hne, hserver⟩
    · exact ⟨htask, hserver⟩
  | serverReceives =>
    simp only [Stopping.step]
    split
    · rename_i l hstage hl
      split
      · rw [hstage] at htask
        exact ⟨fun _ => htask (by decide), rfl⟩
      · exact ⟨htask, hserver⟩
    · exact ⟨htask, hserver⟩

theorem orderly_run (watch : Bool) (moves : List StopMove) : ((start watch).run moves).Orderly := by
  induction moves using List.reverseRecOn with
  | nil => exact orderly_start watch
  | append_singleton moves m ih =>
    rw [run_snoc]
    exact ih.step m

theorem watch_step (s : Stopping) (m : StopMove) : (s.step m).watch = s.watch := by
  cases m with
  | trigger | taskReceives => rfl
  | advance | fail =>
    simp only [step]
    split <;> rfl
  | serverReceives =>
    simp only [step]
    split
    · split <;> rfl
    · rfl

theorem watch_run (s : Stopping) (moves : List StopMove) : (s.run moves).watch = s.watch := by
  induction moves generalizing s with
  | nil => rfl
  | cons m moves ih => rw [run_cons, ih, watch_step]

/-- The task that follows changes listens before the server does. -/
theorem Orderly.task_ne_none (h : s.Orderly) (hserver : s.server ≠ none) (hwatch : s.watch = true) :
    s.task ≠ none := by
  have hs := h.server
  have ht := h.task
  rw [Option.isSome_iff_ne_none.mpr hserver] at hs
  cases hstage : s.stage <;> simp [hstage, Party.listensAt] at hs <;>
    simpa [hstage, hwatch, Party.listensAt, Option.isSome_iff_ne_none] using ht

/-- What a move can make of a listener. -/
inductive Turns (s : Stopping) (p : Party) (s' : Stopping) : StopMove → Prop where
  | signal (hl : s'.listener p = s.listener p) (hn : s'.signals = s.signals + 1) : Turns s p s' .trigger
  | starts (hnone : s.listener p = none) (hl : s'.listener p = some (.starting s.signals))
      (hn : s'.signals = s.signals) : Turns s p s' .advance
  | takes (m : StopMove) (hm : m ≠ .trigger) (hl : s'.listener p = (s.listener p).map (.take s.signals))
      (hn : s'.signals = s.signals) : Turns s p s' m
  | stays (m : StopMove) (hm : m ≠ .trigger) (hl : s'.listener p = s.listener p)
      (hn : s'.signals = s.signals) : Turns s p s' m

theorem Orderly.turns (h : s.Orderly) (p : Party) (m : StopMove) : s.Turns p (s.step m) m := by
  obtain ⟨htask, hserver⟩ := h
  cases m with
  | trigger => exact .signal (by cases p <;> rfl) rfl
  | taskReceives =>
    cases p with
    | task => exact .takes _ (by decide) rfl rfl
    | server => exact .stays _ (by decide) rfl rfl
  | advance =>
    cases hstage : s.stage <;> simp only [hstage] at htask hserver <;>
      simp only [Stopping.step, hstage]
    case begun =>
      have hnone : s.task = none := by simpa [Party.listensAt] using htask (by decide)
      cases p with
      | server => exact .stays _ (by decide) rfl rfl
      | task =>
        cases hwatch : s.watch with
        | true => exact .starts hnone rfl rfl
        | false => exact .stays _ (by decide) hnone.symm rfl
    case following =>
      have hnone : s.server = none := by simpa [Party.listensAt] using hserver
      cases p with
      | task => exact .stays _ (by decide) rfl rfl
      | server => exact .starts hnone rfl rfl
    all_goals exact .stays _ (by decide) (by cases p <;> rfl) rfl
  | fail =>
    simp only [Stopping.step]
    split <;> exact .stays _ (by decide) (by cases p <;> rfl) rfl
  | serverReceives =>
    simp only [Stopping.step]
    split
    · rename_i l hstage hl
      split
      · cases p with
        | task => exact .stays _ (by decide) rfl rfl
        | server => exact .takes _ (by decide) (by simp [listener, hl]) rfl
      · exact .stays _ (by decide) rfl rfl
    · exact .stays _ (by decide) rfl rfl

/-! ## Signals that come in time -/

/-- A signal is given while the party listens. -/
def Signalled (s : Stopping) (moves : List StopMove) (p : Party) : Prop :=
  ∃ before after, moves = before ++ .trigger :: after ∧ (s.run before).listener p ≠ none

theorem not_signalled_nil (s : Stopping) (p : Party) : ¬ s.Signalled [] p := by
  rintro ⟨before, after, h, -⟩
  simp at h

theorem signalled_snoc_iff : s.Signalled (moves ++ [m]) p ↔
    s.Signalled moves p ∨ m = .trigger ∧ (s.run moves).listener p ≠ none := by
  constructor
  · rintro ⟨before, after, h, hl⟩
    rcases List.eq_nil_or_concat after with rfl | ⟨after, x, rfl⟩
    · obtain ⟨rfl, hm⟩ := List.append_inj' h rfl
      exact Or.inr ⟨(List.cons.inj hm).1, hl⟩
    · rw [List.concat_eq_append, ← List.cons_append, ← List.append_assoc] at h
      exact Or.inl ⟨before, after, (List.append_inj' h rfl).1, hl⟩
  · rintro (⟨before, after, rfl, hl⟩ | ⟨rfl, hl⟩)
    · exact ⟨before, after ++ [m], by simp, hl⟩
    · exact ⟨moves, [], rfl, hl⟩

theorem signalled_snoc_of_ne (hm : m ≠ .trigger) : s.Signalled (moves ++ [m]) p ↔ s.Signalled moves p := by
  simp [signalled_snoc_iff, hm]

/-- What the moves so far have brought to a party, if it listens by now and if it does not. -/
structure Hears (s : Stopping) (moves : List StopMove) (p : Party) : Prop where
  place : ∀ l, (s.run moves).listener p = some l → l.place ≤ (s.run moves).signals
  reached : ∀ l, (s.run moves).listener p = some l →
    (l.Reached (s.run moves).signals ↔ s.Signalled moves p)
  absent : (s.run moves).listener p = none → ¬ s.Signalled moves p

theorem Hears.snoc (h : s.Hears moves p) (hturn : (s.run moves).Turns p (s.run (moves ++ [m])) m) :
    s.Hears (moves ++ [m]) p := by
  obtain ⟨hplace, hreached, habsent⟩ := h
  cases hturn with
  | signal hl hn =>
    constructor <;> rw [hl]
    · intro l h
      rw [hn]
      exact Nat.le_succ_of_le (hplace l h)
    · intro l h
      rw [hn, signalled_snoc_iff, h]
      exact iff_of_true (Listener.reached_succ (hplace l h)) (Or.inr ⟨rfl, by simp⟩)
    · intro h
      rw [signalled_snoc_iff, h]
      simpa using habsent h
  | starts hnone hl hn =>
    have hnot : ¬ s.Signalled (moves ++ [.advance]) p := by
      rw [signalled_snoc_of_ne (by decide)]
      exact habsent hnone
    constructor <;> rw [hl]
    · rintro l ⟨⟩
      exact Nat.le_of_eq hn.symm
    · rintro l ⟨⟩
      rw [hn]
      exact iff_of_false (Listener.not_reached_starting _) hnot
    · exact fun _ => hnot
  | takes m hm hl hn =>
    constructor <;> rw [hl]
    · intro l h
      obtain ⟨k, hk, rfl⟩ := Option.map_eq_some_iff.mp h
      rw [hn]
      exact Listener.place_take_le (hplace k hk)
    · intro l h
      obtain ⟨k, hk, rfl⟩ := Option.map_eq_some_iff.mp h
      rw [hn, signalled_snoc_of_ne hm, Listener.reached_take_iff]
      exact hreached k hk
    · intro h
      rw [signalled_snoc_of_ne hm]
      exact habsent (Option.map_eq_none_iff.mp h)
  | stays m hm hl hn =>
    constructor <;> rw [hl]
    · rwa [hn]
    · rwa [hn, signalled_snoc_of_ne hm]
    · rwa [signalled_snoc_of_ne hm]

theorem hears_run (watch : Bool) (moves : List StopMove) (p : Party) :
    (start watch).Hears moves p := by
  induction moves using List.reverseRecOn with
  | nil =>
    have hnone : (start watch).listener p = none := by cases p <;> rfl
    exact ⟨by simp [run_nil, hnone], by simp [run_nil, hnone], fun _ => not_signalled_nil _ p⟩
  | append_singleton moves m ih =>
    refine ih.snoc ?_
    rw [run_snoc]
    exact (orderly_run watch moves).turns p m

/-- A signal that reaches the server reaches the task that follows changes. -/
theorem Signalled.of_server (h : (start watch).Signalled moves .server) (hp : p.TakesPart watch) :
    (start watch).Signalled moves p := by
  cases p with
  | server => exact h
  | task =>
    obtain ⟨before, after, hmoves, hl⟩ := h
    have hwatch : ((start watch).run before).watch = true := (watch_run _ _).trans hp
    exact ⟨before, after, hmoves, (orderly_run watch before).task_ne_none hl hwatch⟩

theorem exists_listener (h : ((start watch).run moves).stage = .serving) (hp : p.TakesPart watch) :
    ∃ l, ((start watch).run moves).listener p = some l := by
  have horderly := orderly_run watch moves
  have hserver : ((start watch).run moves).server.isSome = true := by rw [horderly.server, h]; rfl
  cases p with
  | server => exact Option.isSome_iff_exists.mp hserver
  | task =>
    have hwatch : ((start watch).run moves).watch = true := (watch_run _ _).trans hp
    exact Option.ne_none_iff_exists'.mp
      (horderly.task_ne_none (Option.isSome_iff_ne_none.mp hserver) hwatch)

/-- **Whom the signal reaches.**  In every run, while the server serves, each of those that listen has been
reached by a signal just if one was given after it began to listen.  So all of them have been reached just
if a signal was given after the server itself began to listen, which is the last to do so. -/
theorem serving_reached_iff (h : ((start watch).run moves).stage = .serving) :
    (∀ p : Party, p.TakesPart watch → ∃ l, ((start watch).run moves).listener p = some l ∧
      (l.Reached ((start watch).run moves).signals ↔ (start watch).Signalled moves p)) ∧
    ((∀ p : Party, p.TakesPart watch → ∃ l, ((start watch).run moves).listener p = some l ∧
      l.Reached ((start watch).run moves).signals) ↔ (start watch).Signalled moves .server) := by
  have heach : ∀ p : Party, p.TakesPart watch → ∃ l, ((start watch).run moves).listener p = some l ∧
      (l.Reached ((start watch).run moves).signals ↔ (start watch).Signalled moves p) := by
    intro p hp
    obtain ⟨l, hl⟩ := exists_listener h hp
    exact ⟨l, hl, (hears_run watch moves p).reached l hl⟩
  refine ⟨heach, fun hall => ?_, fun hserver p hp => ?_⟩
  · obtain ⟨l, hl, hreached⟩ := hall .server trivial
    exact ((hears_run watch moves .server).reached l hl).mp hreached
  · obtain ⟨l, hl, hiff⟩ := heach p hp
    exact ⟨l, hl, hiff.mpr (hserver.of_server hp)⟩

/-! ## Signals around the start -/

/-- A signal comes between the task and the server, and another before the server serves. -/
def between : List StopMove := [.advance, .trigger, .advance, .trigger, .taskReceives, .advance]

theorem serving_reached_iff_between :
    ((start true).run between).stage = .serving ∧
      ∀ p : Party, p.TakesPart true → ∃ l, ((start true).run between).listener p = some l ∧
        l.Reached ((start true).run between).signals := by
  have hstage : ((start true).run between).stage = .serving := by decide
  refine ⟨hstage, (serving_reached_iff hstage).2.mpr ⟨between.take 3, between.drop 4, rfl, ?_⟩⟩
  decide

/-- A signal that is given before anything listens is lost, and the server serves on. -/
theorem not_serving_reached :
    ¬ ∀ (watch : Bool) (moves : List StopMove), 0 < ((start watch).run moves).signals →
      ((start watch).run moves).stage = .serving → ∀ p : Party, p.TakesPart watch →
        ∃ l, ((start watch).run moves).listener p = some l ∧
          l.Reached ((start watch).run moves).signals := by
  intro h
  obtain ⟨l, hl, hreached⟩ :=
    h false [.trigger, .advance, .advance, .advance] (by decide) (by decide) .server trivial
  obtain rfl : Listener.starting 1 = l := Option.some.inj hl
  exact Listener.not_reached_starting 1 hreached

end Stopping

end CannedApi
