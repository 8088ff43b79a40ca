import CannedApi.Proofs.Route.Labels
import CannedApi.Proofs.Server.Restart

/-!
# The counters account for everything

A run is taken as the list of what happened in it, each action with the site that it met (`Site.events`).
Counters account for such a list if each shows how often in it the thing happened that it counts, and the
number of routes is that of the index in use (`Dispatcher.Accounts`).  The counters of a new dispatcher account
for its start alone, and each action adds one to the counters that it belongs to and nothing to any other
(`Site.accounts_step`); so the counters account for every run from its start on (`Site.counters_account`).
-/

namespace CannedApi

/-! ## One counter -/

namespace Metrics

variable {κ : Type} [DecidableEq κ]

/-- what a counter is at: one that was never touched is at zero -/
def count (counts : Entries κ Nat) (k : κ) : Nat := (Entries.get? counts k).getD 0

theorem count_bump (counts : Entries κ Nat) (k j : κ) :
    count (bump counts k) j = count counts j + if k = j then 1 else 0 := by
  unfold count bump
  rw [Entries.get?_put]
  by_cases h : k = j
  · rw [if_pos h, if_pos h, h]
    rfl
  · rw [if_neg h, if_neg h]
    rfl

@[simp] theorem answered_countReload (m : Metrics) (routes : Option Nat) :
    (m.countReload routes).answered = m.answered := by
  cases routes <;> rfl

@[simp] theorem unmatched_countReload (m : Metrics) (routes : Option Nat) :
    (m.countReload routes).unmatched = m.unmatched := by
  cases routes <;> rfl

theorem count_reloads_countReload (m : Metrics) (routes : Option Nat) (succeeded : Bool) :
    count (m.countReload routes).reloads succeeded =
      count m.reloads succeeded + if routes.isSome = succeeded then 1 else 0 := by
  cases routes <;> exact count_bump ..

end Metrics

/-! ## What happens in a run -/

/-- the method and the path that are asked for -/
def Action.request? : Action → Option (String × String)
  | .handle _ r => some (r.method, r.path)
  | .dispatch _ _ r => some (r.method, r.target.path)
  | .change _ => none
  | .reload => none

def Action.isReload : Action → Bool
  | .reload => true
  | _ => false

/-- the status of the answer, if there is one -/
def Reply.status? : Reply → Option Nat
  | .answer result => result.map Answer.status
  | _ => Option.none

/-- whether a reload has succeeded -/
def Reply.outcome? : Reply → Option Bool
  | .index result => some result.isOk
  | _ => Option.none

instance (r : Route) (token path : String) : Decidable (r.Answers token path) :=
  decidable_of_iff ((Method.ofToken? token).any fun m => r.fits m (splitPath path)) (by
    unfold Route.Answers
    cases Method.ofToken? token <;> simp)

namespace Site

/-- An action with the site that it meets. -/
structure Event where
  site : Site
  action : Action

namespace Event

def reply (e : Event) : Reply := (e.site.step e.action).1

/-- a request with a method that is answered with a status -/
def isAnswered (method : String) (status : Nat) (e : Event) : Bool :=
  e.action.request?.any (·.1 = method) && e.reply.status? = some status

/-- a request with a method that none of the routes in use answers -/
def isUnmatched (method : String) (e : Event) : Bool :=
  e.action.request?.any fun q =>
    q.1 = method && e.site.dispatcher.index.routes.all fun r => ¬ r.Answers q.1 q.2

/-- a reload that has succeeded, or one that has failed -/
def isReload (succeeded : Bool) (e : Event) : Bool := e.reply.outcome? = some succeeded

end Event

def events (s : Site) : List Action → List Event
  | [] => []
  | a :: rest => ⟨s, a⟩ :: (s.step a).2.events rest

/-- The events of a run give its replies. -/
theorem map_reply_events (s : Site) (actions : List Action) :
    (s.events actions).map Event.reply = (s.run actions).1 := by
  induction actions generalizing s with
  | nil => rfl
  | cons a rest ih =>
    rw [events, List.map_cons, ih, run_cons]
    rfl

theorem reply_change (s : Site) (c : Change) : (Event.mk s (.change c)).reply = .none := by
  cases h : s.disk.apply c <;> simp only [Event.reply, step, h]

/-- A reload has one of the two outcomes, and nothing else has one. -/
theorem isReload_add (e : Event) : ((if e.isReload true then 1 else 0) + if e.isReload false then 1 else 0) =
    if e.action.isReload then 1 else 0 := by
  obtain ⟨s, a⟩ := e
  cases a with
  | change c =>
    simp only [Event.isReload, reply_change]
    rfl
  | handle a r => rfl
  | dispatch a limit r => rfl
  | reload =>
    have hreply : (Event.mk s .reload).reply = .index (s.dispatcher.reload s.disk).1 := rfl
    simp only [Event.isReload, hreply]
    cases (s.dispatcher.reload s.disk).1 <;> rfl

theorem countP_isReload (s : Site) (actions : List Action) :
    (s.events actions).countP (Event.isReload true) + (s.events actions).countP (Event.isReload false) =
      actions.countP Action.isReload := by
  induction actions generalizing s with
  | nil => rfl
  | cons a rest ih =>
    rw [events, List.countP_cons, List.countP_cons, List.countP_cons, Nat.add_add_add_comm, ih,
      isReload_add]

end Site

/-! ## What one event adds -/

/-- Each counter grows by one if the event is one of those that it counts, else it stays. -/
structure Metrics.Gains (m : Metrics) (e : Site.Event) (m' : Metrics) : Prop where
  answered : ∀ method status, count m'.answered (method, status) =
    count m.answered (method, status) + if e.isAnswered method status then 1 else 0
  unmatched : ∀ method, count m'.unmatched method =
    count m.unmatched method + if e.isUnmatched method then 1 else 0
  reloads : ∀ succeeded, count m'.reloads succeeded =
    count m.reloads succeeded + if e.isReload succeeded then 1 else 0

namespace Dispatcher

variable {x : Dispatcher} {d : Disk} {e : Site.Event}

/-- A request is counted where it has no route, and where it has one by the status that it gets. -/
theorem handle_gains {a : Template.Ambient} {r : Request} (hmet : e.site.dispatcher = x)
    (hasked : e.action.request? = some (r.method, r.path))
    (hreply : e.reply = .answer (x.handle d a r).1) :
    x.metrics.Gains e (x.handle d a r).2.metrics := by
  have hunmatched (method : String) : e.isUnmatched method =
      (decide (r.method = method) && (x.resolve r.method r.path).isNone) := by
    have hroutes : (x.index.routes.all fun q => ¬ q.Answers r.method r.path) =
        (x.resolve r.method r.path).isNone := by
      rw [Bool.eq_iff_iff, Option.isNone_iff_eq_none, resolve, RouteIndex.matchRequest_eq_none_iff]
      simp
    simp only [Site.Event.isUnmatched, hasked, Option.any_some, hmet, hroutes]
  have hanswered (method : String) (status : Nat) : e.isAnswered method status =
      (decide (r.method = method) && decide ((x.handle d a r).1.map Answer.status = some status)) := by
    simp only [Site.Event.isAnswered, hasked, Option.any_some, hreply, Reply.status?]
  have hreload (succeeded : Bool) : e.isReload succeeded = false := by
    simp [Site.Event.isReload, hreply, Reply.outcome?]
  cases hm : x.resolve r.method r.path with
  | none =>
    have hresult : x.handle d a r = (none, { x with metrics := x.metrics.countUnmatched r.method }) := by
      simp only [Dispatcher.handle, hm]
    rw [hresult] at hanswered ⊢
    constructor
    · intro method status
      simp [hanswered, Metrics.countUnmatched]
    · intro method
      simp [hunmatched, hm, Metrics.countUnmatched, Metrics.count_bump]
    · intro succeeded
      simp [hreload, Metrics.countUnmatched]
  | some m =>
    have hresult : x.handle d a r = (some (x.respond d a m r).1, (x.respond d a m r).2) := by
      simp only [Dispatcher.handle, hm]
    have hmetrics : (x.respond d a m r).2.metrics =
        x.metrics.countAnswer r.method (x.respond d a m r).1.status := rfl
    rw [hresult] at hanswered ⊢
    rw [hmetrics]
    constructor
    · intro method status
      simp [hanswered, Metrics.countAnswer, Metrics.count_bump]
    · intro method
      simp [hunmatched, hm, Metrics.countAnswer]
    · intro succeeded
      simp [hreload, Metrics.countAnswer]

theorem metrics_reload (x : Dispatcher) (d : Disk) : (x.reload d).2.metrics =
    x.metrics.countReload ((x.reload d).1.toOption.map RouteIndex.size) := by
  unfold reload
  cases x.build d <;> rfl

theorem reload_gains (hasked : e.action.request? = none) (hreply : e.reply = .index (x.reload d).1) :
    x.metrics.Gains e (x.reload d).2.metrics := by
  have hreload (succeeded : Bool) : e.isReload succeeded =
      decide ((x.reload d).1.toOption.isSome = succeeded) := by
    simp only [Site.Event.isReload, hreply, Reply.outcome?]
    cases (x.reload d).1 <;> simp [Except.isOk, Except.toBool, Except.toOption]
  rw [metrics_reload]
  constructor
  · intro method status
    simp [Site.Event.isAnswered, hasked]
  · intro method
    simp [Site.Event.isUnmatched, hasked]
  · intro succeeded
    rw [Metrics.count_reloads_countReload, hreload, Option.isSome_map]
    simp

/-! ## Accounts -/

/-- The counters show what has happened since the start, which itself counts as a reload; and how many
routes there are now. -/
structure Accounts (x : Dispatcher) (past : List Site.Event) : Prop where
  answered : ∀ method status,
    Metrics.count x.metrics.answered (method, status) = past.countP (Site.Event.isAnswered method status)
  unmatched : ∀ method,
    Metrics.count x.metrics.unmatched method = past.countP (Site.Event.isUnmatched method)
  succeeded : Metrics.count x.metrics.reloads true = 1 + past.countP (Site.Event.isReload true)
  failed : Metrics.count x.metrics.reloads false = past.countP (Site.Event.isReload false)
  routes : x.metrics.routes = x.index.size

variable {past : List Site.Event}

theorem accounts_new {c : Settings} (h : new c d = .ok x) : x.Accounts [] := by
  obtain ⟨index, -, rfl⟩ := Except.map_eq_ok_iff.mp h
  exact ⟨fun _ _ => rfl, fun _ => rfl, rfl, rfl, rfl⟩

theorem Accounts.snoc (h : x.Accounts past) {y : Dispatcher} (hgains : x.metrics.Gains e y.metrics)
    (hroutes : y.metrics.routes = y.index.size) : y.Accounts (past ++ [e]) := by
  constructor
  · intro method status
    rw [hgains.answered, h.answered, List.countP_append, List.countP_singleton]
  · intro method
    rw [hgains.unmatched, h.unmatched, List.countP_append, List.countP_singleton]
  · rw [hgains.reloads, h.succeeded, List.countP_append, List.countP_singleton, Nat.add_assoc]
  · rw [hgains.reloads, h.failed, List.countP_append, List.countP_singleton]
  · exact hroutes

theorem routes_handle (h : x.metrics.routes = x.index.size) (a : Template.Ambient) (r : Request) :
    (x.handle d a r).2.metrics.routes = (x.handle d a r).2.index.size := by
  unfold handle
  cases x.resolve r.method r.path <;> exact h

/-- A reload that fails keeps the routes, and so their number. -/
theorem routes_reload (h : x.metrics.routes = x.index.size) :
    (x.reload d).2.metrics.routes = (x.reload d).2.index.size := by
  unfold reload
  cases x.build d with
  | error e => exact h
  | ok index => rfl

end Dispatcher

namespace Site

variable {s : Site} {past : List Event}

theorem accounts_step (h : s.dispatcher.Accounts past) (a : Action) :
    (s.step a).2.dispatcher.Accounts (past ++ [⟨s, a⟩]) := by
  cases a with
  | change c =>
    have hsame : (s.step (.change c)).2.dispatcher = s.dispatcher := by
      cases hd : s.disk.apply c <;> simp only [step, hd]
    rw [hsame]
    refine h.snoc ?_ h.routes
    constructor
    · intro method status
      rfl
    · intro method
      rfl
    · intro succeeded
      simp [Event.isReload, reply_change, Reply.outcome?]
  | handle a r =>
    exact h.snoc (Dispatcher.handle_gains rfl rfl rfl) (Dispatcher.routes_handle h.routes a r)
  | dispatch a limit r =>
    -- once it has a route, a request is read and answered as one that had been read before
    exact h.snoc (Dispatcher.handle_gains (r := r.read limit) rfl rfl rfl)
      (Dispatcher.routes_handle h.routes a (r.read limit))
  | reload => exact h.snoc (Dispatcher.reload_gains rfl rfl) (Dispatcher.routes_reload h.routes)

theorem accounts_run (h : s.dispatcher.Accounts past) (actions : List Action) :
    (s.run actions).2.dispatcher.Accounts (past ++ s.events actions) := by
  induction actions generalizing s past with
  | nil => rwa [events, List.append_nil]
  | cons a rest ih =>
    have hrest := ih (accounts_step h a)
    rwa [List.append_assoc] at hrest

/-- **The counters account for everything.**  After every run from the start of a dispatcher on, the answered
requests are counted by method and status, the requests without a route by method, and the reloads by outcome
with the start as one that has succeeded; and the number of routes is that of the index in use. -/
theorem counters_account {c : Settings} {d : Disk} (h : start c d = .ok s) (actions : List Action) :
    (s.run actions).2.dispatcher.Accounts (s.events actions) ∧
      Metrics.count (s.run actions).2.dispatcher.metrics.reloads true +
          Metrics.count (s.run actions).2.dispatcher.metrics.reloads false =
        1 + actions.countP Action.isReload := by
  obtain ⟨x, hx, rfl⟩ := Except.map_eq_ok_iff.mp h
  have haccounts := accounts_run (s := ⟨d, x⟩) (Dispatcher.accounts_new hx) actions
  rw [List.nil_append] at haccounts
  refine ⟨haccounts, ?_⟩
  rw [haccounts.succeeded, haccounts.failed, Nat.add_assoc, countP_isReload]

/-- The directory is closed before a reload: one reload has succeeded then, the start, and one has failed. -/
theorem counters_account_closed :
    ∃ s, start Stocked.settings ServerRun.Lost.full = .ok s ∧
      (s.run (Stocked.before Stocked.closing ++ [.reload])).2.dispatcher.Accounts
        (s.events (Stocked.before Stocked.closing ++ [.reload])) ∧
      Metrics.count (s.run (Stocked.before Stocked.closing ++ [.reload])).2.dispatcher.metrics.reloads
        true = 1 ∧
      Metrics.count (s.run (Stocked.before Stocked.closing ++ [.reload])).2.dispatcher.metrics.reloads
        false = 1 := by
  obtain ⟨s, hs, hdisk⟩ := Stocked.start_full
  obtain ⟨haccounts, hsum⟩ := counters_account hs (Stocked.before Stocked.closing ++ [.reload])
  have hreload := (madeFrom_run (madeFrom_start hs) (Stocked.before Stocked.closing)).reload_of_error
    Stocked.build_closed
  rw [← Stocked.disk_before hdisk Stocked.apply_closing] at hreload
  have hrequest : Event.isReload false ⟨s, .dispatch ServerRun.Lost.ambient 0 ServerRun.Lost.request⟩ =
      false := rfl
  have hchange (t : Site) : Event.isReload false ⟨t, .change Stocked.closing⟩ = false := by
    rw [Event.isReload, reply_change]
    rfl
  have hfails : Event.isReload false ⟨(s.run (Stocked.before Stocked.closing)).2, .reload⟩ = true := by
    simp only [Event.isReload, Event.reply, step, hreload]
    rfl
  have hfailed : (s.events (Stocked.before Stocked.closing ++ [.reload])).countP (Event.isReload false) =
      1 := by
    show [Event.mk s _, Event.mk _ (.change Stocked.closing),
      Event.mk (s.run (Stocked.before Stocked.closing)).2 .reload].countP (Event.isReload false) = 1
    simp [hrequest, hchange, hfails]
  have hone : (Stocked.before Stocked.closing ++ [Action.reload]).countP Action.isReload = 1 := rfl
  have hlast := haccounts.failed.trans hfailed
  exact ⟨s, hs, haccounts, by omega, hlast⟩

end Site

end CannedApi
