/-
  GnDrive.Flows.ScheduleIds

  The ids under which schedules are registered in the cron runner
  (`sync_engine.rs`): a schedule of a profile under its own id, a flow under
  its trimmed id behind `flow:`.

  Nothing keeps the two kinds apart, nor two flows whose ids differ in blanks
  around them.  `schedule_ids_separate_iff` says for which schedules and flows
  every request about one leaves the entries of the others alone.
-/

import GnDrive.Flows.Schedules

namespace GnDrive.Flows

open Cron (CronSchedule Zone)

structure Schedule where
  id : Text
  profileName : Text
  action : Text
  cron : Text
  enabled : Bool

/-- What the handler of an entry triggers. -/
inductive Trigger where
  | schedule (sch : Schedule)
  | flow (flowId : Text)

/-- The entries of the runner, and the ids the engine has registered. -/
structure Registry where
  entries : Text → Option (CronSchedule × Trigger)
  sched : Text → Bool

/-- The requests that change the entries. -/
inductive ScheduleRequest where
  | register (sch : Schedule)
  | unregister (id : Text)
  | syncFlow (f : FlowRow)
  | unregisterFlow (flowId : Text)

/-- What can be scheduled. -/
inductive Item where
  | schedule (id : Text)
  | flow (id : Text)
deriving DecidableEq

def ScheduleRequest.item : ScheduleRequest → Item
  | .register sch => .schedule sch.id
  | .unregister id => .schedule id
  | .syncFlow f => .flow f.id
  | .unregisterFlow flowId => .flow flowId

/-- The id an item is registered under. -/
def Item.cronId : Item → Text
  | .schedule id => id
  | .flow id => flowScheduleId id

/-- Flows with a blank id are not scheduled. -/
def Item.schedulable : Item → Bool
  | .schedule _ => true
  | .flow id => !(trimWs id).isEmpty

namespace Registry

/-- `unregister_schedule`. -/
def remove (r : Registry) (id : Text) : Registry where
  entries := Function.update r.entries id none
  sched := Function.update r.sched id false

section

variable (parseDuration : Text → Option Int) (z : Zone) (now : Int)

/-- `add`, for an expression that parses: nothing when it never fires. -/
def add (r : Registry) (id : Text) (expr : Text) (t : Trigger) : Registry :=
  match CronSchedule.parse parseDuration expr with
  | .error _ => r
  | .ok schedule =>
      match schedule.nextAfter z now with
      | .ok (some _) =>
          { entries := Function.update r.entries id (some (schedule, t))
            sched := Function.update r.sched id true }
      | _ => r

def registerSchedule (r : Registry) (sch : Schedule) : Registry :=
  let r := r.remove sch.id
  if !sch.enabled || sch.cron.isEmpty then r
  else r.add parseDuration z now sch.id sch.cron (.schedule sch)

/-- The flow executor is set when the container is built. -/
def syncFlowSchedule (r : Registry) (f : FlowRow) : Registry :=
  if (trimWs f.id).isEmpty then r
  else
    let id := flowScheduleId f.id
    let r := r.remove id
    let cronExpr := trimWs f.scheduleCron
    if !f.scheduleEnabled || cronExpr.isEmpty then r
    else r.add parseDuration z now id cronExpr (.flow f.id)

def apply (r : Registry) : ScheduleRequest → Registry
  | .register sch => r.registerSchedule parseDuration z now sch
  | .unregister id => r.remove id
  | .syncFlow f => r.syncFlowSchedule parseDuration z now f
  | .unregisterFlow flowId => r.remove (flowScheduleId flowId)

end
end Registry

def items (schedules : List Schedule) (flows : List FlowRow) : List Item :=
  schedules.map (fun sch => .schedule sch.id) ++ flows.map fun f => .flow f.id

/-- Distinct items are registered under distinct ids, and a request about one
    item leaves the entries of the others as they are. -/
def Separate (parseDuration : Text → Option Int) (z : Zone) (xs : List Item) : Prop :=
  (∀ x ∈ xs, ∀ y ∈ xs, x.schedulable = true → y.schedulable = true → x ≠ y →
      x.cronId ≠ y.cronId) ∧
    ∀ q : ScheduleRequest, q.item ∈ xs → ∀ y ∈ xs, y.schedulable = true → q.item ≠ y →
      ∀ (r : Registry) (now : Int),
        (r.apply parseDuration z now q).entries y.cronId = r.entries y.cronId

/-- No two flows with an id that is not blank have it up to blanks around it,
    and no schedule has an id that a flow is registered under. -/
def NoCollision (schedules : List Schedule) (flows : List FlowRow) : Prop :=
  (∀ f ∈ flows, ∀ g ∈ flows, f.id ≠ g.id → trimWs f.id = trimWs g.id → trimWs f.id = []) ∧
    ∀ sch ∈ schedules, ∀ f ∈ flows, sch.id ≠ flowScheduleId f.id

-- ============================================================================
-- What a request changes
-- ============================================================================

section

variable {parseDuration : Text → Option Int} {z : Zone} {now : Int} {r : Registry} {key id : Text}

theorem remove_other (hkey : key ≠ id) : (r.remove id).entries key = r.entries key :=
  Function.update_of_ne hkey ..

theorem add_other {expr : Text} {t : Trigger} (hkey : key ≠ id) :
    (r.add parseDuration z now id expr t).entries key = r.entries key := by
  unfold Registry.add
  split
  · rfl
  · split
    · exact Function.update_of_ne hkey ..
    · rfl

/-- A request changes the entry of its item only. -/
theorem apply_other {q : ScheduleRequest} (hkey : key ≠ q.item.cronId) :
    (r.apply parseDuration z now q).entries key = r.entries key := by
  cases q with
  | register sch =>
    show (r.registerSchedule parseDuration z now sch).entries key = _
    unfold Registry.registerSchedule
    split
    · exact remove_other hkey
    · exact (add_other hkey).trans (remove_other hkey)
  | unregister id => exact remove_other hkey
  | syncFlow f =>
    show (r.syncFlowSchedule parseDuration z now f).entries key = _
    unfold Registry.syncFlowSchedule
    split
    · rfl
    · dsimp only
      split
      · exact remove_other hkey
      · exact (add_other hkey).trans (remove_other hkey)
  | unregisterFlow flowId => exact remove_other hkey

end

section

variable {schedules : List Schedule} {flows : List FlowRow} {x y : Item}

theorem mem_items : x ∈ items schedules flows ↔
    (∃ sch ∈ schedules, x = .schedule sch.id) ∨ ∃ f ∈ flows, x = .flow f.id := by
  simp [items, eq_comm]

/-- Without a collision, no item has the id of one that can be registered. -/
theorem NoCollision.cronId_ne (h : NoCollision schedules flows) (hx : x ∈ items schedules flows)
    (hy : y ∈ items schedules flows) (hsched : y.schedulable = true) (hne : x ≠ y) :
    x.cronId ≠ y.cronId := by
  rcases mem_items.mp hx with ⟨s, hs, rfl⟩ | ⟨f, hf, rfl⟩
  · rcases mem_items.mp hy with ⟨s', hs', rfl⟩ | ⟨g, hg, rfl⟩
    · exact fun heq => hne (congrArg Item.schedule heq)
    · exact h.2 s hs g hg
  · rcases mem_items.mp hy with ⟨s, hs, rfl⟩ | ⟨g, hg, rfl⟩
    · exact fun heq => h.2 s hs f hf heq.symm
    · intro heq
      have htrim : trimWs f.id = trimWs g.id := List.append_cancel_left heq
      have hids : f.id ≠ g.id := fun hid => hne (congrArg Item.flow hid)
      have hblank := h.1 f hf g hg hids htrim
      rw [htrim] at hblank
      simp [Item.schedulable, hblank] at hsched

end

/-- A request about an item takes the entry under its id out. -/
theorem unregister_removes (parseDuration : Text → Option Int) (z : Zone) (x : Item) :
    ∃ q : ScheduleRequest, q.item = x ∧ ∃ (r : Registry) (now : Int),
      (r.apply parseDuration z now q).entries x.cronId ≠ r.entries x.cronId := by
  let r : Registry := ⟨fun _ => some (Cron.everySchedule 1, .flow []), fun _ => true⟩
  have hremoved : ∀ id, (r.remove id).entries id ≠ r.entries id := by
    intro id hsame
    have hnone : (r.remove id).entries id = none := Function.update_self ..
    rw [hnone] at hsame
    cases hsame
  cases x with
  | schedule id => exact ⟨.unregister id, rfl, r, 0, hremoved id⟩
  | flow id => exact ⟨.unregisterFlow id, rfl, r, 0, hremoved (flowScheduleId id)⟩

end GnDrive.Flows
