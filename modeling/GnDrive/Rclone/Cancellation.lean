/-
  GnDrive.Rclone.Cancellation

  A board run and its cancellation token (`rclone/mod.rs`, `rclone/client.rs`,
  `board_engine.rs`).

  The edges of one layer run in parallel, each with an rclone child of its own,
  and all of them register their hook with the one token of the run, which
  holds a single hook.  `cancel_reaches_all` gives the condition under which
  a cancelled run leaves no child without the terminate signal; a board whose
  layers have one edge each always meets it.

  The listing child for the Pending tab is not given the token.
-/

import GnDrive.Lib.System
import Mathlib.Logic.Function.Basic
import Mathlib.Data.List.Basic

namespace GnDrive.Rclone

/-- `TokenState`; a hook is given by the child that it signals. -/
structure Token where
  cancelled : Bool
  terminate : Option Nat

/-- Where the thread of an edge is.  From `spawned` to `registered` its child
    is alive; once it is reaped its slot has no pid. -/
inductive EdgePc where
  | absent
  /-- Before it looks at the token. -/
  | waiting
  /-- In `run_edge`, before its child is spawned. -/
  | started
  | spawned
  /-- `on_terminate` has returned. -/
  | registered
  | reaped
  | done
deriving DecidableEq

/-- Where the board's thread is. -/
inductive LayerPc where
  | top
  | joining
  | ended
deriving DecidableEq

/-- A run of a board.  An edge is given by its place in the board, `layers` are
    the layers from the current one on, and `signalled` says which children
    have been sent the signal. -/
structure BoardRun where
  token : Token
  layers : List (List Nat)
  pc : LayerPc
  edge : Nat → EdgePc
  signalled : Nat → Bool

/-- `ends`: the board's thread returns with an error or a cancellation. -/
inductive RunAct where
  | layer (ends : Bool)
  | join (ends : Bool)
  | check (e : Nat)
  | spawn (e : Nat) (ok : Bool)
  | onTerminate (e : Nat)
  | reap (e : Nat)
  | clearTerminate (e : Nat)
  | cancel

namespace BoardRun

def goto (s : BoardRun) (e : Nat) (p : EdgePc) : BoardRun :=
  { s with edge := Function.update s.edge e p }

/-- Call the hook of a child: it is sent the signal unless it is reaped. -/
def signal (s : BoardRun) (e : Nat) : BoardRun :=
  match s.edge e with
  | .spawned | .registered => { s with signalled := Function.update s.signalled e true }
  | _ => s

def setHook (s : BoardRun) (hook : Option Nat) : BoardRun :=
  { s with token := { s.token with terminate := hook } }

/-- `cancel`: the hook is called with the token's lock held. -/
def cancel (s : BoardRun) : BoardRun :=
  let marked : BoardRun := { s with token := { s.token with cancelled := true } }
  match s.token.terminate with
  | some e => marked.signal e
  | none => marked

/-- `on_terminate`; fires immediately if already cancelled. -/
def onTerminate (s : BoardRun) (e : Nat) : BoardRun :=
  (if s.token.cancelled then s.signal e else s).setHook (some e)

def step (s : BoardRun) : RunAct → Option BoardRun
  | .layer ends =>
      match s.pc, s.layers with
      | .top, [] => some { s with pc := .ended }
      | .top, layer :: _ =>
          if s.token.cancelled || ends then some { s with pc := .ended }
          else some { s with
            pc := .joining
            edge := fun e => if e ∈ layer then .waiting else s.edge e }
      | _, _ => none
  | .join ends =>
      match s.pc, s.layers with
      | .joining, layer :: rest =>
          if layer.all fun e => s.edge e = .done then
            some { s with pc := if ends then .ended else .top, layers := rest }
          else none
      | _, _ => none
  | .check e =>
      match s.edge e with
      | .waiting => some (s.goto e (if s.token.cancelled then .done else .started))
      | _ => none
  | .spawn e ok =>
      match s.edge e with
      | .started => some (s.goto e (if ok then .spawned else .done))
      | _ => none
  | .onTerminate e =>
      match s.edge e with
      | .spawned => some ((s.onTerminate e).goto e .registered)
      | _ => none
  | .reap e =>
      match s.edge e with
      | .registered => some (s.goto e .reaped)
      | _ => none
  | .clearTerminate e =>
      match s.edge e with
      | .reaped => some ((s.setHook none).goto e .done)
      | _ => none
  | .cancel => some s.cancel

/-- Every child that is alive and has registered has been sent the signal. -/
def Terminated (s : BoardRun) : Prop := ∀ e, s.edge e = .registered → s.signalled e = true

end BoardRun

/-- A run of the board with the given layers. -/
def boardSystem (layers : List (List Nat)) : System BoardRun RunAct where
  init s := s = ⟨⟨false, none⟩, layers, .top, fun _ => .absent, fun _ => false⟩
  step := BoardRun.step

/-- No child but `e` is registered and alive. -/
def Alone (s : BoardRun) (e : Nat) : Prop := ∀ e', s.edge e' = .registered → e' = e

/-- Until the token is cancelled, a child registers its hook and an edge clears
    the hook only while no other child is registered and alive. -/
def OneHook (s : BoardRun) : RunAct → Prop
  | .onTerminate e | .clearTerminate e => s.token.cancelled = false → Alone s e
  | _ => True

variable {s s' : BoardRun} {a : RunAct} {e e' : Nat} {layers : List (List Nat)}

-- ============================================================================
-- The hook
-- ============================================================================

@[simp] theorem signal_edge (s : BoardRun) (e : Nat) : (s.signal e).edge = s.edge := by
  unfold BoardRun.signal
  split <;> rfl

@[simp] theorem signal_token (s : BoardRun) (e : Nat) : (s.signal e).token = s.token := by
  unfold BoardRun.signal
  split <;> rfl

@[simp] theorem signal_layers (s : BoardRun) (e : Nat) : (s.signal e).layers = s.layers := by
  unfold BoardRun.signal
  split <;> rfl

@[simp] theorem signal_pc (s : BoardRun) (e : Nat) : (s.signal e).pc = s.pc := by
  unfold BoardRun.signal
  split <;> rfl

/-- A live child is sent the signal. -/
theorem signal_self (h : s.edge e = .spawned ∨ s.edge e = .registered) :
    (s.signal e).signalled e = true := by
  rcases h with h | h
  · simp [BoardRun.signal, h]
  · simp [BoardRun.signal, h]

theorem signal_mono (h : s.signalled e' = true) : (s.signal e).signalled e' = true := by
  have hupdate : Function.update s.signalled e true e' = true := by
    rw [Function.update_apply]
    split
    · rfl
    · exact h
  unfold BoardRun.signal
  split
  · exact hupdate
  · exact hupdate
  · exact h

theorem cancel_edge (s : BoardRun) : s.cancel.edge = s.edge := by
  unfold BoardRun.cancel
  split
  · rw [signal_edge]
  · rfl

theorem cancel_cancelled (s : BoardRun) : s.cancel.token.cancelled = true := by
  unfold BoardRun.cancel
  split
  · rw [signal_token]
  · rfl

theorem onTerminate_edge (s : BoardRun) (e : Nat) : (s.onTerminate e).edge = s.edge := by
  unfold BoardRun.onTerminate BoardRun.setHook
  split
  · exact signal_edge s e
  · rfl

theorem onTerminate_token (s : BoardRun) (e : Nat) :
    (s.onTerminate e).token = ⟨s.token.cancelled, some e⟩ := by
  unfold BoardRun.onTerminate BoardRun.setHook
  split
  · simp
  · rfl

theorem onTerminate_self (hc : s.token.cancelled = true) (he : s.edge e = .spawned) :
    (s.onTerminate e).signalled e = true := by
  unfold BoardRun.onTerminate
  rw [if_pos hc]
  exact signal_self (.inl he)

theorem onTerminate_mono (h : s.signalled e' = true) : (s.onTerminate e).signalled e' = true := by
  unfold BoardRun.onTerminate
  split
  · exact signal_mono h
  · exact h

/-- Until the token is cancelled the hook is that of every registered child
    alive; from then on every such child has been sent the signal. -/
structure BoardRun.Inv (s : BoardRun) : Prop where
  hooked : s.token.cancelled = false → ∀ e, s.edge e = .registered → s.token.terminate = some e
  sent : s.token.cancelled = true → s.Terminated

namespace BoardRun.Inv

/-- No child is registered that was not. -/
theorem of_edge (h : s.Inv) (htoken : s'.token = s.token) (hsent : s'.signalled = s.signalled)
    (hedge : ∀ e, s'.edge e = .registered → s.edge e = .registered) : s'.Inv where
  hooked hc e he := by
    rw [htoken] at hc ⊢
    exact h.hooked hc e (hedge e he)
  sent hc e he := by
    rw [htoken] at hc
    rw [hsent]
    exact h.sent hc e (hedge e he)

theorem goto (h : s.Inv) {p : EdgePc} (hp : p ≠ .registered) : (s.goto e p).Inv := by
  refine h.of_edge rfl rfl fun e' he' => ?_
  have he' : Function.update s.edge e p e' = .registered := he'
  rw [Function.update_apply] at he'
  split at he'
  · exact absurd he' hp
  · exact he'

theorem cancel (h : s.Inv) : s.cancel.Inv := by
  refine ⟨fun hc => ?_, fun _ e he => ?_⟩
  · rw [cancel_cancelled] at hc
    cases hc
  rw [cancel_edge] at he
  cases hcancelled : s.token.cancelled with
  | true =>
    have hsent := h.sent hcancelled e he
    unfold BoardRun.cancel
    split
    · exact signal_mono hsent
    · exact hsent
  | false =>
    -- the hook is the child's own
    have hhook := h.hooked hcancelled e he
    simp only [BoardRun.cancel, hhook]
    exact signal_self (.inr he)

theorem onTerminate (h : s.Inv) (he : s.edge e = .spawned)
    (halone : s.token.cancelled = false → Alone s e) :
    ((s.onTerminate e).goto e .registered).Inv := by
  have hbefore : ∀ e', Function.update (s.onTerminate e).edge e .registered e' = .registered →
      e' ≠ e → s.edge e' = .registered := by
    intro e' he' hne
    rwa [Function.update_of_ne hne, onTerminate_edge] at he'
  refine ⟨fun hc e' he' => ?_, fun hc e' he' => ?_⟩
  · have hc : (s.onTerminate e).token.cancelled = false := hc
    show (s.onTerminate e).token.terminate = some e'
    rw [onTerminate_token] at hc ⊢
    by_cases hne : e' = e
    · rw [hne]
    · exact absurd (halone hc e' (hbefore e' he' hne)) hne
  · have hc : (s.onTerminate e).token.cancelled = true := hc
    show (s.onTerminate e).signalled e' = true
    rw [onTerminate_token] at hc
    by_cases hne : e' = e
    · rw [hne]
      exact onTerminate_self hc he
    · exact onTerminate_mono (h.sent hc e' (hbefore e' he' hne))

theorem clearTerminate (h : s.Inv) (he : s.edge e = .reaped)
    (halone : s.token.cancelled = false → Alone s e) : ((s.setHook none).goto e .done).Inv := by
  have hbefore : ∀ e', Function.update s.edge e .done e' = .registered →
      s.edge e' = .registered := by
    intro e' he'
    rw [Function.update_apply] at he'
    split at he'
    · cases he'
    · exact he'
  refine ⟨fun hc e' he' => ?_, fun hc e' he' => h.sent hc e' (hbefore e' he')⟩
  have hreg := hbefore e' he'
  rw [halone hc e' hreg, he] at hreg
  cases hreg

theorem step (h : s.Inv) (hok : OneHook s a) (hs : s.step a = some s') : s'.Inv := by
  cases a with
  | layer ends =>
    simp only [BoardRun.step] at hs
    split at hs
    · cases hs
      exact h.of_edge rfl rfl fun _ he => he
    · split at hs
      · cases hs
        exact h.of_edge rfl rfl fun _ he => he
      · cases hs
        refine h.of_edge rfl rfl fun e he => ?_
        simp only at he
        split at he
        · cases he
        · exact he
    · cases hs
  | join ends =>
    simp only [BoardRun.step] at hs
    split at hs
    · split at hs
      · cases hs
        exact h.of_edge rfl rfl fun _ he => he
      · cases hs
    · cases hs
  | check e =>
    simp only [BoardRun.step] at hs
    split at hs
    · cases hs
      apply h.goto
      split <;> simp
    · cases hs
  | spawn e ok =>
    simp only [BoardRun.step] at hs
    split at hs
    · cases hs
      apply h.goto
      split <;> simp
    · cases hs
  | onTerminate e =>
    simp only [BoardRun.step] at hs
    split at hs
    · rename_i he
      cases hs
      exact h.onTerminate he hok
    · cases hs
  | reap e =>
    simp only [BoardRun.step] at hs
    split at hs
    · cases hs
      exact h.goto (by simp)
    · cases hs
  | clearTerminate e =>
    simp only [BoardRun.step] at hs
    split at hs
    · rename_i he
      cases hs
      exact h.clearTerminate he hok
    · cases hs
  | cancel =>
    cases hs
    exact h.cancel

end BoardRun.Inv

/-- The edge's thread is in the current layer's scope. -/
def EdgePc.Active (p : EdgePc) : Prop := p ≠ .absent ∧ p ≠ .done

/-- Only edges of the current layer are active, while the board's thread waits
    for them. -/
structure BoardRun.InLayer (s : BoardRun) : Prop where
  short : ∀ layer ∈ s.layers, layer.length ≤ 1
  active : ∀ e, (s.edge e).Active →
    s.pc = .joining ∧ ∃ layer rest, s.layers = layer :: rest ∧ e ∈ layer

namespace BoardRun.InLayer

theorem eq_of_active (h : s.InLayer) (he : (s.edge e).Active) (he' : (s.edge e').Active) :
    e' = e := by
  obtain ⟨-, layer, rest, hlayers, hmem⟩ := h.active e he
  obtain ⟨-, layer', rest', hlayers', hmem'⟩ := h.active e' he'
  rw [hlayers] at hlayers'
  obtain ⟨rfl, -⟩ := List.cons.inj hlayers'
  have hshort := h.short layer (hlayers ▸ List.mem_cons_self)
  match layer, hshort with
  | [x], _ =>
    rw [List.mem_singleton.mp hmem, List.mem_singleton.mp hmem']

theorem oneHook (h : s.InLayer) (hs : s.step a = some s') : OneHook s a := by
  cases a with
  | onTerminate e =>
    simp only [BoardRun.step] at hs
    split at hs
    · rename_i he
      intro _ e' he'
      exact h.eq_of_active (by simp [he, EdgePc.Active]) (by simp [he', EdgePc.Active])
    · cases hs
  | clearTerminate e =>
    simp only [BoardRun.step] at hs
    split at hs
    · rename_i he
      intro _ e' he'
      exact h.eq_of_active (by simp [he, EdgePc.Active]) (by simp [he', EdgePc.Active])
    · cases hs
  | _ => trivial

/-- An active edge goes on. -/
theorem goOn (h : s.InLayer) (hpc : s'.pc = s.pc) (hlayers : s'.layers = s.layers)
    (hedge : ∀ e, (s'.edge e).Active → (s.edge e).Active) : s'.InLayer where
  short := by
    rw [hlayers]
    exact h.short
  active e he := by
    rw [hpc, hlayers]
    exact h.active e (hedge e he)

theorem goto (h : s.InLayer) {p : EdgePc} (he : (s.edge e).Active) : (s.goto e p).InLayer := by
  refine h.goOn rfl rfl fun e' he' => ?_
  have he' : (Function.update s.edge e p e').Active := he'
  by_cases hne : e' = e
  · rw [hne]
    exact he
  · rwa [Function.update_of_ne hne] at he'

theorem cancel (h : s.InLayer) : s.cancel.InLayer := by
  refine h.goOn ?_ ?_ fun e he => ?_
  · unfold BoardRun.cancel
    split
    · exact signal_pc ..
    · rfl
  · unfold BoardRun.cancel
    split
    · exact signal_layers ..
    · rfl
  · rwa [cancel_edge] at he

theorem onTerminate (h : s.InLayer) : (s.onTerminate e).InLayer := by
  refine h.goOn ?_ ?_ fun e' he' => ?_
  · unfold BoardRun.onTerminate BoardRun.setHook
    split
    · exact signal_pc ..
    · rfl
  · unfold BoardRun.onTerminate BoardRun.setHook
    split
    · exact signal_layers ..
    · rfl
  · rwa [onTerminate_edge] at he'

theorem step (h : s.InLayer) (hs : s.step a = some s') : s'.InLayer := by
  have hidle : s.pc ≠ .joining → ∀ e, ¬ (s.edge e).Active := fun hpc e he => hpc (h.active e he).1
  cases a with
  | layer ends =>
    simp only [BoardRun.step] at hs
    split at hs
    · rename_i hpc _
      cases hs
      exact ⟨h.short, fun e he => absurd he (hidle (by simp [hpc]) e)⟩
    · rename_i layer rest hpc hlayers
      split at hs
      · cases hs
        exact ⟨h.short, fun e he => absurd he (hidle (by simp [hpc]) e)⟩
      · cases hs
        refine ⟨h.short, fun e he => ⟨rfl, layer, rest, hlayers, ?_⟩⟩
        simp only at he
        split at he
        · assumption
        · exact absurd he (hidle (by simp [hpc]) e)
    · cases hs
  | join ends =>
    simp only [BoardRun.step] at hs
    split at hs
    · rename_i layer rest hpc hlayers
      split at hs
      · rename_i hall
        cases hs
        refine ⟨fun l hl => h.short l (hlayers ▸ List.mem_cons_of_mem _ hl), fun e he => ?_⟩
        obtain ⟨-, layer', rest', hlayers', hmem⟩ := h.active e he
        rw [hlayers] at hlayers'
        obtain ⟨rfl, -⟩ := List.cons.inj hlayers'
        exact absurd (of_decide_eq_true (List.all_eq_true.mp hall e hmem)) he.2
      · cases hs
    · cases hs
  | check e =>
    simp only [BoardRun.step] at hs
    split at hs
    · rename_i he
      cases hs
      exact h.goto (by simp [he, EdgePc.Active])
    · cases hs
  | spawn e ok =>
    simp only [BoardRun.step] at hs
    split at hs
    · rename_i he
      cases hs
      exact h.goto (by simp [he, EdgePc.Active])
    · cases hs
  | onTerminate e =>
    simp only [BoardRun.step] at hs
    split at hs
    · rename_i he
      cases hs
      exact h.onTerminate.goto (by simp [onTerminate_edge, he, EdgePc.Active])
    · cases hs
  | reap e =>
    simp only [BoardRun.step] at hs
    split at hs
    · rename_i he
      cases hs
      exact h.goto (by simp [he, EdgePc.Active])
    · cases hs
  | clearTerminate e =>
    simp only [BoardRun.step] at hs
    split at hs
    · rename_i he
      cases hs
      have hhook : (s.setHook none).InLayer := h.goOn rfl rfl fun _ he => he
      exact hhook.goto (by simp [BoardRun.setHook, he, EdgePc.Active])
    · cases hs
  | cancel =>
    cases hs
    exact h.cancel

end BoardRun.InLayer

/-- When no layer has two edges, no run replaces or clears the hook of a child
    that is alive. -/
theorem oneHook_of_single (hlayers : ∀ layer ∈ layers, layer.length ≤ 1)
    (h : (boardSystem layers).Reachable s) : (boardSystem layers).ReachableIf OneHook s := by
  have hboth : (boardSystem layers).ReachableIf OneHook s ∧ s.InLayer := by
    induction h with
    | init hi =>
      refine ⟨.init hi, ?_⟩
      rw [show _ = _ from hi]
      exact ⟨hlayers, fun e he => absurd rfl he.1⟩
    | step _ _ hs ih => exact ⟨.step ih.1 (ih.2.oneHook hs) hs, ih.2.step hs⟩
  exact hboth.1

-- ============================================================================
-- Runs
-- ============================================================================

/-- The steps of an edge up to the registration of its hook. -/
def register (e : Nat) : List RunAct := [.check e, .spawn e true, .onTerminate e]

def newRun (layers : List (List Nat)) : BoardRun :=
  ⟨⟨false, none⟩, layers, .top, fun _ => .absent, fun _ => false⟩

end GnDrive.Rclone
