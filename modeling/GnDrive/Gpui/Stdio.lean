/-
  GnDrive.Gpui.Stdio

  The engine as a child process (`engine/stdio.rs` of the window).

  A supervisor thread spawns a child, stores its stdin and waits for its end;
  each child has a reader thread that takes up what it says; `retry` and
  `shutdown` are called from other threads, and `shutdown` leaves the child to
  a thread of its own that kills it in the end.  Each access of the shared
  state is one step.

  `Sound` is what holds in every state: there is one supervisor at most, and
  the stored child and the stored stdin are those of the last child.

  Left out are `hello`, the pushed frames, the tail of stderr and the texts of
  the statuses.  A reader may find the end of its pipe at any time, and what a
  child has said may be read after its end.
-/

import GnDrive.Lib.System
import Mathlib.Logic.Function.Basic

namespace GnDrive.Gpui.Stdio

inductive LinkStatus where
  | starting
  | ready
  | fatal (code : String)
  | restarting (delay : Nat)
  | stopped
deriving DecidableEq

/-- Where a supervisor is; children are told apart by the order in which they
    were spawned. -/
inductive SupPc where
  | gone
  | top
  | starting
  | resolving
  | noBinary
  | spawning
  | noSpawn
  | giveUp
  /-- About to clear `healthy`. -/
  | spawned (c : Nat)
  /-- About to store the stdin. -/
  | cleared (c : Nat)
  /-- About to spawn the reader. -/
  | piped (c : Nat)
  /-- About to store the child. -/
  | listened (c : Nat)
  | polling
  | killing
  | waiting
  /-- Out of the inner loop. -/
  | taking
  | closing
  | closed
  | judging
  | counting
  | restarting
  | leaving
deriving DecidableEq

structure Sup where
  pc : SupPc
  attempt : Nat
deriving DecidableEq

/-- Where a reader is. -/
inductive ReaderPc where
  | none
  | reading
  /-- It has read `hello`. -/
  | greeted
  | marked
  /-- It has read `fatal`. -/
  | failing (code : String)
  | failed
  /-- At the end of the pipe. -/
  | ending
  | over
deriving DecidableEq

inductive Line where
  | hello
  | fatal (code : String)
  | other
  | eof
deriving DecidableEq

/-- Where a call of `retry` or `shutdown` is. -/
inductive CallPc where
  | idle
  /-- `retry` has cleared `fatal`. -/
  | unfailed
  /-- And `stopped`. -/
  | resumed
  /-- And has set the status. -/
  | checking
  /-- In `spawn_supervisor`. -/
  | swapping
  /-- `shutdown` has set `stopped`. -/
  | quitting
  /-- And dropped the stdin. -/
  | taking
  /-- And taken the child. -/
  | stopping
deriving DecidableEq

/-- `down` says that a `shutdown` has returned and no `retry` has begun since. -/
structure Link where
  status : LinkStatus
  out : Option Nat
  slot : Option Nat
  stopped : Bool
  supervising : Bool
  healthy : Bool
  fatal : Bool
  sup : Nat → Sup
  spawned : Nat
  alive : Nat → Bool
  reader : Nat → ReaderPc
  reaper : Nat → Bool
  call : Nat → CallPc
  down : Bool

/-- `sup` has `ok` for what the binary lookup, the spawn or `try_wait` comes to;
    `next` has the thread that a `retry` may spawn. -/
inductive Act where
  | sup (j : Nat) (ok : Bool)
  | read (c : Nat) (line : Line)
  | reader (c : Nat)
  | exit (c : Nat)
  | reap (c : Nat)
  | retry (i : Nat)
  | shutdown (i : Nat)
  | next (i : Nat) (j : Nat)
deriving DecidableEq

/-- The wait before the next start. -/
def delay (attempt : Nat) : Nat := [1, 2, 4, 8, 16, 30].getD (min attempt 5) 30

namespace Link

/-- `StdioBackend::new`. -/
def initial : Link where
  status := .starting
  out := none
  slot := none
  stopped := false
  supervising := true
  healthy := false
  fatal := false
  sup j := ⟨if j = 0 then .top else .gone, 0⟩
  spawned := 0
  alive _ := false
  reader _ := .none
  reaper _ := false
  call _ := .idle
  down := false

def setSup (s : Link) (j : Nat) (x : Sup) : Link := { s with sup := Function.update s.sup j x }

def setAlive (s : Link) (c : Nat) (b : Bool) : Link :=
  { s with alive := Function.update s.alive c b }

def setReader (s : Link) (c : Nat) (pc : ReaderPc) : Link :=
  { s with reader := Function.update s.reader c pc }

def setReaper (s : Link) (c : Nat) (b : Bool) : Link :=
  { s with reaper := Function.update s.reaper c b }

def setCall (s : Link) (i : Nat) (pc : CallPc) : Link :=
  { s with call := Function.update s.call i pc }

/-- A supervisor goes on to `pc`. -/
def goto (s : Link) (j : Nat) (pc : SupPc) : Link := s.setSup j ⟨pc, (s.sup j).attempt⟩

/-- Kill the child in the slot. -/
def killSlot (s : Link) : Link :=
  match s.slot with
  | some c => { s.setAlive c false with slot := none }
  | none => s

/-- What `shutdown` takes out of the slot goes to a thread that kills it. -/
def takeSlot (s : Link) : Link :=
  match s.slot with
  | some c => { s.setReaper c true with slot := none }
  | none => s

/-- The next step of a supervisor. -/
def supStep (s : Link) (j : Nat) (ok : Bool) : Option Link :=
  match (s.sup j).pc with
  | .gone => none
  | .top => some (s.goto j (if s.stopped then .leaving else .starting))
  | .starting => some ({ s with status := .starting }.goto j .resolving)
  | .resolving => some (s.goto j (if ok then .spawning else .noBinary))
  | .noBinary => some ({ s with status := .fatal "binary_missing" }.goto j .giveUp)
  | .spawning =>
      if ok then
        some ({ s.setAlive s.spawned true with spawned := s.spawned + 1 }.goto j
          (.spawned s.spawned))
      else some (s.goto j .noSpawn)
  | .noSpawn => some ({ s with status := .fatal "spawn_failed" }.goto j .giveUp)
  | .giveUp => some ({ s with fatal := true }.goto j .leaving)
  | .spawned c => some ({ s with healthy := false }.goto j (.cleared c))
  | .cleared c => some ({ s with out := some c }.goto j (.piped c))
  | .piped c => some ((s.setReader c .reading).goto j (.listened c))
  | .listened c => some ({ s with slot := some c }.goto j .polling)
  | .polling => some (s.goto j (if s.stopped then .killing else .waiting))
  | .killing => some (s.killSlot.goto j .taking)
  | .waiting =>
      match s.slot with
      | none => some (s.goto j .taking)
      | some c => some (s.goto j (if ok && s.alive c then .polling else .taking))
  | .taking => some ({ s with slot := none }.goto j .closing)
  | .closing => some ({ s with out := none }.goto j .closed)
  | .closed => some (s.goto j (if s.stopped then .leaving else .judging))
  | .judging => some (s.goto j (if s.fatal then .leaving else .counting))
  | .counting =>
      some (s.setSup j ⟨.restarting, if s.healthy then 0 else (s.sup j).attempt + 1⟩)
  | .restarting => some ({ s with status := .restarting (delay (s.sup j).attempt) }.goto j .top)
  | .leaving => some ({ s with supervising := false }.goto j .gone)

/-- A reader has the next line. -/
def readLine (s : Link) (c : Nat) (line : Line) : Option Link :=
  match s.reader c with
  | .reading =>
      some (s.setReader c
        (match line with
        | .hello => .greeted
        | .fatal code => .failing code
        | .other => .reading
        | .eof => .ending))
  | _ => none

/-- The next step of a reader with its line, or after the last. -/
def readerStep (s : Link) (c : Nat) : Option Link :=
  match s.reader c with
  | .greeted => some ({ s with healthy := true }.setReader c .marked)
  | .marked => some ({ s with status := .ready }.setReader c .reading)
  | .failing code => some ({ s with status := .fatal code }.setReader c .failed)
  | .failed => some ({ s with fatal := true }.setReader c .reading)
  | .ending => some ({ s with out := none }.setReader c .over)
  | _ => none

/-- The next step of a call; `j` is the thread it may spawn. -/
def callStep (s : Link) (i j : Nat) : Option Link :=
  match s.call i with
  | .idle => none
  | .unfailed => some ({ s with stopped := false }.setCall i .resumed)
  | .resumed => some ({ s with status := .starting }.setCall i .checking)
  | .checking => some (s.setCall i (if s.supervising then .idle else .swapping))
  | .swapping =>
      if s.supervising then some (s.setCall i .idle)
      else if (s.sup j).pc = .gone then
        some (({ s with supervising := true }.setSup j ⟨.top, 0⟩).setCall i .idle)
      else none
  | .quitting => some ({ s with out := none }.setCall i .taking)
  | .taking => some (s.takeSlot.setCall i .stopping)
  | .stopping => some ({ s with status := .stopped, down := true }.setCall i .idle)

def step (s : Link) : Act → Option Link
  | .sup j ok => s.supStep j ok
  | .read c line => s.readLine c line
  | .reader c => s.readerStep c
  | .exit c => if s.alive c then some (s.setAlive c false) else none
  | .reap c => if s.reaper c then some ((s.setAlive c false).setReaper c false) else none
  | .retry i =>
      if s.call i = .idle then some ({ s with fatal := false, down := false }.setCall i .unfailed)
      else none
  | .shutdown i =>
      if s.call i = .idle then some ({ s with stopped := true }.setCall i .quitting) else none
  | .next i j => s.callStep i j

end Link

/-- The window's backend from `new` on. -/
def linkSystem : System Link Act where
  init s := s = .initial
  step := Link.step

-- ============================================================================
-- What holds in every state
-- ============================================================================

namespace SupPc

def active : SupPc → Bool
  | .gone => false
  | _ => true

/-- The child may be in the slot. -/
def keeps : SupPc → Bool
  | .polling | .killing | .waiting | .taking => true
  | _ => false

/-- The stdin of the child may be stored. -/
def connected : SupPc → Bool
  | .piped _ | .listened _ | .closing => true
  | pc => pc.keeps

/-- A child on its way to the slot. -/
def held : SupPc → Option Nat
  | .spawned c | .cleared c | .piped c | .listened c => some c
  | _ => none

end SupPc

namespace Link

/-- Some supervisor is at a step of the given kind. -/
def SupAt (s : Link) (f : SupPc → Bool) : Prop := ∃ j, f (s.sup j).pc = true

structure Sound (s : Link) : Prop where
  alone : ∀ i j, (s.sup i).pc.active = true → (s.sup j).pc.active = true → i = j
  flag : s.supervising = true ↔ s.SupAt SupPc.active
  slot : s.slot.isSome = true → s.SupAt SupPc.keeps
  out : s.out.isSome = true → s.SupAt SupPc.connected
  held : ∀ j c, (s.sup j).pc.held = some c → c + 1 = s.spawned
  slotLast : ∀ c, s.slot = some c → c + 1 = s.spawned
  outLast : ∀ c, s.out = some c → c + 1 = s.spawned
  readers : ∀ c, s.spawned ≤ c → s.reader c = .none

end Link

variable {s s' : Link} {j : Nat}

theorem active_of_keeps {pc : SupPc} (h : pc.keeps = true) : pc.active = true := by
  cases pc <;> first | rfl | cases h

theorem active_of_connected {pc : SupPc} (h : pc.connected = true) : pc.active = true := by
  cases pc <;> first | rfl | cases h

theorem active_of_held {pc : SupPc} {c : Nat} (h : pc.held = some c) : pc.active = true := by
  cases pc <;> first | rfl | cases h

theorem last_of_none {o : Option Nat} {n : Nat} (h : o = none) : ∀ c, o = some c → c + 1 = n := by
  intro c hc
  rw [h] at hc
  cases hc

namespace Link

/-- Apart from the one supervisor there is none. -/
theorem Sound.others (h : s.Sound) (hp : (s.sup j).pc.active = true) {k : Nat} (hk : k ≠ j) :
    (s.sup k).pc.active = false := by
  by_contra hact
  exact hk (h.alone k j (by simpa using hact) hp)

/-- What some supervisor does, the one supervisor does. -/
theorem Sound.at_one (h : s.Sound) (hp : (s.sup j).pc.active = true) {f : SupPc → Bool}
    (hf : ∀ pc, f pc = true → pc.active = true) (hsome : s.SupAt f) : f (s.sup j).pc = true := by
  obtain ⟨k, hk⟩ := hsome
  rwa [h.alone j k hp (hf _ hk)]

theorem Sound.slot_keeps (h : s.Sound) (hp : (s.sup j).pc.active = true)
    (hslot : s.slot.isSome = true) : (s.sup j).pc.keeps = true :=
  h.at_one hp (fun _ => active_of_keeps) (h.slot hslot)

theorem Sound.out_connected (h : s.Sound) (hp : (s.sup j).pc.active = true)
    (hout : s.out.isSome = true) : (s.sup j).pc.connected = true :=
  h.at_one hp (fun _ => active_of_connected) (h.out hout)

theorem Sound.slot_none (h : s.Sound) (hp : (s.sup j).pc.active = true)
    (hk : (s.sup j).pc.keeps = false) : s.slot = none := by
  by_contra hne
  have := h.slot_keeps hp (Option.isSome_iff_ne_none.mpr hne)
  rw [hk] at this
  cases this

theorem Sound.out_none (h : s.Sound) (hp : (s.sup j).pc.active = true)
    (hk : (s.sup j).pc.connected = false) : s.out = none := by
  by_contra hne
  have := h.out_connected hp (Option.isSome_iff_ne_none.mpr hne)
  rw [hk] at this
  cases this

/-- The supervisor `j`, next to which there is none, comes to another place. -/
theorem Sound.of_move {x : Sup} (hothers : ∀ k, k ≠ j → (s.sup k).pc.active = false)
    (hsup : s'.sup = Function.update s.sup j x) (hflag : s'.supervising = x.pc.active)
    (hslot : s'.slot = none ∨ x.pc.keeps = true) (hout : s'.out = none ∨ x.pc.connected = true)
    (hheld : ∀ c, x.pc.held = some c → c + 1 = s'.spawned)
    (hslotLast : ∀ c, s'.slot = some c → c + 1 = s'.spawned)
    (houtLast : ∀ c, s'.out = some c → c + 1 = s'.spawned)
    (hreaders : ∀ c, s'.spawned ≤ c → s'.reader c = .none) : s'.Sound where
  alone i k hi hk := by
    rw [hsup] at hi hk
    by_cases hij : i = j
    · by_cases hkj : k = j
      · rw [hij, hkj]
      · rw [Function.update_of_ne hkj, hothers k hkj] at hk
        cases hk
    · rw [Function.update_of_ne hij, hothers i hij] at hi
      cases hi
  flag := by
    rw [hflag]
    constructor
    · intro hact
      exact ⟨j, by rwa [hsup, Function.update_self]⟩
    · rintro ⟨k, hk⟩
      rw [hsup] at hk
      by_cases hkj : k = j
      · rwa [hkj, Function.update_self] at hk
      · rw [Function.update_of_ne hkj, hothers k hkj] at hk
        cases hk
  slot hs := by
    refine ⟨j, ?_⟩
    rw [hsup, Function.update_self]
    exact hslot.resolve_left (Option.isSome_iff_ne_none.mp hs)
  out hs := by
    refine ⟨j, ?_⟩
    rw [hsup, Function.update_self]
    exact hout.resolve_left (Option.isSome_iff_ne_none.mp hs)
  held k c hk := by
    rw [hsup] at hk
    by_cases hkj : k = j
    · rw [hkj, Function.update_self] at hk
      exact hheld c hk
    · rw [Function.update_of_ne hkj] at hk
      have := active_of_held hk
      rw [hothers k hkj] at this
      cases this
  slotLast := hslotLast
  outLast := houtLast
  readers := hreaders

/-- A step that leaves the supervisors and their children alone. -/
theorem Sound.of_frame (h : s.Sound) (hsup : s'.sup = s.sup) (hflag : s'.supervising = s.supervising)
    (hspawned : s'.spawned = s.spawned) (hslot : ∀ c, s'.slot = some c → s.slot = some c)
    (hout : ∀ c, s'.out = some c → s.out = some c)
    (hreaders : ∀ c, s'.reader c ≠ .none → s.reader c ≠ .none) : s'.Sound where
  alone := by rw [hsup]; exact h.alone
  flag := by unfold SupAt; rw [hflag, hsup]; exact h.flag
  slot hs := by
    obtain ⟨c, hc⟩ := Option.isSome_iff_exists.mp hs
    unfold SupAt
    rw [hsup]
    exact h.slot (by rw [hslot c hc]; rfl)
  out hs := by
    obtain ⟨c, hc⟩ := Option.isSome_iff_exists.mp hs
    unfold SupAt
    rw [hsup]
    exact h.out (by rw [hout c hc]; rfl)
  held := by rw [hsup, hspawned]; exact h.held
  slotLast c hc := by rw [hspawned]; exact h.slotLast c (hslot c hc)
  outLast c hc := by rw [hspawned]; exact h.outLast c (hout c hc)
  readers c hc := by
    by_contra hne
    exact hreaders c hne (h.readers c (hspawned ▸ hc))

/-- A step that only brings the supervisor to another place. -/
theorem Sound.go {x : Sup} (h : s.Sound) (hp : (s.sup j).pc.active = true)
    (hsup : s'.sup = Function.update s.sup j x) (hflag : s'.supervising = s.supervising)
    (hslot : s'.slot = s.slot) (hout : s'.out = s.out) (hspawned : s'.spawned = s.spawned)
    (hreader : s'.reader = s.reader) (hact : x.pc.active = true)
    (hkeeps : (s.sup j).pc.keeps = true → x.pc.keeps = true)
    (hconnected : (s.sup j).pc.connected = true → x.pc.connected = true)
    (hheld : ∀ c, x.pc.held = some c → (s.sup j).pc.held = some c) : s'.Sound := by
  refine Sound.of_move (fun k => h.others hp) hsup ?_ ?_ ?_ ?_ ?_ ?_ ?_
  · rw [hflag, hact]
    exact h.flag.mpr ⟨j, hp⟩
  · rw [hslot, ← Option.not_isSome_iff_eq_none, ← imp_iff_not_or]
    exact fun hs => hkeeps (h.slot_keeps hp hs)
  · rw [hout, ← Option.not_isSome_iff_eq_none, ← imp_iff_not_or]
    exact fun hs => hconnected (h.out_connected hp hs)
  · rw [hspawned]
    exact fun c hc => h.held j c (hheld c hc)
  · rw [hslot, hspawned]
    exact h.slotLast
  · rw [hout, hspawned]
    exact h.outLast
  · rw [hspawned, hreader]
    exact h.readers

theorem sound_supStep {ok : Bool} (h : s.Sound) (hs : s.supStep j ok = some s') : s'.Sound := by
  by_cases hgone : (s.sup j).pc = .gone
  · simp only [supStep, hgone] at hs
    cases hs
  have hact : (s.sup j).pc.active = true := by
    cases hp : (s.sup j).pc <;> first | rfl | exact absurd hp hgone
  have hslot : (s.sup j).pc.keeps = false → s.slot = none := h.slot_none hact
  have hout : (s.sup j).pc.connected = false → s.out = none := h.out_none hact
  have hflag : s.supervising = true := h.flag.mpr ⟨j, hact⟩
  have hothers : ∀ k, k ≠ j → (s.sup k).pc.active = false := fun k => h.others hact
  have hheld := h.held j
  cases hp : (s.sup j).pc <;> simp only [supStep, hp] at hs <;> rw [hp] at hslot hout hheld
  case gone => cases hs
  case top | starting | resolving | noBinary | noSpawn | giveUp | spawned | polling | closed
      | judging | counting | restarting =>
    all_goals
      try split at hs
    all_goals
      obtain rfl := Option.some.inj hs
      refine h.go hact rfl rfl rfl rfl rfl rfl ?_ ?_ ?_ ?_ <;>
        simp [hp, SupPc.active, SupPc.keeps, SupPc.connected, SupPc.held]
  case spawning =>
    split at hs
    · -- a new child, which the supervisor holds
      obtain rfl := Option.some.inj hs
      refine Sound.of_move hothers rfl hflag (.inl (hslot rfl)) (.inl (hout rfl)) (fun c hc => ?_)
        (last_of_none (hslot rfl)) (last_of_none (hout rfl)) fun c hc => h.readers c ?_
      · cases hc
        rfl
      · have hle : s.spawned + 1 ≤ c := hc
        omega
    · obtain rfl := Option.some.inj hs
      refine h.go hact rfl rfl rfl rfl rfl rfl rfl ?_ ?_ nofun <;> rw [hp] <;> nofun
  case cleared c =>
    obtain rfl := Option.some.inj hs
    refine Sound.of_move hothers rfl hflag (.inl (hslot rfl)) (.inr rfl) hheld h.slotLast
      (fun c' hc => ?_) h.readers
    obtain rfl := Option.some.inj hc
    exact hheld c rfl
  case piped c =>
    obtain rfl := Option.some.inj hs
    refine Sound.of_move hothers rfl hflag (.inl (hslot rfl)) (.inr rfl) hheld h.slotLast h.outLast
      fun c' hc => ?_
    have hle : s.spawned ≤ c' := hc
    have hlast := hheld c rfl
    show Function.update s.reader c .reading c' = .none
    rw [Function.update_of_ne (by omega)]
    exact h.readers c' hle
  case listened c =>
    obtain rfl := Option.some.inj hs
    refine Sound.of_move hothers rfl hflag (.inr rfl) (.inr rfl) nofun (fun c' hc => ?_) h.outLast h.readers
    obtain rfl := Option.some.inj hc
    exact hheld c rfl
  case killing =>
    obtain rfl := Option.some.inj hs
    unfold killSlot
    cases s.slot with
    | none => exact Sound.of_move hothers rfl hflag (.inr rfl) (.inr rfl) nofun h.slotLast h.outLast h.readers
    | some c => exact Sound.of_move hothers rfl hflag (.inr rfl) (.inr rfl) nofun nofun h.outLast h.readers
  case waiting =>
    split at hs
    · obtain rfl := Option.some.inj hs
      exact h.go hact rfl rfl rfl rfl rfl rfl rfl (fun _ => rfl) (fun _ => rfl) nofun
    · obtain rfl := Option.some.inj hs
      refine h.go hact rfl rfl rfl rfl rfl rfl ?_ ?_ ?_ ?_ <;> split <;> simp [SupPc.active,
        SupPc.keeps, SupPc.connected, SupPc.held]
  case taking =>
    obtain rfl := Option.some.inj hs
    exact Sound.of_move hothers rfl hflag (.inl rfl) (.inr rfl) nofun nofun h.outLast h.readers
  case closing =>
    obtain rfl := Option.some.inj hs
    exact Sound.of_move hothers rfl hflag (.inl (hslot rfl)) (.inl rfl) nofun h.slotLast nofun h.readers
  case leaving =>
    obtain rfl := Option.some.inj hs
    exact Sound.of_move hothers rfl rfl (.inl (hslot rfl)) (.inl (hout rfl)) nofun h.slotLast h.outLast
      h.readers

/-- Only readers that are there go on. -/
theorem reader_of_set {c c' : Nat} {pc : ReaderPc} (hc : s.reader c ≠ .none)
    (h : (s.setReader c pc).reader c' ≠ .none) : s.reader c' ≠ .none := by
  by_cases he : c' = c
  · rwa [he]
  · rwa [show (s.setReader c pc).reader c' = s.reader c' from Function.update_of_ne he ..] at h

theorem sound_readLine {c : Nat} {line : Line} (h : s.Sound) (hs : s.readLine c line = some s') :
    s'.Sound := by
  unfold readLine at hs
  split at hs
  · rename_i hr
    obtain rfl := Option.some.inj hs
    exact h.of_frame rfl rfl rfl (fun _ hc => hc) (fun _ hc => hc) fun c' hc =>
      reader_of_set (by rw [hr]; nofun) hc
  · cases hs

theorem sound_readerStep {c : Nat} (h : s.Sound) (hs : s.readerStep c = some s') : s'.Sound := by
  unfold readerStep at hs
  split at hs
  case h_6 => cases hs
  case h_5 hr =>
    obtain rfl := Option.some.inj hs
    exact h.of_frame rfl rfl rfl (fun _ hc => hc) nofun fun c' hc =>
      reader_of_set (s := s) (by rw [hr]; nofun) hc
  all_goals
    rename_i hr
    obtain rfl := Option.some.inj hs
    exact h.of_frame rfl rfl rfl (fun _ hc => hc) (fun _ hc => hc) fun c' hc =>
      reader_of_set (s := s) (by rw [hr]; nofun) hc

/-- A supervisor is spawned when there is none. -/
theorem sound_spawn {i : Nat} (h : s.Sound) (hsup : s.supervising = false) :
    (({ s with supervising := true }.setSup j ⟨.top, 0⟩).setCall i .idle).Sound := by
  have hnone : ∀ k, (s.sup k).pc.active = false := by
    intro k
    by_contra hk
    rw [h.flag.mpr ⟨k, by simpa using hk⟩] at hsup
    cases hsup
  have hkind : ∀ {f : SupPc → Bool}, (∀ pc, f pc = true → pc.active = true) → ¬ s.SupAt f := by
    rintro f hf ⟨k, hk⟩
    have hact := hf _ hk
    rw [hnone k] at hact
    cases hact
  have hslot : s.slot = none := by
    by_contra hne
    exact hkind (fun _ => active_of_keeps) (h.slot (Option.isSome_iff_ne_none.mpr hne))
  have hout : s.out = none := by
    by_contra hne
    exact hkind (fun _ => active_of_connected) (h.out (Option.isSome_iff_ne_none.mpr hne))
  exact Sound.of_move (fun k _ => hnone k) rfl rfl (.inl hslot) (.inl hout) nofun h.slotLast h.outLast
    h.readers

theorem sound_callStep {i : Nat} (h : s.Sound) (hs : s.callStep i j = some s') : s'.Sound := by
  unfold callStep at hs
  split at hs
  case h_1 => cases hs
  case h_5 =>
    split at hs
    · obtain rfl := Option.some.inj hs
      exact h.of_frame rfl rfl rfl (fun _ hc => hc) (fun _ hc => hc) fun _ hc => hc
    · rename_i hsup
      split at hs
      · obtain rfl := Option.some.inj hs
        exact sound_spawn h (by simpa using hsup)
      · cases hs
  case h_6 =>
    obtain rfl := Option.some.inj hs
    exact h.of_frame rfl rfl rfl (fun _ hc => hc) nofun fun _ hc => hc
  case h_7 =>
    obtain rfl := Option.some.inj hs
    unfold takeSlot
    split
    · exact h.of_frame rfl rfl rfl nofun (fun _ hc => hc) fun _ hc => hc
    · exact h.of_frame rfl rfl rfl (fun _ hc => hc) (fun _ hc => hc) fun _ hc => hc
  all_goals
    obtain rfl := Option.some.inj hs
    exact h.of_frame rfl rfl rfl (fun _ hc => hc) (fun _ hc => hc) fun _ hc => hc

theorem sound_step {a : Act} (h : s.Sound) (hs : s.step a = some s') : s'.Sound := by
  cases a with
  | sup j ok => exact sound_supStep h hs
  | read c line => exact sound_readLine h hs
  | reader c => exact sound_readerStep h hs
  | next i j => exact sound_callStep h hs
  | exit c | reap c | retry i | shutdown i =>
    simp only [step] at hs
    split at hs
    · obtain rfl := Option.some.inj hs
      exact h.of_frame rfl rfl rfl (fun _ hc => hc) (fun _ hc => hc) fun _ hc => hc
    · cases hs

theorem sound_initial : initial.Sound where
  alone i j hi hj := by
    have hzero : ∀ k, (initial.sup k).pc.active = true → k = 0 := by
      intro k hk
      by_contra hne
      simp [initial, hne, SupPc.active] at hk
    rw [hzero i hi, hzero j hj]
  flag := ⟨fun _ => ⟨0, rfl⟩, fun _ => rfl⟩
  slot := nofun
  out := nofun
  held j c hc := by
    by_cases hj : j = 0 <;> simp [initial, hj, SupPc.held] at hc
  slotLast := nofun
  outLast := nofun
  readers _ _ := rfl

/-- Everything that any run comes to is sound. -/
theorem sound_of_reachable {ok : Link → Act → Prop} (h : linkSystem.ReachableIf ok s) :
    s.Sound := by
  refine System.ReachableIf.invariant ?_ ?_ h
  · rintro s rfl
    exact sound_initial
  · intro s a s' hs _ hstep
    exact sound_step hs hstep

end Link
end GnDrive.Gpui.Stdio
