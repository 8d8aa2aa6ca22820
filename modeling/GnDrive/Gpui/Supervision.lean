/-
  GnDrive.Gpui.Supervision

  What the supervision of the engine's child comes to.

  The flags and slots are taken and set one by one, by threads that outlive the
  child they belong to.  For each thing one would like to rely on there is a
  condition on the steps under which it holds in every state reached:

    * one child at a time, if no supervisor spawns while a thread that
      `shutdown` left behind still has a living child (`OneAtATime`),
    * a stored stdin while `Ready`, if `Ready` is set and left in time
      (`KeepsStdin`),
    * a reader clears no stdin but its own child's, if it has come to its end
      when the next one is stored (`ReadersEnd`),
    * a supervisor after `retry`, if `retry` does not find one that has already
      left its loop (`InTime`),
    * an end to everything after `shutdown`, if nobody is about to set a status
      when it returns (`QuietEnd`).
-/

import GnDrive.Gpui.Stdio

namespace GnDrive.Gpui.Stdio

namespace SupPc

/-- Out of the loop, or on the way. -/
def goingOut : SupPc → Bool
  | .gone | .noBinary | .noSpawn | .giveUp | .leaving => true
  | _ => false

/-- Past the last look at `stopped` before a status is set. -/
def late : SupPc → Bool
  | .starting | .resolving | .noBinary | .spawning | .noSpawn | .judging | .counting
  | .restarting => true
  | _ => false

/-- The steps to the end of a supervisor that finds `stopped` set. -/
def rank : SupPc → Nat
  | .gone => 0
  | .leaving => 1
  | .top | .giveUp | .closed => 2
  | .closing => 3
  | .taking => 4
  | .killing => 5
  | .polling => 6
  | .waiting | .listened _ => 7
  | .piped _ => 8
  | .cleared _ => 9
  | .spawned _ => 10
  | _ => 11

end SupPc

namespace ReaderPc

/-- No status to set. -/
def quiet : ReaderPc → Bool
  | .greeted | .marked | .failing _ => false
  | _ => true

/-- Nothing more to do. -/
def done : ReaderPc → Bool
  | .none | .over => true
  | _ => false

end ReaderPc

/-- In `retry`. -/
def CallPc.retrying : CallPc → Bool
  | .unfailed | .resumed | .checking | .swapping => true
  | _ => false

namespace Link

-- ============================================================================
-- Conditions on the steps
-- ============================================================================

/-- `try_wait` does not fail for a child that lives. -/
def WaitWorks (s : Link) : Act → Prop
  | .sup j ok => (s.sup j).pc = .waiting → ok = false → ∀ c, s.slot = some c → s.alive c = false
  | _ => True

/-- And a child is spawned only when the children that `shutdown` took are
    dead. -/
def OneAtATime (s : Link) (a : Act) : Prop :=
  s.WaitWorks a ∧ ∀ j, a = .sup j true → (s.sup j).pc = .spawning →
    ∀ c, s.reaper c = true → s.alive c = false

/-- `Ready` is set when a stdin is stored, and no stdin is dropped before the
    status has changed. -/
def KeepsStdin (s : Link) : Act → Prop
  | .sup j _ => (s.sup j).pc = .closing → s.status ≠ .ready
  | .reader c =>
      (s.reader c = .marked → s.out.isSome = true) ∧ (s.reader c = .ending → s.status ≠ .ready)
  | .next i _ => s.call i = .quitting → s.status ≠ .ready
  | _ => True

/-- The stdin of a child is stored when the readers of earlier ones are over. -/
def ReadersEnd (s : Link) : Act → Prop
  | .sup j _ => ∀ c, (s.sup j).pc = .cleared c → ∀ c', c' < c → (s.reader c').done = true
  | _ => True

/-- The call does not find a supervisor that has left its loop. -/
def InTime (s : Link) : Prop := ∀ k, (s.sup k).pc.goingOut = true → (s.sup k).pc = .gone

/-- When `shutdown` returns, `stopped` is set, no `retry` is under way and
    nobody is about to set a status; the engine says neither `hello` nor
    `fatal` from then on. -/
def QuietEnd (s : Link) (a : Act) : Prop :=
  s.WaitWorks a ∧
  match a with
  | .next i _ => s.call i = .stopping →
      s.stopped = true ∧ (∀ i', (s.call i').retrying = false) ∧
        (∀ j, (s.sup j).pc.late = false) ∧ ∀ c, (s.reader c).quiet = true
  | .read _ line => s.down = true → line = .other ∨ line = .eof
  | _ => True

-- ============================================================================
-- What one would like to rely on
-- ============================================================================

/-- At most one engine child is alive. -/
def OneChild (s : Link) : Prop := ∀ c c', s.alive c = true → s.alive c' = true → c = c'

/-- While the status is `Ready`, the stored stdin is that of the last child. -/
def Wired (s : Link) : Prop := s.status = .ready → ∃ c, s.out = some c ∧ c + 1 = s.spawned

/-- What a reader is about to drop is the stdin of its own child. -/
def OwnStdin (s : Link) : Prop := ∀ c c', s.reader c = .ending → s.out = some c' → c' = c

/-- A supervisor that is in its loop. -/
def Supervised (s : Link) : Prop := s.SupAt fun pc => !pc.goingOut

/-- Whoever is going to end the child `c`. -/
def Doomed (s : Link) (c : Nat) : Prop :=
  s.reaper c = true ∨ ∃ j, (s.sup j).pc.held = some c ∨
    s.slot = some c ∧ ((s.sup j).pc = .polling ∨ (s.sup j).pc = .killing ∨ (s.sup j).pc = .waiting)

/-- The status is `Stopped`, the supervisor comes to its end, and every child
    that still lives is in the hands of a thread that ends it. -/
structure AtRest (s : Link) : Prop where
  status : s.status = .stopped
  stopped : s.stopped = true
  doomed : ∀ c, s.alive c = true → s.Doomed c
  ends : ∀ j ok s', s.step (.sup j ok) = some s' → (s'.sup j).pc.rank < (s.sup j).pc.rank

variable {s s' : Link} {j : Nat} {a : Act}

-- ============================================================================
-- One child at a time
-- ============================================================================

/-- Every living child is somebody's, and one that is about to be forgotten is
    dead. -/
structure Tended (s : Link) : Prop where
  keeper : ∀ c, s.alive c = true →
    s.reaper c = true ∨ s.slot = some c ∨ ∃ j, (s.sup j).pc.held = some c
  dead : ∀ j c, (s.sup j).pc = .taking → s.slot = some c → s.alive c = false

/-- A step that leaves the supervisors alone, and what they have, or hands it on. -/
theorem Tended.of_frame (h : s.Tended) (hsup : s'.sup = s.sup)
    (halive : ∀ c, s'.alive c = true → s.alive c = true)
    (hslot : ∀ c, s'.slot = some c → s.slot = some c)
    (hkeep : ∀ c, s'.alive c = true → s.reaper c = true ∨ s.slot = some c →
      s'.reaper c = true ∨ s'.slot = some c) : s'.Tended where
  keeper c hc := by
    rw [hsup]
    rcases h.keeper c (halive c hc) with hr | hslot' | hheld
    · exact (hkeep c hc (.inl hr)).imp_right .inl
    · exact (hkeep c hc (.inr hslot')).imp_right .inl
    · exact .inr (.inr hheld)
  dead k c hk hc := by
    rw [hsup] at hk
    have hdead := h.dead k c hk (hslot c hc)
    by_contra hne
    rw [halive c (by simpa using hne)] at hdead
    cases hdead

/-- The supervisor `j`, next to which there is none, comes to another place. -/
theorem Tended.of_move {x : Sup} (hothers : ∀ k, k ≠ j → (s.sup k).pc.active = false)
    (hsup : s'.sup = Function.update s.sup j x)
    (hkeep : ∀ c, s'.alive c = true → s'.reaper c = true ∨ s'.slot = some c ∨ x.pc.held = some c)
    (hdead : x.pc = .taking → ∀ c, s'.slot = some c → s'.alive c = false) : s'.Tended where
  keeper c hc := by
    refine (hkeep c hc).imp_right (Or.imp_right fun hheld => ⟨j, ?_⟩)
    rw [hsup, Function.update_self]
    exact hheld
  dead k c hk hc := by
    rw [hsup] at hk
    by_cases hkj : k = j
    · rw [hkj, Function.update_self] at hk
      exact hdead hk c hc
    · have hact := hothers k hkj
      rw [Function.update_of_ne hkj] at hk
      rw [hk] at hact
      cases hact

/-- What lives is in the hands of a reaper or of the one supervisor. -/
theorem Tended.keeper_one (h : s.Tended) (hsound : s.Sound) (hact : (s.sup j).pc.active = true)
    {c : Nat} (hc : s.alive c = true) :
    s.reaper c = true ∨ s.slot = some c ∨ (s.sup j).pc.held = some c := by
  refine (h.keeper c hc).imp_right (Or.imp_right ?_)
  rintro ⟨k, hk⟩
  rwa [hsound.alone j k hact (active_of_held hk)]

theorem tended_supStep {ok : Bool} (hsound : s.Sound) (h : s.Tended)
    (hok : s.WaitWorks (.sup j ok)) (hs : s.supStep j ok = some s') : s'.Tended := by
  by_cases hgone : (s.sup j).pc = .gone
  · simp only [supStep, hgone] at hs
    cases hs
  have hact : (s.sup j).pc.active = true := by
    cases hp : (s.sup j).pc <;> first | rfl | exact absurd hp hgone
  have hothers : ∀ k, k ≠ j → (s.sup k).pc.active = false := fun k => hsound.others hact
  have hkeeper := fun c (hc : s.alive c = true) => h.keeper_one hsound hact hc
  cases hp : (s.sup j).pc <;> simp only [supStep, hp] at hs <;> rw [hp] at hkeeper
  case gone => cases hs
  case starting | noBinary | noSpawn | giveUp | spawned | cleared | piped | closing | counting
      | restarting | leaving =>
    all_goals
      obtain rfl := Option.some.inj hs
      exact Tended.of_move hothers rfl hkeeper fun htaking => by cases htaking
  case top | resolving | polling | closed | judging =>
    all_goals
      obtain rfl := Option.some.inj hs
      refine Tended.of_move hothers rfl (fun c hc => ?_) fun hc => ?_
      · refine (hkeeper c hc).imp_right (Or.imp_right ?_)
        intro hready
        cases hready
      · split at hc <;> cases hc
  case spawning =>
    split at hs
    · obtain rfl := Option.some.inj hs
      refine Tended.of_move hothers rfl (fun c hc => ?_) fun htaking => by cases htaking
      by_cases hcs : c = s.spawned
      · exact .inr (.inr (by rw [hcs]; rfl))
      · have hc' : Function.update s.alive s.spawned true c = true := hc
        rw [Function.update_of_ne hcs] at hc'
        exact (hkeeper c hc').imp_right (Or.imp_right fun hheld => by cases hheld)
    · obtain rfl := Option.some.inj hs
      exact Tended.of_move hothers rfl (fun c hc => (hkeeper c hc).imp_right
        (Or.imp_right fun hheld => by cases hheld)) fun htaking => by cases htaking
  case listened c =>
    obtain rfl := Option.some.inj hs
    refine Tended.of_move hothers rfl (fun c' hc => ?_) fun htaking => by cases htaking
    rcases hkeeper c' hc with hr | hslot | hheld
    · exact .inl hr
    · have hnone := hsound.slot_none hact (by rw [hp]; rfl)
      rw [hnone] at hslot
      cases hslot
    · exact .inr (.inl hheld)
  case killing =>
    obtain rfl := Option.some.inj hs
    unfold killSlot
    cases hslot : s.slot with
    | none =>
      refine Tended.of_move hothers rfl (fun c hc => ?_) fun _ c hc => ?_
      · exact (hkeeper c hc).imp_right (Or.imp_right fun hheld => by cases hheld)
      · rw [show s.slot = some c from hc] at hslot
        cases hslot
    | some c =>
      refine Tended.of_move hothers rfl (fun c' hc => ?_) fun _ k hk => by cases hk
      by_cases hcc : c' = c
      · have hc' : Function.update s.alive c false c' = true := hc
        rw [hcc, Function.update_self] at hc'
        cases hc'
      · have hc' : Function.update s.alive c false c' = true := hc
        rw [Function.update_of_ne hcc] at hc'
        rcases hkeeper c' hc' with hr | hs' | hheld
        · exact .inl hr
        · rw [hslot] at hs'
          exact absurd (Option.some.inj hs').symm hcc
        · cases hheld
  case waiting =>
    split at hs
    · rename_i hslot
      obtain rfl := Option.some.inj hs
      refine Tended.of_move hothers rfl (fun c hc => (hkeeper c hc).imp_right
        (Or.imp_right fun hheld => by cases hheld)) fun _ c hc => ?_
      rw [show s.slot = some c from hc] at hslot
      cases hslot
    · rename_i c hslot
      obtain rfl := Option.some.inj hs
      refine Tended.of_move hothers rfl (fun c' hc => (hkeeper c' hc).imp_right
        (Or.imp_right fun hheld => by cases hheld)) fun htaking c' hc => ?_
      obtain rfl : c = c' := Option.some.inj (hslot.symm.trans hc)
      show s.alive c = false
      by_cases hw : ok = true
      · split at htaking
        · cases htaking
        · rename_i hrun
          simpa [hw] using hrun
      · exact hok hp (by simpa using hw) c hslot
  case taking =>
    obtain rfl := Option.some.inj hs
    refine Tended.of_move hothers rfl (fun c hc => ?_) fun htaking => by cases htaking
    rcases hkeeper c hc with hr | hslot | hheld
    · exact .inl hr
    · have hdead := h.dead j c hp hslot
      rw [show s.alive c = true from hc] at hdead
      cases hdead
    · cases hheld

/-- What lives after the end of a child lived before. -/
theorem alive_of_ended {c c' : Nat} (h : (s.setAlive c false).alive c' = true) :
    c' ≠ c ∧ s.alive c' = true := by
  have h' : Function.update s.alive c false c' = true := h
  by_cases hcc : c' = c
  · rw [hcc, Function.update_self] at h'
    cases h'
  · rw [Function.update_of_ne hcc] at h'
    exact ⟨hcc, h'⟩

theorem Tended.of_same (h : s.Tended) (hsup : s'.sup = s.sup) (halive : s'.alive = s.alive)
    (hslot : s'.slot = s.slot) (hreaper : s'.reaper = s.reaper) : s'.Tended := by
  refine h.of_frame hsup (fun c hc => ?_) (fun c hc => ?_) fun c _ hkeep => ?_
  · rwa [← halive]
  · rwa [← hslot]
  · rwa [hreaper, hslot]

theorem tended_callStep {i : Nat} (hsound : s.Sound) (h : s.Tended)
    (hs : s.callStep i j = some s') : s'.Tended := by
  unfold callStep at hs
  split at hs
  case h_1 => cases hs
  case h_5 =>
    split at hs
    · obtain rfl := Option.some.inj hs
      exact h.of_same rfl rfl rfl rfl
    · rename_i hflag
      split at hs
      · -- a new supervisor, next to which there is none
        obtain rfl := Option.some.inj hs
        have hnone : ∀ k, (s.sup k).pc.active = false := by
          intro k
          by_contra hk
          exact hflag (hsound.flag.mpr ⟨k, by simpa using hk⟩)
        refine Tended.of_move (s := s) (j := j) (x := ⟨.top, 0⟩) (fun k _ => hnone k) rfl
          (fun c hc => ?_) nofun
        rcases h.keeper c hc with hr | hslot | ⟨k, hk⟩
        · exact .inl hr
        · exact .inr (.inl hslot)
        · have hact := active_of_held hk
          rw [hnone k] at hact
          cases hact
      · cases hs
  case h_7 =>
    obtain rfl := Option.some.inj hs
    unfold takeSlot
    cases hslot : s.slot with
    | none => exact h.of_same rfl rfl rfl rfl
    | some c =>
      refine h.of_frame rfl (fun _ hc => hc) nofun fun c' _ hkeep => ?_
      left
      show Function.update s.reaper c true c' = true
      by_cases hcc : c' = c
      · rw [hcc, Function.update_self]
      · rw [Function.update_of_ne hcc]
        refine hkeep.resolve_right fun hc => hcc ?_
        exact Option.some.inj (hc.symm.trans hslot)
  all_goals
    obtain rfl := Option.some.inj hs
    exact h.of_same rfl rfl rfl rfl

theorem tended_step (hsound : s.Sound) (h : s.Tended) (hok : s.WaitWorks a)
    (hs : s.step a = some s') : s'.Tended := by
  cases a with
  | sup j ok => exact tended_supStep hsound h hok hs
  | next i j => exact tended_callStep hsound h hs
  | read c line =>
    simp only [step, readLine] at hs
    split at hs
    · obtain rfl := Option.some.inj hs
      exact h.of_same rfl rfl rfl rfl
    · cases hs
  | reader c =>
    simp only [step, readerStep] at hs
    split at hs
    case h_6 => cases hs
    all_goals
      obtain rfl := Option.some.inj hs
      exact h.of_same rfl rfl rfl rfl
  | exit c =>
    simp only [step] at hs
    split at hs
    · obtain rfl := Option.some.inj hs
      exact h.of_frame rfl (fun c' hc => (alive_of_ended hc).2) (fun _ hc => hc) fun _ _ hk => hk
    · cases hs
  | reap c =>
    simp only [step] at hs
    split at hs
    · obtain rfl := Option.some.inj hs
      refine h.of_frame rfl (fun c' hc => (alive_of_ended (s := s) hc).2) (fun _ hc => hc)
        fun c' hc hkeep => hkeep.imp_left fun hr => ?_
      have hcc : c' ≠ c := (alive_of_ended (s := s) hc).1
      show Function.update s.reaper c false c' = true
      rwa [Function.update_of_ne hcc]
    · cases hs
  | retry i | shutdown i =>
    simp only [step] at hs
    split at hs
    · obtain rfl := Option.some.inj hs
      exact h.of_same rfl rfl rfl rfl
    · cases hs

theorem tended_initial : initial.Tended where
  keeper := nofun
  dead := nofun

/-- In every run in which `try_wait` works, every living child is somebody's. -/
theorem tended_of_reachable {ok : Link → Act → Prop} (hok : ∀ s a, ok s a → s.WaitWorks a)
    (h : linkSystem.ReachableIf ok s) : s.Tended := by
  have hboth : s.Sound ∧ s.Tended := by
    refine System.ReachableIf.invariant (P := fun s => s.Sound ∧ s.Tended) ?_ ?_ h
    · rintro s rfl
      exact ⟨sound_initial, tended_initial⟩
    · intro s a s' ⟨hsound, htended⟩ ha hs
      exact ⟨sound_step hsound hs, tended_step hsound htended (hok s a ha) hs⟩
  exact hboth.2

/-- Only a spawn brings a child to life. -/
theorem alive_of_step {c : Nat} (hs : s.step a = some s') (hc : s'.alive c = true) :
    s.alive c = true ∨ c = s.spawned ∧ ∃ j, a = .sup j true ∧ (s.sup j).pc = .spawning := by
  cases a with
  | sup j ok =>
    simp only [step] at hs
    cases hp : (s.sup j).pc <;> simp only [supStep, hp] at hs
    case gone => cases hs
    case spawning =>
      split at hs
      · rename_i hok
        obtain rfl := Option.some.inj hs
        have hc' : Function.update s.alive s.spawned true c = true := hc
        by_cases hcs : c = s.spawned
        · exact .inr ⟨hcs, j, by rw [hok], hp⟩
        · rw [Function.update_of_ne hcs] at hc'
          exact .inl hc'
      · obtain rfl := Option.some.inj hs
        exact .inl hc
    case killing =>
      obtain rfl := Option.some.inj hs
      unfold killSlot at hc
      split at hc
      · exact .inl (alive_of_ended (s := s) hc).2
      · exact .inl hc
    case waiting =>
      split at hs <;> obtain rfl := Option.some.inj hs <;> exact .inl hc
    all_goals
      obtain rfl := Option.some.inj hs
      exact .inl hc
  | read c line =>
    simp only [step, readLine] at hs
    split at hs
    · obtain rfl := Option.some.inj hs
      exact .inl hc
    · cases hs
  | reader c =>
    simp only [step, readerStep] at hs
    split at hs
    case h_6 => cases hs
    all_goals
      obtain rfl := Option.some.inj hs
      exact .inl hc
  | exit c | reap c =>
    simp only [step] at hs
    split at hs
    · obtain rfl := Option.some.inj hs
      exact .inl (alive_of_ended (s := s) hc).2
    · cases hs
  | retry i | shutdown i =>
    simp only [step] at hs
    split at hs
    · obtain rfl := Option.some.inj hs
      exact .inl hc
    · cases hs
  | next i j =>
    simp only [step, callStep] at hs
    split at hs
    case h_1 => cases hs
    case h_5 =>
      split at hs
      · obtain rfl := Option.some.inj hs
        exact .inl hc
      · split at hs
        · obtain rfl := Option.some.inj hs
          exact .inl hc
        · cases hs
    case h_7 =>
      obtain rfl := Option.some.inj hs
      unfold takeSlot at hc
      split at hc <;> exact .inl hc
    all_goals
      obtain rfl := Option.some.inj hs
      exact .inl hc

/-- Nothing lives when a child is spawned, apart from what `shutdown` took. -/
theorem Tended.none_alive (h : s.Tended) (hsound : s.Sound) (hp : (s.sup j).pc = .spawning)
    (hreaped : ∀ c, s.reaper c = true → s.alive c = false) (c : Nat) : s.alive c = false := by
  by_contra hc
  have hact : (s.sup j).pc.active = true := by rw [hp]; rfl
  have hslot : s.slot = none := hsound.slot_none hact (by rw [hp]; rfl)
  rcases h.keeper_one hsound hact (by simpa using hc) with hr | hs | hheld
  · exact hc (hreaped c hr)
  · rw [hslot] at hs
    cases hs
  · rw [hp] at hheld
    cases hheld

theorem oneChild_step (hsound : s.Sound) (htended : s.Tended) (hone : s.OneChild)
    (hok : s.OneAtATime a) (hs : s.step a = some s') : s'.OneChild := by
  intro c c' hc hc'
  rcases alive_of_step hs hc with h | ⟨rfl, j, rfl, hp⟩
  · rcases alive_of_step hs hc' with h' | ⟨rfl, j, rfl, hp⟩
    · exact hone c c' h h'
    · rw [htended.none_alive hsound hp (hok.2 j rfl hp) c] at h
      cases h
  · rcases alive_of_step hs hc' with h' | ⟨rfl, -⟩
    · rw [htended.none_alive hsound hp (hok.2 j rfl hp) c'] at h'
      cases h'
    · rfl

theorem oneChild_of_reachable (h : linkSystem.ReachableIf OneAtATime s) : s.OneChild := by
  have hall : s.Sound ∧ s.Tended ∧ s.OneChild := by
    refine System.ReachableIf.invariant (P := fun s => s.Sound ∧ s.Tended ∧ s.OneChild) ?_ ?_ h
    · rintro s rfl
      exact ⟨sound_initial, tended_initial, nofun⟩
    · intro s a s' ⟨hsound, htended, hone⟩ ha hs
      exact ⟨sound_step hsound hs, tended_step hsound htended ha.1 hs,
        oneChild_step hsound htended hone ha hs⟩
  exact hall.2.2

-- ============================================================================
-- The stdin while `Ready`
-- ============================================================================

theorem fed_supStep {ok : Bool} (h : s.status = .ready → s.out.isSome = true)
    (hok : (s.sup j).pc = .closing → s.status ≠ .ready) (hs : s.supStep j ok = some s') :
    s'.status = .ready → s'.out.isSome = true := by
  cases hp : (s.sup j).pc <;> simp only [supStep, hp] at hs
  case gone => cases hs
  case starting | noBinary | noSpawn | restarting =>
    all_goals
      obtain rfl := Option.some.inj hs
      intro hready
      cases hready
  case cleared =>
    obtain rfl := Option.some.inj hs
    exact fun _ => rfl
  case closing =>
    obtain rfl := Option.some.inj hs
    exact fun hready => absurd hready (hok hp)
  case killing =>
    obtain rfl := Option.some.inj hs
    unfold killSlot
    split <;> exact h
  case spawning | waiting =>
    all_goals
      split at hs <;> obtain rfl := Option.some.inj hs <;> exact h
  all_goals
    obtain rfl := Option.some.inj hs
    exact h

theorem fed_step (h : s.status = .ready → s.out.isSome = true) (hok : s.KeepsStdin a)
    (hs : s.step a = some s') : s'.status = .ready → s'.out.isSome = true := by
  cases a with
  | sup j ok => exact fed_supStep h hok hs
  | read c line =>
    simp only [step, readLine] at hs
    split at hs
    · obtain rfl := Option.some.inj hs
      exact h
    · cases hs
  | reader c =>
    simp only [step, readerStep] at hs
    split at hs
    case h_2 hr =>
      obtain rfl := Option.some.inj hs
      exact fun _ => hok.1 hr
    case h_3 =>
      obtain rfl := Option.some.inj hs
      intro hready
      cases hready
    case h_5 hr =>
      obtain rfl := Option.some.inj hs
      exact fun hready => absurd hready (hok.2 hr)
    case h_6 => cases hs
    all_goals
      obtain rfl := Option.some.inj hs
      exact h
  | exit c | reap c | retry i | shutdown i =>
    simp only [step] at hs
    split at hs
    · obtain rfl := Option.some.inj hs
      exact h
    · cases hs
  | next i j =>
    simp only [step, callStep] at hs
    split at hs
    case h_1 => cases hs
    case h_5 =>
      split at hs
      · obtain rfl := Option.some.inj hs
        exact h
      · split at hs
        · obtain rfl := Option.some.inj hs
          exact h
        · cases hs
    case h_6 hq =>
      obtain rfl := Option.some.inj hs
      exact fun hready => absurd hready (hok hq)
    case h_7 =>
      obtain rfl := Option.some.inj hs
      unfold takeSlot
      split <;> exact h
    all_goals
      obtain rfl := Option.some.inj hs
      first | exact h | (intro hready; cases hready)

theorem wired_of_reachable (h : linkSystem.ReachableIf KeepsStdin s) : s.Wired := by
  have hfed : s.status = .ready → s.out.isSome = true := by
    refine System.ReachableIf.invariant
      (P := fun s : Link => s.status = .ready → s.out.isSome = true) ?_ ?_ h
    · rintro s rfl
      nofun
    · exact fun s a s' hfed ha hs => fed_step hfed ha hs
  intro hready
  obtain ⟨c, hc⟩ := Option.isSome_iff_exists.mp (hfed hready)
  exact ⟨c, hc, (sound_of_reachable h).outLast c hc⟩

-- ============================================================================
-- The readers of earlier children
-- ============================================================================

/-- The readers of the children before the one whose stdin is stored are over. -/
def Succeeded (s : Link) : Prop :=
  ∀ c, s.out = some c → ∀ c', c' < c → (s.reader c').done = true

/-- No stdin is stored but one that was, and no reader begins that was over. -/
theorem Succeeded.of_frame (h : s.Succeeded) (hout : ∀ c, s'.out = some c → s.out = some c)
    (hreader : ∀ c, (s.reader c).done = true → (s'.reader c).done = true) : s'.Succeeded :=
  fun c hc c' hlt => hreader c' (h c (hout c hc) c' hlt)

/-- A reader that is not over goes on. -/
theorem done_of_set {c c' : Nat} {pc : ReaderPc} (hc : (s.reader c).done = false)
    (h : (s.reader c').done = true) : ((s.setReader c pc).reader c').done = true := by
  have hne : c' ≠ c := by
    rintro rfl
    rw [hc] at h
    cases h
  show (Function.update s.reader c pc c').done = true
  rwa [Function.update_of_ne hne]

theorem succeeded_supStep {ok : Bool} (hsound : s.Sound) (h : s.Succeeded)
    (hok : ∀ c, (s.sup j).pc = .cleared c → ∀ c', c' < c → (s.reader c').done = true)
    (hs : s.supStep j ok = some s') : s'.Succeeded := by
  cases hp : (s.sup j).pc <;> simp only [supStep, hp] at hs
  case gone => cases hs
  case cleared c =>
    obtain rfl := Option.some.inj hs
    intro c' hc
    obtain rfl := Option.some.inj hc
    exact hok c hp
  case piped c =>
    -- the reader that begins is the last child's, and so not an earlier one's
    obtain rfl := Option.some.inj hs
    intro c' hc k hk
    have hlast := hsound.held j c (by rw [hp]; rfl)
    have hout := hsound.outLast c' hc
    show (Function.update s.reader c .reading k).done = true
    rw [Function.update_of_ne (by omega)]
    exact h c' hc k hk
  case closing =>
    obtain rfl := Option.some.inj hs
    intro c hc
    cases hc
  case killing =>
    obtain rfl := Option.some.inj hs
    unfold killSlot
    split <;> exact h
  case spawning | waiting =>
    all_goals
      split at hs <;> obtain rfl := Option.some.inj hs <;> exact h
  all_goals
    obtain rfl := Option.some.inj hs
    exact h

theorem succeeded_step (hsound : s.Sound) (h : s.Succeeded) (hok : s.ReadersEnd a)
    (hs : s.step a = some s') : s'.Succeeded := by
  cases a with
  | sup j ok => exact succeeded_supStep hsound h hok hs
  | read c line =>
    simp only [step, readLine] at hs
    split at hs
    · rename_i hr
      obtain rfl := Option.some.inj hs
      exact h.of_frame (fun _ hc => hc) fun c' hc => done_of_set (by rw [hr]; rfl) hc
    · cases hs
  | reader c =>
    simp only [step, readerStep] at hs
    split at hs
    case h_5 hr =>
      obtain rfl := Option.some.inj hs
      intro c hc
      cases hc
    case h_6 => cases hs
    all_goals
      rename_i hr
      obtain rfl := Option.some.inj hs
      exact h.of_frame (fun _ hc => hc) fun c' hc => done_of_set (s := s) (by rw [hr]; rfl) hc
  | exit c | reap c | retry i | shutdown i =>
    simp only [step] at hs
    split at hs
    · obtain rfl := Option.some.inj hs
      exact h
    · cases hs
  | next i j =>
    simp only [step, callStep] at hs
    split at hs
    case h_1 => cases hs
    case h_5 =>
      split at hs
      · obtain rfl := Option.some.inj hs
        exact h
      · split at hs
        · obtain rfl := Option.some.inj hs
          exact h
        · cases hs
    case h_6 =>
      obtain rfl := Option.some.inj hs
      intro c hc
      cases hc
    case h_7 =>
      obtain rfl := Option.some.inj hs
      unfold takeSlot
      split <;> exact h
    all_goals
      obtain rfl := Option.some.inj hs
      exact h

theorem ownStdin_of_reachable (h : linkSystem.ReachableIf ReadersEnd s) : s.OwnStdin := by
  have hboth : s.Sound ∧ s.Succeeded := by
    refine System.ReachableIf.invariant (P := fun s => s.Sound ∧ s.Succeeded) ?_ ?_ h
    · rintro s rfl
      exact ⟨sound_initial, nofun⟩
    · intro s a s' ⟨hsound, hsucc⟩ ha hs
      exact ⟨sound_step hsound hs, succeeded_step hsound hsucc ha hs⟩
  obtain ⟨hsound, hsucc⟩ := hboth
  intro c c' hr hout
  have hlast := hsound.outLast c' hout
  have hlt : c < s.spawned := by
    by_contra hle
    rw [hsound.readers c (by omega)] at hr
    cases hr
  by_contra hne
  have hdone := hsucc c' hout c (by omega)
  rw [hr] at hdone
  cases hdone

-- ============================================================================
-- After `retry`
-- ============================================================================

/-- When `retry` returns, there is a supervisor in its loop if the call has not
    found one on its way out, and only then. -/
theorem supervised_iff {i : Nat} (hsound : s.Sound) (hs : s.step (.next i j) = some s')
    (hcall : (s.call i).retrying = true) (hback : s'.call i = .idle) :
    s'.Supervised ↔ s.InTime := by
  -- a call that finds the flag set leaves things as they are
  have hfound : s.supervising = true → s'.sup = s.sup → (s'.Supervised ↔ s.InTime) := by
    intro hflag hsup
    obtain ⟨k, hk⟩ := hsound.flag.mp hflag
    unfold Supervised SupAt InTime
    rw [hsup]
    constructor
    · rintro ⟨k', hk'⟩ m hm
      by_contra hne
      have hact : (s.sup m).pc.active = true := by
        cases hp : (s.sup m).pc <;> first | rfl | exact absurd hp hne
      have hin : (s.sup k').pc.goingOut = false := by simpa using hk'
      have hact' : (s.sup k').pc.active = true := by
        cases hp : (s.sup k').pc <;> rw [hp] at hin <;> first | rfl | cases hin
      rw [hsound.alone m k' hact hact', hin] at hm
      cases hm
    · intro hin
      refine ⟨k, ?_⟩
      by_contra hne
      rw [hin k (by simpa using hne)] at hk
      cases hk
  simp only [step, callStep] at hs
  split at hs
  case h_1 => cases hs
  case h_4 =>
    obtain rfl := Option.some.inj hs
    refine hfound ?_ rfl
    by_contra hflag
    have hback' : Function.update s.call i (if s.supervising then .idle else .swapping) i = .idle :=
      hback
    rw [Function.update_self, if_neg hflag] at hback'
    cases hback'
  case h_5 =>
    split at hs
    · rename_i hflag
      obtain rfl := Option.some.inj hs
      exact hfound hflag rfl
    · rename_i hflag
      split at hs
      · obtain rfl := Option.some.inj hs
        refine iff_of_true ⟨j, ?_⟩ fun k hk => ?_
        · show (!(Function.update s.sup j ⟨.top, 0⟩ j).pc.goingOut) = true
          rw [Function.update_self]
          rfl
        · by_contra hne
          refine hflag (hsound.flag.mpr ⟨k, ?_⟩)
          cases hp : (s.sup k).pc <;> first | rfl | exact absurd hp hne
      · cases hs
  case h_6 hc | h_7 hc | h_8 hc =>
    all_goals
      rw [hc] at hcall
      cases hcall
  all_goals
    obtain rfl := Option.some.inj hs
    have hback' : Function.update s.call i _ i = .idle := hback
    rw [Function.update_self] at hback'
    cases hback'

-- ============================================================================
-- After `shutdown`
-- ============================================================================

/-- `stopped` is set and nobody is about to set another status or to spawn. -/
structure Quiet (s : Link) : Prop where
  status : s.status = .stopped
  stopped : s.stopped = true
  calls : ∀ i, (s.call i).retrying = false
  sups : ∀ j, (s.sup j).pc.late = false
  readers : ∀ c, (s.reader c).quiet = true

theorem Quiet.setReader (h : s.Quiet) {c : Nat} {pc : ReaderPc} (hpc : pc.quiet = true)
    (c' : Nat) : (Function.update s.reader c pc c').quiet = true := by
  by_cases hc : c' = c
  · rwa [hc, Function.update_self]
  · rw [Function.update_of_ne hc]
    exact h.readers c'

/-- The supervisor `j` comes to a place that is not late and nearer to its end. -/
theorem Quiet.of_move {x : Sup} (h : s.Quiet) (hstatus : s'.status = s.status)
    (hstopped : s'.stopped = s.stopped) (hcall : s'.call = s.call)
    (hsup : s'.sup = Function.update s.sup j x) (hlate : x.pc.late = false)
    (hreader : ∀ c, (s'.reader c).quiet = true) (hrank : x.pc.rank < (s.sup j).pc.rank) :
    s'.Quiet ∧ (s'.sup j).pc.rank < (s.sup j).pc.rank := by
  refine ⟨⟨by rw [hstatus, h.status], by rw [hstopped, h.stopped], by rw [hcall]; exact h.calls,
    fun k => ?_, hreader⟩, by rwa [hsup, Function.update_self]⟩
  rw [hsup]
  by_cases hk : k = j
  · rwa [hk, Function.update_self]
  · rw [Function.update_of_ne hk]
    exact h.sups k

theorem quiet_supStep {ok : Bool} (h : s.Quiet) (hs : s.supStep j ok = some s') :
    s'.Quiet ∧ (s'.sup j).pc.rank < (s.sup j).pc.rank := by
  have hlate := h.sups j
  cases hp : (s.sup j).pc <;> simp only [supStep, hp] at hs <;> rw [hp] at hlate
  case gone => cases hs
  case starting | resolving | noBinary | spawning | noSpawn | judging | counting | restarting =>
    all_goals cases hlate
  case top | polling | closed =>
    all_goals
      obtain rfl := Option.some.inj hs
      rw [h.stopped, if_pos rfl, ← hp]
      exact h.of_move rfl rfl rfl rfl rfl h.readers (by simp [hp, SupPc.rank])
  case giveUp | spawned | cleared | listened | taking | closing | leaving =>
    all_goals
      obtain rfl := Option.some.inj hs
      rw [← hp]
      exact h.of_move rfl rfl rfl rfl rfl h.readers (by simp [hp, SupPc.rank])
  case piped c =>
    obtain rfl := Option.some.inj hs
    rw [← hp]
    exact h.of_move rfl rfl rfl rfl rfl (h.setReader rfl) (by simp [hp, SupPc.rank])
  case killing =>
    obtain rfl := Option.some.inj hs
    rw [← hp]
    unfold killSlot
    split <;> exact h.of_move rfl rfl rfl rfl rfl h.readers (by simp [hp, SupPc.rank])
  case waiting =>
    split at hs
    · obtain rfl := Option.some.inj hs
      rw [← hp]
      exact h.of_move rfl rfl rfl rfl rfl h.readers (by simp [hp, SupPc.rank])
    · obtain rfl := Option.some.inj hs
      rw [← hp]
      refine h.of_move rfl rfl rfl rfl ?_ h.readers ?_ <;> split <;> first | rfl | simp [hp, SupPc.rank]

theorem Quiet.setCall (h : s.Quiet) {i : Nat} {pc : CallPc} (hpc : pc.retrying = false) (i' : Nat) :
    (Function.update s.call i pc i').retrying = false := by
  by_cases hi : i' = i
  · rwa [hi, Function.update_self]
  · rw [Function.update_of_ne hi]
    exact h.calls i'

theorem quiet_callStep {i : Nat} (h : s.Quiet) (hs : s.callStep i j = some s') : s'.Quiet := by
  have hcall := h.calls i
  unfold callStep at hs
  split at hs
  case h_1 => cases hs
  case h_2 hc | h_3 hc | h_4 hc | h_5 hc =>
    all_goals
      rw [hc] at hcall
      cases hcall
  case h_6 =>
    obtain rfl := Option.some.inj hs
    exact ⟨h.status, h.stopped, h.setCall rfl, h.sups, h.readers⟩
  case h_7 =>
    obtain rfl := Option.some.inj hs
    unfold takeSlot
    split <;> exact ⟨h.status, h.stopped, h.setCall rfl, h.sups, h.readers⟩
  case h_8 =>
    obtain rfl := Option.some.inj hs
    exact ⟨rfl, h.stopped, h.setCall rfl, h.sups, h.readers⟩

/-- Once a `shutdown` has returned, only the next `retry` ends the quiet. -/
theorem quiet_step (h : s.down = true → s.Quiet) (hok : s.QuietEnd a)
    (hs : s.step a = some s') (hdown : s'.down = true) : s'.Quiet := by
  cases a with
  | sup j ok =>
    have hframe : s.down = true := by
      rw [← hdown]
      simp only [step] at hs
      cases hp : (s.sup j).pc <;> simp only [supStep, hp] at hs
      case gone => cases hs
      case spawning | waiting =>
        all_goals split at hs <;> obtain rfl := Option.some.inj hs <;> rfl
      case killing =>
        obtain rfl := Option.some.inj hs
        unfold killSlot
        split <;> rfl
      all_goals
        obtain rfl := Option.some.inj hs
        rfl
    exact (quiet_supStep (h hframe) hs).1
  | read c line =>
    simp only [step, readLine] at hs
    split at hs
    · obtain rfl := Option.some.inj hs
      have hq := h hdown
      refine ⟨hq.status, hq.stopped, hq.calls, hq.sups, hq.setReader ?_⟩
      rcases hok.2 hdown with rfl | rfl <;> rfl
    · cases hs
  | reader c =>
    simp only [step, readerStep] at hs
    split at hs
    case h_1 hr | h_2 hr | h_3 hr =>
      all_goals
        obtain rfl := Option.some.inj hs
        have hquiet := (h hdown).readers c
        rw [hr] at hquiet
        cases hquiet
    case h_6 => cases hs
    all_goals
      obtain rfl := Option.some.inj hs
      have hq := h hdown
      exact ⟨hq.status, hq.stopped, hq.calls, hq.sups, hq.setReader rfl⟩
  | exit c | reap c =>
    simp only [step] at hs
    split at hs
    · obtain rfl := Option.some.inj hs
      have hq := h hdown
      exact ⟨hq.status, hq.stopped, hq.calls, hq.sups, hq.readers⟩
    · cases hs
  | retry i =>
    simp only [step] at hs
    split at hs
    · obtain rfl := Option.some.inj hs
      cases hdown
    · cases hs
  | shutdown i =>
    simp only [step] at hs
    split at hs
    · obtain rfl := Option.some.inj hs
      have hq := h hdown
      exact ⟨hq.status, rfl, hq.setCall rfl, hq.sups, hq.readers⟩
    · cases hs
  | next i j =>
    by_cases hc : s.call i = .stopping
    · obtain ⟨hstopped, hcalls, hsups, hreaders⟩ := hok.2 hc
      simp only [step, callStep, hc] at hs
      obtain rfl := Option.some.inj hs
      refine ⟨rfl, hstopped, fun i' => ?_, hsups, hreaders⟩
      show (Function.update s.call i .idle i').retrying = false
      by_cases hi : i' = i
      · rw [hi, Function.update_self]
        rfl
      · rw [Function.update_of_ne hi]
        exact hcalls i'
    · have hframe : s.down = true := by
        rw [← hdown]
        simp only [step, callStep] at hs
        split at hs
        case h_1 => cases hs
        case h_5 =>
          split at hs
          · obtain rfl := Option.some.inj hs
            rfl
          · split at hs
            · obtain rfl := Option.some.inj hs
              rfl
            · cases hs
        case h_7 =>
          obtain rfl := Option.some.inj hs
          unfold takeSlot
          split <;> rfl
        case h_8 => contradiction
        all_goals
          obtain rfl := Option.some.inj hs
          rfl
      exact quiet_callStep (h hframe) hs

/-- A living child that nobody has taken is with the supervisor. -/
theorem Tended.doomed (h : s.Tended) (hsound : s.Sound) {c : Nat} (hc : s.alive c = true) :
    s.Doomed c := by
  rcases h.keeper c hc with hr | hslot | ⟨j, hj⟩
  · exact .inl hr
  · obtain ⟨j, hj⟩ := hsound.slot (by rw [hslot]; rfl)
    refine .inr ⟨j, .inr ⟨hslot, ?_⟩⟩
    cases hp : (s.sup j).pc <;> rw [hp] at hj <;> simp only [SupPc.keeps] at hj
    case polling => exact .inl rfl
    case killing => exact .inr (.inl rfl)
    case waiting => exact .inr (.inr rfl)
    case taking =>
      rw [h.dead j c hp hslot] at hc
      cases hc
    all_goals cases hj
  · exact .inr ⟨j, .inl hj⟩

theorem atRest_of_reachable (h : linkSystem.ReachableIf QuietEnd s) (hdown : s.down = true) :
    s.AtRest := by
  have hquiet : s.down = true → s.Quiet := by
    refine System.ReachableIf.invariant (P := fun s => s.down = true → s.Quiet) ?_ ?_ h
    · rintro s rfl
      nofun
    · exact fun s a s' hq ha hs => quiet_step hq ha hs
  have hq := hquiet hdown
  have htended := tended_of_reachable (fun _ _ hok => hok.1) h
  exact ⟨hq.status, hq.stopped, fun c hc => htended.doomed (sound_of_reachable h) hc,
    fun j ok s' hs => (quiet_supStep hq hs).2⟩

end Link

-- ============================================================================
-- The supervision
-- ============================================================================

open Link

/-- What holds of the supervision in every run whose steps meet the condition
    of each part. -/
theorem supervision (s : Link) :
    (linkSystem.ReachableIf OneAtATime s → s.OneChild) ∧
    (linkSystem.ReachableIf KeepsStdin s → s.Wired) ∧
    (linkSystem.ReachableIf ReadersEnd s → s.OwnStdin) ∧
    (linkSystem.Reachable s → ∀ i j s', s.step (.next i j) = some s' →
      (s.call i).retrying = true → s'.call i = .idle → (s'.Supervised ↔ s.InTime)) ∧
    (linkSystem.ReachableIf QuietEnd s → s.down = true → s.AtRest) :=
  ⟨oneChild_of_reachable, wired_of_reachable, ownStdin_of_reachable,
    fun h _ _ _ hs => supervised_iff (sound_of_reachable h) hs, atRest_of_reachable⟩

/-- The supervisor `j` up to the point where its child is spawned, the stdin
    stored or the child in the slot. -/
def startUp (j n : Nat) : List Act := List.replicate n (.sup j true)

def shutdownCall : List Act := .shutdown 0 :: List.replicate 3 (.next 0 0)

/-- `retry` up to the point where it looks for a supervisor. -/
def retryCall : List Act := .retry 0 :: List.replicate 2 (.next 0 0)

theorem supervision_shutdown :
    (∃ s, linkSystem.runFrom .initial (startUp 0 8 ++ shutdownCall) = some s ∧ s.OneChild ∧
      s.Wired ∧ s.OwnStdin ∧ s.AtRest) ∧
    ∃ s s', linkSystem.runFrom .initial (startUp 0 8 ++ shutdownCall ++ retryCall) = some s ∧
      s.step (.next 0 0) = some s' ∧ (s'.Supervised ↔ s.InTime) := by
  have hone : linkSystem.Meets OneAtATime .initial (startUp 0 8 ++ shutdownCall) := by
    iterate 12
      refine System.Meets.cons ⟨?_, ?_⟩ rfl ?_
      rotate_left
      rotate_left
    · trivial
    all_goals first
      | trivial
      | (intro h; cases h; done)
      | (intro j hj; cases hj; done)
      | (intro j hj hp c hc; cases hc)
  have hkeeps : linkSystem.Meets KeepsStdin .initial (startUp 0 8 ++ shutdownCall) := by
    iterate 12
      refine System.Meets.cons ?_ rfl ?_
      rotate_left
    · trivial
    all_goals first | trivial | (intro h; cases h; done) | exact fun _ => by decide
  have hends : linkSystem.Meets ReadersEnd .initial (startUp 0 8 ++ shutdownCall) := by
    iterate 12
      refine System.Meets.cons ?_ rfl ?_
      rotate_left
    · trivial
    all_goals first
      | trivial
      | (intro c hc c' hlt; cases hc; done)
      | (intro c hc c' hlt; cases hc; cases hlt)
  have hquiet : linkSystem.Meets QuietEnd .initial (startUp 0 8 ++ shutdownCall) := by
    iterate 12
      refine System.Meets.cons ⟨?_, ?_⟩ rfl ?_
      rotate_left
      rotate_left
    · trivial
    all_goals first | trivial | (intro h; cases h; done) | skip
    intro _
    exact ⟨rfl, fun i => by cases i <;> rfl, fun j => by cases j <;> rfl,
      fun c => by cases c <;> rfl⟩
  refine ⟨⟨_, rfl, ?_, ?_, ?_, ?_⟩, _, _, rfl, rfl, ?_⟩
  · exact (supervision _).1 (System.runFrom_reachableIf (.init rfl) hone rfl)
  · exact (supervision _).2.1 (System.runFrom_reachableIf (.init rfl) hkeeps rfl)
  · exact (supervision _).2.2.1 (System.runFrom_reachableIf (.init rfl) hends rfl)
  · exact (supervision _).2.2.2.2 (System.runFrom_reachableIf (.init rfl) hquiet rfl) rfl
  · have hreach : linkSystem.Reachable _ := System.runFrom_reachable (.init rfl)
      (show linkSystem.runFrom .initial (startUp 0 8 ++ shutdownCall ++ retryCall) = _ from rfl)
    exact (supervision _).2.2.2.1 hreach 0 0 _ rfl rfl rfl

/-- `shutdown`, the end of the supervisor, and a `retry` at once: a second
    child, while the first is still given its time to end. -/
def secondChild : List Act :=
  startUp 0 8 ++ shutdownCall ++ List.replicate 6 (.sup 0 true) ++ retryCall ++
    [.next 0 1, .next 0 1] ++ startUp 1 6

/-- Each part of the claim fails in some run. -/
theorem supervision_fails :
    (∃ s, linkSystem.Reachable s ∧ ¬ s.OneChild) ∧
    (∃ s, linkSystem.Reachable s ∧ ¬ s.Wired) ∧
    (∃ s, linkSystem.Reachable s ∧ ¬ s.OwnStdin) ∧
    (∃ s s' i j, linkSystem.Reachable s ∧ s.step (.next i j) = some s' ∧
      (s.call i).retrying = true ∧ s'.call i = .idle ∧ ¬ s'.Supervised) ∧
    ∃ s, linkSystem.Reachable s ∧ s.down = true ∧ ¬ s.AtRest := by
  have hrun : ∀ as s, linkSystem.runFrom .initial as = some s → linkSystem.Reachable s :=
    fun as s => System.runFrom_reachable (.init rfl)
  refine ⟨?_, ?_, ?_, ?_, ?_⟩
  · refine ⟨_, hrun secondChild _ rfl, fun hone => ?_⟩
    cases hone 0 1 rfl rfl
  · -- the child ends, and the supervisor drops the stdin first
    refine ⟨_, hrun (startUp 0 8 ++ [.read 0 .hello, .reader 0, .reader 0, .exit 0] ++
      List.replicate 4 (.sup 0 true)) _ rfl, fun hwired => ?_⟩
    obtain ⟨c, hc, -⟩ := hwired rfl
    cases hc
  · -- the first child is killed when the stdin of the second is stored
    refine ⟨_, hrun (secondChild ++ [.reap 0, .read 0 .eof]) _ rfl, fun hown => ?_⟩
    cases hown 0 1 rfl rfl
  · -- the engine has failed, and the supervisor has still to clear its flag
    refine ⟨_, _, 0, 0, hrun (startUp 0 8 ++ [.read 0 (.fatal "E"), .reader 0, .reader 0, .exit 0] ++
      List.replicate 6 (.sup 0 true) ++ retryCall) _ rfl, rfl, rfl, rfl, ?_⟩
    rintro ⟨j, hj⟩
    cases j <;> cases hj
  · -- `shutdown` passes between the look at `stopped` and the next status
    refine ⟨_, hrun (startUp 0 1 ++ shutdownCall ++ startUp 0 1) _ rfl, rfl, fun hrest => ?_⟩
    cases hrest.status

end GnDrive.Gpui.Stdio
