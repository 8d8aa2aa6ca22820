/-
  GnDrive.Rpc.Responses

  Every request has at most one response, and the shutdown frame is the last.

  A request is a token: it is with the reader, in the channel or with a worker
  (`outstanding`), or it has its response (`responses`), and never more than
  one of these.  A request that was counted before the shutdown was through with
  its wait does not get lost: the wait ends when no request is in flight, and
  until then the channel takes jobs and the output takes frames.
-/

import GnDrive.Rpc.Stdio

namespace GnDrive.Rpc.Stdio

-- ============================================================================
-- Where requests are
-- ============================================================================

/-- One if it is the line `n`. -/
def tally (n m : Nat) : Nat := if m = n then 1 else 0

theorem tally_self (n : Nat) : tally n n = 1 := if_pos rfl

theorem tally_le_one (n m : Nat) : tally n m ≤ 1 := by
  unfold tally
  split <;> omega

def Job.holds (n : Nat) (job : Job) : Nat := tally n job.line

namespace ReaderPc

/-- The reader works on the line and has not counted it. -/
def uncounted (n : Nat) : ReaderPc → Nat
  | got m _ | replying m _ _ => tally n m
  | parsed job => job.holds n
  | _ => 0

def holds (n : Nat) : ReaderPc → Nat
  | counted job => job.holds n
  | pc => pc.uncounted n

/-- The requests of the reader that count as in flight. -/
def inFlight : ReaderPc → Nat
  | counted _ | unsent => 1
  | _ => 0

def started : ReaderPc → Bool
  | starting => false
  | _ => true

theorem holds_le (n : Nat) (pc : ReaderPc) : pc.holds n ≤ pc.uncounted n + pc.inFlight := by
  cases pc with
  | counted job => exact Nat.le_trans (tally_le_one n job.line) (Nat.le_add_left 1 _)
  | _ => exact Nat.le_add_right _ _

end ReaderPc

namespace WorkerPc

def holds (n : Nat) : WorkerPc → Nat
  | handling job => job.holds n
  | _ => 0

def busy : WorkerPc → Nat
  | idle => 0
  | _ => 1

theorem holds_le (n : Nat) (pc : WorkerPc) : pc.holds n ≤ pc.busy := by
  cases pc with
  | handling job => exact tally_le_one n job.line
  | _ => exact Nat.zero_le _

end WorkerPc

/-- The well-formed request on a line. -/
def LineRead.request : LineRead → Option Request
  | .line data => (parseRequest data).toOption
  | _ => none

namespace Service

/-- The weight of all that is with the reader, in the channel and with the
    workers. -/
def load (r : ReaderPc → Nat) (c : Job → Nat) (w : WorkerPc → Nat) (s : Service) : Nat :=
  r s.reader + (s.channel.map c).sum + ∑ i, w (s.worker i)

def outstanding (s : Service) (n : Nat) : Nat :=
  s.load (ReaderPc.holds n) (Job.holds n) (WorkerPc.holds n)

def responses (s : Service) (n : Nat) : Nat := s.frames.countP (Frame.answers n)

/-- The well-formed request on the line `n`. -/
def request (s : Service) (n : Nat) : Option Request := s.read[n]?.bind LineRead.request

end Service

section

variable {s s' : Service} {a : Act} {exitOnShutdown : Bool} {n : Nat}
  {i : Fin WORKER_SLOTS}

theorem sum_setWorker (w : WorkerPc → Nat) (s : Service) (i : Fin WORKER_SLOTS) (pc : WorkerPc) :
    ∑ j, w ((s.setWorker i pc).worker j) + w (s.worker i) = ∑ j, w (s.worker j) + w pc := by
  have hmem : i ∈ Finset.univ := Finset.mem_univ i
  have hupdate : ∀ j, w ((s.setWorker i pc).worker j) =
      Function.update (fun k => w (s.worker k)) i (w pc) j := by
    intro j
    by_cases hj : j = i
    · subst hj
      simp [Service.setWorker]
    · simp [Service.setWorker, hj]
  simp only [hupdate]
  rw [Finset.sum_update_of_mem hmem, Finset.sdiff_singleton_eq_erase]
  have herase := Finset.sum_erase_add Finset.univ (fun k => w (s.worker k)) hmem
  omega

/-- The load when only the reader has moved. -/
theorem load_moved (r : ReaderPc → Nat) (c : Job → Nat) (w : WorkerPc → Nat)
    (hchannel : s'.channel = s.channel) (hworker : s'.worker = s.worker) :
    s'.load r c w + r s.reader = s.load r c w + r s'.reader := by
  simp only [Service.load, hchannel, hworker]
  omega

theorem outstanding_moved (s s' : Service) (hchannel : s'.channel = s.channel) (hworker : s'.worker = s.worker)
    (n : Nat) : s'.outstanding n + s.reader.holds n = s.outstanding n + s'.reader.holds n :=
  load_moved _ _ _ hchannel hworker

theorem outstanding_le (s : Service) (n : Nat) :
    s.outstanding n ≤
      s.reader.uncounted n + s.load ReaderPc.inFlight (fun _ => 1) WorkerPc.busy := by
  have hreader := s.reader.holds_le n
  have hchannel : (s.channel.map (Job.holds n)).sum ≤ (s.channel.map fun _ => 1).sum :=
    List.sum_le_sum fun job _ => tally_le_one n job.line
  have hworkers : ∑ j, (s.worker j).holds n ≤
      ∑ j, (s.worker j).busy :=
    Finset.sum_le_sum fun j _ => (s.worker j).holds_le n
  simp only [Service.outstanding, Service.load]
  omega

-- ============================================================================
-- What a job and a response belong to
-- ============================================================================

theorem mem_frames_enqueue {f g : Frame} {d : Bool} (h : f ∈ (s.enqueue g d).frames) :
    f ∈ s.frames ∨ f = g := by
  rcases s.out.enqueue_eq g d with he | ⟨-, he⟩
  · left
    simpa [Service.frames, Service.enqueue, he] using h
  · simp only [Service.frames, Service.enqueue, he, List.mem_append, List.mem_singleton] at h ⊢
    tauto

theorem request_lt {req : Request} (h : s.request n = some req) : n < s.read.length := by
  obtain ⟨l, hl, -⟩ := Option.bind_eq_some_iff.mp h
  exact (List.getElem?_eq_some_iff.mp hl).1

/-- A line keeps its request when further lines are read. -/
theorem request_append {l : LineRead} (hread : s'.read = s.read ++ [l]) (hn : n < s.read.length) :
    s'.request n = s.request n := by
  simp only [Service.request, hread, List.getElem?_append_left hn]

inductive Service.Holds (s : Service) (job : Job) : Prop where
  | parsed : s.reader = .parsed job → Holds s job
  | counted : s.reader = .counted job → Holds s job
  | channel : job ∈ s.channel → Holds s job
  | worker (i : Fin WORKER_SLOTS) : s.worker i = .handling job → Holds s job

structure Labelled (s : Service) : Prop where
  got : ∀ n data, s.reader = .got n data → s.read[n]? = some (.line data)
  replying : ∀ n id e, s.reader = .replying n id e → n < s.read.length ∧ s.request n = none
  job : ∀ job, s.Holds job → s.request job.line = some job.request
  frame : ∀ n id o, .response n id o ∈ s.frames → n < s.read.length ∧
    ∀ req, s.request n = some req → id = req.id

namespace Labelled

/-- No line is read, and what is new belongs to its line. -/
theorem keep (h : Labelled s) (hread : s'.read = s.read)
    (hgot : ∀ n data, s'.reader = .got n data → s.reader = .got n data)
    (hreplying : ∀ n id e, s'.reader = .replying n id e → s.reader = .replying n id e ∨
      n < s.read.length ∧ s.request n = none)
    (hjob : ∀ job, s'.Holds job → s.Holds job ∨ s.request job.line = some job.request)
    (hframe : ∀ n id o, .response n id o ∈ s'.frames → .response n id o ∈ s.frames ∨
      n < s.read.length ∧ ∀ req, s.request n = some req → id = req.id) : Labelled s' := by
  have hrequest : s'.request = s.request := by
    funext n
    simp only [Service.request, hread]
  refine ⟨?_, ?_, ?_, ?_⟩
  · intro n data hr
    rw [hread]
    exact h.got n data (hgot n data hr)
  · intro n id e hr
    rw [hread, hrequest]
    rcases hreplying n id e hr with hold | hnew
    · exact h.replying n id e hold
    · exact hnew
  · intro job hj
    rw [hrequest]
    rcases hjob job hj with hold | hnew
    · exact h.job job hold
    · exact hnew
  · intro n id o hf
    rw [hread, hrequest]
    rcases hframe n id o hf with hold | hnew
    · exact h.frame n id o hold
    · exact hnew

theorem initial : Labelled .initial where
  got _ _ h := by cases h
  replying _ _ _ h := by cases h
  job _ h := by
    rcases h with h | h | h | ⟨i, h⟩
    · cases h
    · cases h
    · cases h
    · cases h
  frame _ _ _ h := by simp [Service.frames, Service.initial] at h

/-- The reader goes on without a job and without an error. -/
theorem setReader (h : Labelled s) (pc : ReaderPc) (hpc : ∀ n, pc.holds n = 0) :
    Labelled { s with reader := pc } := by
  refine h.keep rfl ?_ ?_ ?_ fun n id o hf => .inl hf
  · rintro n data rfl
    have hone := hpc n
    simp [ReaderPc.holds, ReaderPc.uncounted, tally_self] at hone
  · rintro n id e rfl
    have hone := hpc n
    simp [ReaderPc.holds, ReaderPc.uncounted, tally_self] at hone
  · rintro job (hr | hr | hc | ⟨i, hw⟩)
    · obtain rfl : pc = .parsed job := hr
      have hone := hpc job.line
      simp [ReaderPc.holds, ReaderPc.uncounted, Job.holds, tally_self] at hone
    · obtain rfl : pc = .counted job := hr
      have hone := hpc job.line
      simp [ReaderPc.holds, Job.holds, tally_self] at hone
    · exact .inl (.channel hc)
    · exact .inl (.worker i hw)

/-- Only what the invariant does not speak of is changed. -/
theorem congr (h : Labelled s) (hread : s'.read = s.read) (hreader : s'.reader = s.reader)
    (hchannel : s'.channel = s.channel) (hworker : s'.worker = s.worker)
    (hframes : s'.frames = s.frames) : Labelled s' := by
  refine h.keep hread ?_ ?_ ?_ ?_
  · rw [hreader]
    exact fun _ _ hr => hr
  · rw [hreader]
    exact fun _ _ _ hr => .inl hr
  · rintro job (hr | hr | hc | ⟨i, hw⟩)
    · exact .inl (.parsed (hreader ▸ hr))
    · exact .inl (.counted (hreader ▸ hr))
    · exact .inl (.channel (hchannel ▸ hc))
    · exact .inl (.worker i (hworker ▸ hw))
  · rw [hframes]
    exact fun _ _ _ hf => .inl hf

theorem enqueue (h : Labelled s) {g : Frame} {d : Bool}
    (hg : ∀ n id o, g = .response n id o → n < s.read.length ∧
      ∀ req, s.request n = some req → id = req.id) : Labelled (s.enqueue g d) := by
  refine h.keep rfl (fun _ _ hr => hr) (fun _ _ _ hr => .inl hr) ?_ ?_
  · rintro job (hr | hr | hc | ⟨i, hw⟩)
    · exact .inl (.parsed hr)
    · exact .inl (.counted hr)
    · exact .inl (.channel hc)
    · exact .inl (.worker i hw)
  · intro n id o hf
    rcases mem_frames_enqueue hf with hold | hnew
    · exact .inl hold
    · exact .inr (hg n id o hnew.symm)

/-- The next line comes. -/
theorem line (h : Labelled s) (l : LineRead) (hs : s.readerStep (.line l) = some s') :
    Labelled s' := by
  simp only [Service.readerStep] at hs
  split at hs <;> cases hs
  rename_i hreading
  have hlast : ∀ t : Service, t.read = s.read ++ [l] → t.request s.read.length = l.request := by
    intro t ht
    simp [Service.request, ht]
  refine ⟨?_, ?_, ?_, ?_⟩
  · intro n data hr
    cases l with
    | line data' =>
      obtain ⟨rfl, rfl⟩ := ReaderPc.got.inj hr
      simp
    | tooLong => cases hr
    | eof => cases hr
  · intro n id e hr
    cases l with
    | line data' => cases hr
    | tooLong =>
      obtain ⟨rfl, -, -⟩ := ReaderPc.replying.inj hr
      exact ⟨by simp, hlast _ rfl⟩
    | eof => cases hr
  · rintro job (hr | hr | hc | ⟨i, hw⟩)
    · cases l <;> cases hr
    · cases l <;> cases hr
    · have hj := h.job job (.channel hc)
      rw [request_append rfl (request_lt hj), hj]
    · have hj := h.job job (.worker i hw)
      rw [request_append rfl (request_lt hj), hj]
  · intro n id o hf
    obtain ⟨hlt, hid⟩ := h.frame n id o hf
    refine ⟨?_, ?_⟩
    · simp only [List.length_append, List.length_singleton]
      omega
    · rw [request_append rfl hlt]
      exact hid

theorem accept (h : Labelled s) (hs : s.readerStep .accept = some s') : Labelled s' := by
  simp only [Service.readerStep] at hs
  split at hs <;> cases hs
  rename_i n data hgot
  have hline := h.got n data hgot
  have hlt : n < s.read.length := (List.getElem?_eq_some_iff.mp hline).1
  have hrequest : s.request n = (parseRequest data).toOption := by
    simp [Service.request, hline, LineRead.request]
  split
  · exact h.setReader _ fun _ => rfl
  · cases hparse : parseRequest data with
    | ok request =>
      rw [hparse] at hrequest
      refine h.keep rfl (by simp [ReaderPc.checked]) (by simp [ReaderPc.checked]) ?_
        fun _ _ _ hf => .inl hf
      rintro job (hr | hr | hc | ⟨i, hw⟩)
      · obtain rfl := ReaderPc.parsed.inj hr
        exact .inr hrequest
      · cases hr
      · exact .inl (.channel hc)
      · exact .inl (.worker i hw)
    | error e =>
      rw [hparse] at hrequest
      refine h.keep rfl (by simp [ReaderPc.checked]) ?_ ?_ fun _ _ _ hf => .inl hf
      · intro m id e' hr
        obtain ⟨rfl, -, -⟩ := ReaderPc.replying.inj hr
        exact .inr ⟨hlt, hrequest⟩
      · rintro job (hr | hr | hc | ⟨i, hw⟩)
        · cases hr
        · cases hr
        · exact .inl (.channel hc)
        · exact .inl (.worker i hw)

/-- The reader goes on from a job, which may go into the channel. -/
theorem pass (h : Labelled s) (pc : ReaderPc) (channel : List Job)
    (hgot : ∀ n data, pc ≠ .got n data) (hreplying : ∀ n id e, pc ≠ .replying n id e)
    (hparsed : ∀ job, pc ≠ .parsed job) (hcounted : ∀ job, pc = .counted job → s.Holds job)
    (hchannel : ∀ job ∈ channel, s.Holds job) :
    Labelled { s with reader := pc, channel := channel } := by
  refine h.keep rfl (fun n data hr => absurd hr (hgot n data))
    (fun n id e hr => absurd hr (hreplying n id e)) ?_ fun _ _ _ hf => .inl hf
  rintro job (hr | hr | hc | ⟨i, hw⟩)
  · exact absurd hr (hparsed job)
  · exact .inl (hcounted job hr)
  · exact .inl (hchannel job hc)
  · exact .inl (.worker i hw)

theorem reader_step (h : Labelled s) (hs : s.readerStep a = some s') : Labelled s' := by
  cases a with
  | startWorkers =>
    simp only [Service.readerStep] at hs
    split at hs <;> cases hs
    exact (h.setReader .announcing fun _ => rfl).congr rfl rfl rfl rfl rfl
  | hello =>
    simp only [Service.readerStep] at hs
    split at hs <;> cases hs
    exact (h.enqueue (g := .hello) (by simp)).setReader _ fun _ => rfl
  | check =>
    simp only [Service.readerStep] at hs
    split at hs <;> cases hs
    refine h.setReader _ fun n => ?_
    split <;> rfl
  | line l => exact h.line l hs
  | accept => exact h.accept hs
  | reply =>
    simp only [Service.readerStep] at hs
    split at hs <;> cases hs
    rename_i n id e hr
    obtain ⟨hlt, hnone⟩ := h.replying n id e hr
    refine (h.enqueue ?_).setReader _ fun _ => rfl
    intro m id' o hm
    obtain ⟨rfl, -, -⟩ := Frame.response.inj hm
    refine ⟨hlt, fun req hreq => ?_⟩
    rw [hnone] at hreq
    cases hreq
  | count =>
    simp only [Service.readerStep] at hs
    split at hs <;> cases hs
    rename_i job hr
    refine (h.pass (.counted job) s.channel (by simp) (by simp) (by simp) ?_
      fun _ hc => .channel hc).congr rfl rfl rfl rfl rfl
    intro job' hj
    obtain rfl := ReaderPc.counted.inj hj
    exact .parsed hr
  | send =>
    simp only [Service.readerStep] at hs
    split at hs <;> cases hs
    rename_i job hr
    split
    · refine h.pass _ _ (by simp) (by simp) (by simp) (by simp) fun job' hj => ?_
      rcases List.mem_append.mp hj with hj | hj
      · exact .channel hj
      · rw [List.mem_singleton.mp hj]
        exact .counted hr
    · exact h.setReader _ fun _ => rfl
  | leaveUnsent =>
    simp only [Service.readerStep] at hs
    split at hs <;> cases hs
    exact (h.setReader .looping fun _ => rfl).congr rfl rfl rfl rfl rfl
  | _ => cases hs

/-- A worker goes on to `pc`. -/
theorem setWorker (h : Labelled s) (i : Fin WORKER_SLOTS) (pc : WorkerPc)
    (hpc : ∀ job, pc = .handling job → s.Holds job) :
    Labelled (s.setWorker i pc) := by
  refine h.keep rfl (fun _ _ hr => hr) (fun _ _ _ hr => .inl hr) ?_ fun _ _ _ hf => .inl hf
  rintro job (hr | hr | hc | ⟨j, hw⟩)
  · exact .inl (.parsed hr)
  · exact .inl (.counted hr)
  · exact .inl (.channel hc)
  · by_cases hj : j = i
    · subst hj
      exact .inl (hpc job (by simpa [Service.setWorker] using hw))
    · exact .inl (.worker j (by simpa [Service.setWorker, hj] using hw))

theorem worker_step (h : Labelled s) (hs : s.workerStep a = some s') : Labelled s' := by
  cases a with
  | take i =>
    simp only [Service.workerStep] at hs
    split at hs <;> cases hs
    rename_i job rest hidle hc
    have hw := h.setWorker i (.handling job) fun job' hj => by
      obtain rfl := WorkerPc.handling.inj hj
      exact .channel (hc ▸ List.mem_cons_self)
    refine hw.keep rfl (fun _ _ hr => hr) (fun _ _ _ hr => .inl hr) ?_ fun _ _ _ hf => .inl hf
    rintro job' (hr | hr | hj | ⟨j, hj⟩)
    · exact .inl (.parsed hr)
    · exact .inl (.counted hr)
    · exact .inl (.channel (hc ▸ List.mem_cons_of_mem _ hj))
    · exact .inl (.worker j hj)
  | respond i o =>
    simp only [Service.workerStep] at hs
    split at hs <;> cases hs
    rename_i job hw
    have hj := h.job job (.worker i hw)
    refine (h.enqueue ?_).setWorker i _ (by simp)
    intro m id o' hm
    obtain ⟨rfl, rfl, -⟩ := Frame.response.inj hm
    refine ⟨request_lt hj, fun req hreq => ?_⟩
    rw [Option.some.inj (hj.symm.trans hreq)]
  | leave i =>
    simp only [Service.workerStep] at hs
    split at hs <;> cases hs
    exact (h.setWorker i .idle (by simp)).congr rfl rfl rfl rfl rfl
  | _ => cases hs

theorem out_step (h : Labelled s) (hs : s.outStep a = some s') : Labelled s' := by
  cases a with
  | event e =>
    cases hs
    exact h.enqueue (by simp)
  | pop =>
    simp only [Service.outStep] at hs
    split at hs <;> cases hs
    rename_i hw hq
    exact h.congr rfl rfl rfl rfl (by simp [Service.frames, hw, hq])
  | write =>
    simp only [Service.outStep] at hs
    split at hs <;> cases hs
    rename_i hw
    exact h.congr rfl rfl rfl rfl (by simp [Service.frames, hw])
  | peerLeaves =>
    cases hs
    exact h.congr rfl rfl rfl rfl rfl
  | _ => cases hs

theorem beginShutdown (h : Labelled s) (reason : Reason) :
    Labelled (s.beginShutdown reason) := by
  unfold Service.beginShutdown
  split
  · exact h
  · exact h.congr rfl rfl rfl rfl rfl

theorem shutdown_step (h : Labelled s) (hs : s.shutdownStep exitOnShutdown a = some s') :
    Labelled s' := by
  cases a with
  | beginShutdown c =>
    cases c with
    | reader =>
      simp only [Service.shutdownStep] at hs
      split at hs <;> cases hs
      refine (h.beginShutdown .eof).setReader _ fun n => ?_
      split <;> rfl
    | signal =>
      cases hs
      exact h.beginShutdown .signal
    | spawned reason =>
      simp only [Service.shutdownStep] at hs
      split at hs <;> cases hs
      exact (h.beginShutdown reason).congr rfl rfl rfl rfl rfl
  | waited timedOut =>
    simp only [Service.shutdownStep] at hs
    split at hs
    · split at hs <;> cases hs
      exact h.congr rfl rfl rfl rfl rfl
    · cases hs
  | closeJobs =>
    simp only [Service.shutdownStep] at hs
    split at hs <;> cases hs
    exact h.congr rfl rfl rfl rfl rfl
  | final =>
    simp only [Service.shutdownStep] at hs
    split at hs <;> cases hs
    refine h.keep rfl (fun _ _ hr => hr) (fun _ _ _ hr => .inl hr) ?_ ?_
    · rintro job (hr | hr | hc | ⟨i, hw⟩)
      · exact .inl (.parsed hr)
      · exact .inl (.counted hr)
      · exact .inl (.channel hc)
      · exact .inl (.worker i hw)
    · intro n id o hf
      left
      simpa [Service.frames, Out.enqueueFinal] using hf
  | flushed timedOut =>
    simp only [Service.shutdownStep] at hs
    split at hs
    · split at hs <;> cases hs
      rcases s.reader.afterShutdown_cases with hsame | ⟨-, hreturned⟩
      · exact h.congr rfl hsame rfl rfl rfl
      · rw [hreturned]
        exact (h.setReader .returned fun _ => rfl).congr rfl rfl rfl rfl rfl
    · cases hs
  | exitMain =>
    simp only [Service.shutdownStep] at hs
    split at hs <;> cases hs
    exact h.congr rfl rfl rfl rfl rfl
  | _ => cases hs

theorem step (h : Labelled s) (hs : s.step exitOnShutdown a = some s') : Labelled s' := by
  rcases Service.step_cases hs with hr | hw | ho | hsd
  · exact h.reader_step hr
  · exact h.worker_step hw
  · exact h.out_step ho
  · exact h.shutdown_step hsd

end Labelled

-- ============================================================================
-- No request has two responses, and none counted in time gets lost
-- ============================================================================

theorem responses_response (s : Service) (m : Nat) (id : Json) (o : Except RpcError Json)
    (n : Nat) : (s.enqueue (.response m id o) false).responses n =
      s.responses n + if s.out.closed then 0 else tally n m := by
  have hanswers : ([Frame.response m id o].countP (Frame.answers n)) = tally n m := by
    by_cases hm : m = n <;> simp [Frame.answers, tally, hm]
  cases hc : s.out.closed with
  | true => simp [Service.responses, Service.frames, Service.enqueue, Out.enqueue, hc]
  | false =>
    simp only [Service.responses, Service.frames, Service.enqueue, Out.enqueue, hc,
      Bool.false_and, Bool.or_self, Bool.false_eq_true, if_false, ← List.append_assoc,
      List.countP_append, hanswers]

/-- Other frames are no response. -/
theorem responses_enqueue (s : Service) {g : Frame} (d : Bool) {n : Nat}
    (hg : g.answers n = false) : (s.enqueue g d).responses n = s.responses n := by
  rcases s.out.enqueue_eq g d with he | ⟨-, he⟩
  · simp [Service.responses, Service.frames, Service.enqueue, he]
  · simp [Service.responses, Service.frames, Service.enqueue, he, hg]

structure Tokens (s : Service) : Prop where
  inFlight : s.inFlight = s.load ReaderPc.inFlight (fun _ => 1) WorkerPc.busy
  once : ∀ n, s.outstanding n + s.responses n ≤ 1
  fresh : ∀ n, s.read.length ≤ n → s.outstanding n + s.responses n = 0
  inTime : ∀ n ∈ s.inTime, n < s.read.length ∧ s.reader.uncounted n = 0
  jobs : s.reader.started = true → s.shutdown.waitOver = false → s.jobs = true
  waits : s.shutdown.waitOver = false → s.timedOut = false
  kept : s.timedOut = false → ∀ n ∈ s.inTime, s.outstanding n + s.responses n = 1 ∧
    (s.shutdown.waitOver = true → s.outstanding n = 0)
  taken : s.stopping = false → ∀ n req, s.request n = some req →
    n ∈ s.inTime ∨ s.reader.uncounted n = 1

namespace Tokens

theorem initial : Tokens .initial where
  inFlight := by simp [Service.load, Service.initial, ReaderPc.inFlight, WorkerPc.busy]
  once n := by
    simp [Service.outstanding, Service.responses, Service.load, Service.frames, Service.initial,
      ReaderPc.holds, ReaderPc.uncounted, WorkerPc.holds]
  fresh n _ := by
    simp [Service.outstanding, Service.responses, Service.load, Service.frames, Service.initial,
      ReaderPc.holds, ReaderPc.uncounted, WorkerPc.holds]
  inTime n h := by cases h
  jobs h := by cases h
  waits _ := rfl
  kept _ n h := by cases h
  taken _ n req h := by simp [Service.request, Service.initial] at h

/-- The step neither reads a line nor counts a request nor ends the wait, and
    loses nothing that was counted in time. -/
theorem keep (h : Tokens s) (hread : s'.read = s.read) (hin : s'.inTime = s.inTime)
    (hwait : s'.shutdown.waitOver = s.shutdown.waitOver) (hout : s'.timedOut = s.timedOut)
    (hstop : s'.stopping = false → s.stopping = false)
    (hinFlight : s'.inFlight = s'.load ReaderPc.inFlight (fun _ => 1) WorkerPc.busy)
    (hle : ∀ n, s'.outstanding n + s'.responses n ≤ s.outstanding n + s.responses n)
    (hkept : ∀ n ∈ s.inTime, s.timedOut = false →
      s.outstanding n + s.responses n ≤ s'.outstanding n + s'.responses n ∧
        s'.outstanding n ≤ s.outstanding n)
    (huncounted : ∀ n, s'.reader.uncounted n ≤ s.reader.uncounted n)
    (htaken : s'.stopping = false → ∀ n, (s.request n).isSome → s.reader.uncounted n = 1 →
      s'.reader.uncounted n = 1)
    (hjobs : s'.reader.started = true → s'.shutdown.waitOver = false → s'.jobs = true) :
    Tokens s' := by
  have hrequest : s'.request = s.request := by
    funext n
    simp only [Service.request, hread]
  refine ⟨hinFlight, ?_, ?_, ?_, hjobs, ?_, ?_, ?_⟩
  · intro n
    exact Nat.le_trans (hle n) (h.once n)
  · intro n hn
    rw [hread] at hn
    have := hle n
    have := h.fresh n hn
    omega
  · intro n hn
    rw [hin] at hn
    obtain ⟨hlt, hnot⟩ := h.inTime n hn
    have := huncounted n
    rw [hread]
    exact ⟨hlt, by omega⟩
  · rw [hwait, hout]
    exact h.waits
  · intro ht n hn
    rw [hin] at hn
    rw [hout] at ht
    obtain ⟨hone, hover⟩ := h.kept ht n hn
    obtain ⟨hge, hless⟩ := hkept n hn ht
    have := hle n
    refine ⟨by omega, fun hw => ?_⟩
    rw [hwait] at hw
    have := hover hw
    omega
  · intro hs n req hreq
    rw [hrequest] at hreq
    rw [hin]
    rcases h.taken (hstop hs) n req hreq with hin | hone
    · exact .inl hin
    · exact .inr (htaken hs n (by simp [hreq]) hone)

/-- No token gets lost or answered. -/
theorem same (h : Tokens s) (hread : s'.read = s.read) (hin : s'.inTime = s.inTime)
    (hwait : s'.shutdown.waitOver = s.shutdown.waitOver) (hout : s'.timedOut = s.timedOut)
    (hstop : s'.stopping = false → s.stopping = false)
    (hinFlight : s'.inFlight = s'.load ReaderPc.inFlight (fun _ => 1) WorkerPc.busy)
    (houtstanding : ∀ n, s'.outstanding n = s.outstanding n)
    (hresponses : ∀ n, s'.responses n = s.responses n)
    (huncounted : ∀ n, s'.reader.uncounted n = s.reader.uncounted n)
    (hjobs : s'.reader.started = true → s'.shutdown.waitOver = false → s'.jobs = true) :
    Tokens s' := by
  refine h.keep hread hin hwait hout hstop hinFlight ?_ ?_ ?_ ?_ hjobs
  · intro n
    rw [houtstanding, hresponses]
  · intro n _ _
    rw [houtstanding, hresponses]
    omega
  · intro n
    rw [huncounted]
  · intro _ n _ hone
    rw [huncounted, hone]

/-- Only what the invariant does not speak of is changed, and the reader goes
    from one place to another with the same line. -/
theorem congr (h : Tokens s) (hread : s'.read = s.read) (hin : s'.inTime = s.inTime)
    (hwait : s'.shutdown.waitOver = s.shutdown.waitOver) (hout : s'.timedOut = s.timedOut)
    (hstop : s'.stopping = false → s.stopping = false) (hflight : s'.inFlight = s.inFlight)
    (hchannel : s'.channel = s.channel) (hworker : s'.worker = s.worker)
    (hreader : s'.reader.inFlight = s.reader.inFlight)
    (huncounted : ∀ n, s'.reader.uncounted n = s.reader.uncounted n)
    (hholds : ∀ n, s'.reader.holds n = s.reader.holds n)
    (hresponses : ∀ n, s'.responses n = s.responses n)
    (hjobs : s'.reader.started = true → s'.shutdown.waitOver = false → s'.jobs = true) :
    Tokens s' := by
  refine h.same hread hin hwait hout hstop ?_ ?_ hresponses huncounted hjobs
  · have hmoved := load_moved ReaderPc.inFlight (fun _ => 1) WorkerPc.busy hchannel hworker
    have := h.inFlight
    omega
  · intro n
    have hmoved := outstanding_moved s s' hchannel hworker n
    have := hholds n
    omega

/-- The reader goes on without a job, to the loop or out of it. -/
theorem setReader (h : Tokens s) {pc : ReaderPc} (hstarted : s.reader.started = true)
    (hflight : pc.inFlight = s.reader.inFlight) (hold : ∀ n, s.reader.holds n = 0)
    (hnew : ∀ n, pc.holds n = 0) : Tokens { s with reader := pc } := by
  have huncounted : ∀ (pc : ReaderPc) n, pc.holds n = 0 → pc.uncounted n = 0 := by
    intro pc n hn
    cases pc with
    | counted job => rfl
    | _ => exact hn
  refine h.congr rfl rfl rfl rfl id rfl rfl rfl hflight ?_ ?_ (fun _ => rfl)
    fun _ => h.jobs hstarted
  · intro n
    rw [huncounted _ n (hold n)]
    exact huncounted _ n (hnew n)
  · intro n
    rw [hold]
    exact hnew n

/-- The next line is a token of its own. -/
theorem line (h : Tokens s) (l : LineRead) (hs : s.readerStep (.line l) = some s') :
    Tokens s' := by
  simp only [Service.readerStep] at hs
  split at hs <;> cases hs
  rename_i hr
  have hreading : ∀ n, s.reader.holds n = 0 := by rw [hr]; exact fun _ => rfl
  have hflight : s.reader.inFlight = 0 ∧ (ReaderPc.next s.read.length l).inFlight = 0 := by
    rw [hr]
    cases l <;> exact ⟨rfl, rfl⟩
  have hholds : ∀ n, (ReaderPc.next s.read.length l).holds n =
        (ReaderPc.next s.read.length l).uncounted n ∧
      (ReaderPc.next s.read.length l).uncounted n ≤ tally n s.read.length := by
    intro n
    cases l
    · exact ⟨rfl, Nat.le_refl _⟩
    · exact ⟨rfl, Nat.le_refl _⟩
    · exact ⟨rfl, Nat.zero_le _⟩
  have hload : ∀ n, ({ s with read := s.read ++ [l], reader := .next s.read.length l } :
      Service).outstanding n =
        s.outstanding n + (ReaderPc.next s.read.length l).uncounted n := by
    intro n
    simp only [Service.outstanding, Service.load, hreading, (hholds n).1]
    omega
  have hresponses : ∀ n, ({ s with read := s.read ++ [l], reader := .next s.read.length l } :
      Service).responses n = s.responses n := fun _ => rfl
  have hold : ∀ n, n < s.read.length → (ReaderPc.next s.read.length l).uncounted n = 0 := by
    intro n hn
    have hle := (hholds n).2
    have hzero : tally n s.read.length = 0 := if_neg (by omega)
    omega
  refine ⟨?_, ?_, ?_, ?_, ?_, h.waits, ?_, ?_⟩
  · have := h.inFlight
    simp only [Service.load, hflight] at this ⊢
    exact this
  · intro n
    rw [hload, hresponses]
    rcases Nat.lt_or_ge n s.read.length with hlt | hge
    · have := hold n hlt
      have := h.once n
      omega
    · have := h.fresh n hge
      have := (hholds n).2
      have := tally_le_one n s.read.length
      omega
  · intro n hn
    rw [hload, hresponses]
    simp only [List.length_append, List.length_singleton] at hn
    have hzero : tally n s.read.length = 0 := if_neg (by omega)
    have := (hholds n).2
    have := h.fresh n (by omega)
    omega
  · intro n hn
    obtain ⟨hlt, -⟩ := h.inTime n hn
    refine ⟨?_, hold n hlt⟩
    simp only [List.length_append, List.length_singleton]
    omega
  · intro _
    exact h.jobs (by rw [hr]; rfl)
  · intro ht n hn
    obtain ⟨hlt, -⟩ := h.inTime n hn
    rw [hload, hresponses, hold n hlt]
    exact h.kept ht n hn
  · intro hstop n req hreq
    have hlt := request_lt hreq
    simp only [List.length_append, List.length_singleton] at hlt
    rcases Nat.lt_or_ge n s.read.length with hlt' | hge
    · rw [request_append rfl hlt'] at hreq
      rcases h.taken hstop n req hreq with hin | hone
      · exact .inl hin
      · rw [hr] at hone
        cases hone
    · obtain rfl : n = s.read.length := by omega
      right
      cases l with
      | line data => exact tally_self _
      | tooLong => simp [Service.request, LineRead.request] at hreq
      | eof => simp [Service.request, LineRead.request] at hreq

theorem accept (h : Tokens s) (hs : s.readerStep .accept = some s') : Tokens s' := by
  simp only [Service.readerStep] at hs
  split at hs <;> cases hs
  rename_i n data hr
  have hstarted : s.reader.started = true := by rw [hr]; rfl
  split
  · -- the line is dropped
    rename_i hstop
    have hmoved := outstanding_moved s { s with reader := .looping } rfl rfl
    refine h.keep rfl rfl rfl rfl (fun hf => hf) ?_ ?_ ?_ (fun _ => Nat.zero_le _) ?_
      fun _ => h.jobs hstarted
    · have := h.inFlight
      simp only [Service.load, hr, ReaderPc.inFlight] at this ⊢
      exact this
    · intro m
      have := hmoved m
      have : s.reader.holds m = tally m n := by rw [hr]; rfl
      show _ + s.responses m ≤ _
      simp only [ReaderPc.holds, ReaderPc.uncounted] at *
      omega
    · intro m hm _
      have := hmoved m
      have hnot := (h.inTime m hm).2
      rw [hr] at hnot
      have : s.reader.holds m = tally m n := by rw [hr]; rfl
      show s.outstanding m + s.responses m ≤ _ + s.responses m ∧ _
      simp only [ReaderPc.holds, ReaderPc.uncounted] at *
      omega
    · intro hf
      have hf' : s.stopping = false := hf
      rw [hstop] at hf'
      cases hf'
  · have hchecked : (ReaderPc.checked n (parseRequest data)).inFlight = 0 ∧
        (∀ m, (ReaderPc.checked n (parseRequest data)).uncounted m = tally m n) ∧
        ∀ m, (ReaderPc.checked n (parseRequest data)).holds m = tally m n := by
      cases parseRequest data with
      | ok request => exact ⟨rfl, fun _ => rfl, fun _ => rfl⟩
      | error e => exact ⟨rfl, fun _ => rfl, fun _ => rfl⟩
    obtain ⟨hflight, huncounted, hholds⟩ := hchecked
    refine h.congr rfl rfl rfl rfl (fun hf => hf) rfl rfl rfl ?_ ?_ ?_ (fun _ => rfl)
      fun _ => h.jobs hstarted
    · rw [hr]
      exact hflight
    · rw [hr]
      exact huncounted
    · rw [hr]
      exact hholds

/-- A line that is no well-formed request is answered by the reader. -/
theorem reply (h : Tokens s) (hl : Labelled s) (hs : s.readerStep .reply = some s') :
    Tokens s' := by
  simp only [Service.readerStep] at hs
  split at hs
  · rename_i n id e hr
    have hs' := Option.some.inj hs
    obtain ⟨-, hnone⟩ := hl.replying n id e hr
    have hstarted : s.reader.started = true := by rw [hr]; rfl
    have hnot : ∀ m ∈ s.inTime, tally m n = 0 := by
      intro m hm
      have := (h.inTime m hm).2
      rwa [hr] at this
    have hless : ∀ m, s'.outstanding m + tally m n = s.outstanding m := by
      intro m
      have hmoved := outstanding_moved s s' (by rw [← hs']; rfl)
        (by rw [← hs']; rfl) m
      have hnew : s'.reader.holds m = 0 := by rw [← hs']; rfl
      have hold : s.reader.holds m = tally m n := by rw [hr]; rfl
      omega
    have hmore : ∀ m, s'.responses m = s.responses m + if s.out.closed then 0 else tally m n := by
      rw [← hs']
      exact responses_response s n id (.error e)
    refine h.keep ?_ ?_ ?_ ?_ ?_ ?_ ?_ ?_ ?_ ?_ ?_
    · rw [← hs']; rfl
    · rw [← hs']; rfl
    · rw [← hs']; rfl
    · rw [← hs']; rfl
    · rw [← hs']; exact fun hf => hf
    · have := h.inFlight
      rw [← hs']
      simp only [Service.load, hr, ReaderPc.inFlight] at this ⊢
      exact this
    · intro m
      have := hless m
      rw [hmore]
      split <;> omega
    · intro m hm _
      have := hless m
      have := hnot m hm
      rw [hmore]
      split <;> omega
    · rw [← hs']
      exact fun _ => Nat.zero_le _
    · intro _ m hsome hone
      rw [hr] at hone
      -- the line has no request
      obtain rfl : n = m := by
        by_contra hne
        simp [ReaderPc.uncounted, tally, hne] at hone
      rw [hnone] at hsome
      cases hsome
    · rw [← hs']
      exact fun _ => h.jobs hstarted
  · cases hs

theorem count (h : Tokens s) (hout : Output s) (hs : s.readerStep .count = some s') :
    Tokens s' := by
  simp only [Service.readerStep] at hs
  split at hs
  · rename_i job hr
    have hs' := Option.some.inj hs
    have hread : s'.read = s.read := by rw [← hs']
    have hreader : s'.reader = .counted job := by rw [← hs']
    have hwait : s'.shutdown = s.shutdown ∧ s'.timedOut = s.timedOut ∧
        s'.stopping = s.stopping := by simp [← hs']
    have hinTime : s'.inTime =
        if s.shutdown.waitOver then s.inTime else s.inTime ++ [job.line] := by rw [← hs']
    have hload : ∀ n, s'.outstanding n = s.outstanding n := by
      intro n
      have hmoved := outstanding_moved s s' (by rw [← hs']) (by rw [← hs']) n
      rw [hreader, hr] at hmoved
      simp only [ReaderPc.holds, ReaderPc.uncounted] at hmoved
      omega
    have hresponses : ∀ n, s'.responses n = s.responses n := by
      rw [← hs']
      exact fun _ => rfl
    -- the request is a token that the reader has
    have hone : s.outstanding job.line + s.responses job.line = 1 := by
      have hholds : s.reader.holds job.line = 1 := by
        rw [hr]
        exact tally_self job.line
      have := h.once job.line
      simp only [Service.outstanding, Service.load] at *
      omega
    have hlt : job.line < s.read.length := by
      by_contra hge
      have := h.fresh job.line (by omega)
      omega
    refine ⟨?_, ?_, ?_, ?_, ?_, ?_, ?_, ?_⟩
    · have := h.inFlight
      rw [← hs']
      simp only [Service.load, hr, ReaderPc.inFlight] at this ⊢
      omega
    · intro n
      rw [hload, hresponses]
      exact h.once n
    · intro n hn
      rw [hload, hresponses]
      exact h.fresh n (hread ▸ hn)
    · intro n hn
      rw [hread, hreader]
      refine ⟨?_, rfl⟩
      rw [hinTime] at hn
      split at hn
      · exact (h.inTime n hn).1
      · rcases List.mem_append.mp hn with hn | hn
        · exact (h.inTime n hn).1
        · rw [List.mem_singleton.mp hn]
          exact hlt
    · intro _
      rw [← hs']
      exact h.jobs (by rw [hr]; rfl)
    · rw [hwait.1, hwait.2.1]
      exact h.waits
    · intro ht n hn
      rw [hwait.2.1] at ht
      rw [hload, hresponses, hwait.1]
      rw [hinTime] at hn
      split at hn
      · exact h.kept ht n hn
      · rename_i hw
        rcases List.mem_append.mp hn with hn | hn
        · exact h.kept ht n hn
        · rw [List.mem_singleton.mp hn]
          exact ⟨hone, fun hover => absurd hover hw⟩
    · intro hstop n req hreq
      rw [hwait.2.2] at hstop
      have hnot : s.shutdown = .notBegun := hout.begun (hout.flags ▸ hstop)
      have hreq' : s.request n = some req := by
        simpa only [Service.request, hread] using hreq
      left
      simp only [hinTime, hnot, ShutdownPc.waitOver, Bool.false_eq_true, if_false,
        List.mem_append, List.mem_singleton]
      rcases h.taken hstop n req hreq' with hin | hone
      · exact .inl hin
      · rw [hr] at hone
        right
        by_contra hne
        simp [ReaderPc.uncounted, Job.holds, tally, Ne.symm hne] at hone
  · cases hs

/-- A job that finds no channel was not counted in time. -/
theorem send (h : Tokens s) (hs : s.readerStep .send = some s') : Tokens s' := by
  simp only [Service.readerStep] at hs
  split at hs
  · rename_i job hr
    have hstarted : s.reader.started = true := by rw [hr]; rfl
    have hs' := Option.some.inj hs
    have hin := h.inFlight
    simp only [Service.load, hr, ReaderPc.inFlight] at hin
    cases hjobs : s.jobs with
    | true =>
      simp only [hjobs, if_true] at hs'
      have hload : ∀ n, s'.outstanding n = s.outstanding n := by
        intro n
        rw [← hs']
        simp only [Service.outstanding, Service.load, hr, ReaderPc.holds, ReaderPc.uncounted,
          List.map_append, List.sum_append, List.map_cons, List.map_nil, List.sum_singleton]
        omega
      have hresponses : ∀ n, s'.responses n = s.responses n := by
        rw [← hs']
        exact fun _ => rfl
      refine h.same ?_ ?_ ?_ ?_ ?_ ?_ hload hresponses ?_ ?_
      · rw [← hs']
      · rw [← hs']
      · rw [← hs']
      · rw [← hs']
      · rw [← hs']; exact fun hf => hf
      · rw [← hs']
        simp only [Service.load, ReaderPc.inFlight, List.map_append, List.sum_append,
          List.map_cons, List.map_nil, List.sum_singleton]
        omega
      · rw [← hs', hr]
        exact fun _ => rfl
      · rw [← hs']
        exact fun _ _ => rfl
    | false =>
      simp only [hjobs, Bool.false_eq_true, if_false] at hs'
      have hover : s.shutdown.waitOver = true := by
        by_contra hnot
        have := h.jobs hstarted (by simpa using hnot)
        rw [hjobs] at this
        cases this
      have hless : ∀ n, s'.outstanding n + job.holds n = s.outstanding n := by
        intro n
        have hmoved := outstanding_moved s s' (by rw [← hs']) (by rw [← hs']) n
        have hnew : s'.reader.holds n = 0 := by rw [← hs']; rfl
        have hold : s.reader.holds n = job.holds n := by rw [hr]; rfl
        omega
      have hresponses : ∀ n, s'.responses n = s.responses n := by
        rw [← hs']
        exact fun _ => rfl
      refine h.keep ?_ ?_ ?_ ?_ ?_ ?_ ?_ ?_ ?_ ?_ ?_
      · rw [← hs']
      · rw [← hs']
      · rw [← hs']
      · rw [← hs']
      · rw [← hs']; exact fun hf => hf
      · rw [← hs']
        simpa only [Service.load, ReaderPc.inFlight] using hin
      · intro n
        have := hless n
        rw [hresponses]
        omega
      · intro n hn ht
        have := hless n
        have := (h.kept ht n hn).2 hover
        rw [hresponses]
        omega
      · rw [← hs']
        exact fun _ => Nat.zero_le _
      · intro _ n _ hone
        rw [hr] at hone
        cases hone
      · intro _ hnot
        rw [← hs'] at hnot
        rw [hover] at hnot
        cases hnot
  · cases hs

theorem reader_step (h : Tokens s) (hl : Labelled s) (hout : Output s)
    (hs : s.readerStep a = some s') : Tokens s' := by
  cases a with
  | startWorkers =>
    simp only [Service.readerStep] at hs
    split at hs <;> cases hs
    rename_i hr
    exact h.congr rfl rfl rfl rfl (fun hf => hf) rfl rfl rfl (by rw [hr]; rfl)
      (by rw [hr]; exact fun _ => rfl) (by rw [hr]; exact fun _ => rfl) (fun _ => rfl)
      fun _ _ => rfl
  | hello =>
    simp only [Service.readerStep] at hs
    split at hs <;> cases hs
    rename_i hr
    exact h.congr rfl rfl rfl rfl (fun hf => hf) rfl rfl rfl (by rw [hr]; rfl)
      (by rw [hr]; exact fun _ => rfl) (by rw [hr]; exact fun _ => rfl)
      (fun _ => responses_enqueue s false rfl) fun _ => h.jobs (by rw [hr]; rfl)
  | check =>
    simp only [Service.readerStep] at hs
    split at hs <;> cases hs
    rename_i hr
    refine h.setReader (by rw [hr]; rfl) ?_ (by rw [hr]; exact fun _ => rfl) fun n => ?_
    · rw [hr]
      split <;> rfl
    · split <;> rfl
  | line l => exact h.line l hs
  | accept => exact h.accept hs
  | reply => exact h.reply hl hs
  | count => exact h.count hout hs
  | send => exact h.send hs
  | leaveUnsent =>
    simp only [Service.readerStep] at hs
    split at hs <;> cases hs
    rename_i hr
    refine h.same rfl rfl rfl rfl (fun hf => hf) ?_ ?_ (fun _ => rfl) ?_
      fun _ => h.jobs (by rw [hr]; rfl)
    · have := h.inFlight
      simp only [Service.load, hr, ReaderPc.inFlight] at this ⊢
      omega
    · intro n
      have hmoved := outstanding_moved s
        { s with inFlight := s.inFlight - 1, reader := .looping } rfl rfl n
      have hold : s.reader.holds n = 0 := by rw [hr]; rfl
      rw [hold] at hmoved
      exact hmoved
    · rw [hr]
      exact fun _ => rfl
  | _ => cases hs

theorem worker_step (h : Tokens s) (hout : Output s) (hs : s.workerStep a = some s') :
    Tokens s' := by
  cases a with
  | take i =>
    simp only [Service.workerStep] at hs
    split at hs
    · rename_i job rest hidle hc
      have hs' := Option.some.inj hs
      -- the job goes from the channel to the worker
      have hload : ∀ (r : ReaderPc → Nat) (c : Job → Nat) (w : WorkerPc → Nat),
          s'.load r c w + c job + w .idle = s.load r c w + w (.handling job) := by
        intro r c w
        have hsum := sum_setWorker w s i (.handling job)
        rw [hidle] at hsum
        rw [← hs']
        simp only [Service.load, hc, List.map_cons, List.sum_cons]
        simp only [Service.setWorker] at hsum ⊢
        omega
      refine h.same ?_ ?_ ?_ ?_ ?_ ?_ ?_ ?_ ?_ ?_
      · rw [← hs']; rfl
      · rw [← hs']; rfl
      · rw [← hs']; rfl
      · rw [← hs']; rfl
      · rw [← hs']; exact fun hf => hf
      · have hmoved := hload ReaderPc.inFlight (fun _ => 1) WorkerPc.busy
        have hflight : s'.inFlight = s.inFlight := by rw [← hs']; rfl
        have := h.inFlight
        simp only [WorkerPc.busy] at hmoved
        omega
      · intro n
        have hmoved := hload (ReaderPc.holds n) (Job.holds n) (WorkerPc.holds n)
        simp only [WorkerPc.holds] at hmoved
        simp only [Service.outstanding]
        omega
      · rw [← hs']; exact fun _ => rfl
      · rw [← hs']; exact fun _ => rfl
      · rw [← hs']; exact h.jobs
    · cases hs
  | respond i o =>
    simp only [Service.workerStep] at hs
    split at hs
    · rename_i job hw
      have hs' := Option.some.inj hs
      have hload : ∀ (r : ReaderPc → Nat) (c : Job → Nat) (w : WorkerPc → Nat),
          s'.load r c w + w (.handling job) = s.load r c w + w (.answered job.request.method) := by
        intro r c w
        have hsum := sum_setWorker w s i (.answered job.request.method)
        rw [hw] at hsum
        rw [← hs']
        simp only [Service.load, Service.setWorker, Service.enqueue] at hsum ⊢
        omega
      have hless : ∀ n, s'.outstanding n + job.holds n = s.outstanding n := by
        intro n
        have hmoved := hload (ReaderPc.holds n) (Job.holds n) (WorkerPc.holds n)
        simp only [WorkerPc.holds] at hmoved
        simp only [Service.outstanding]
        omega
      have hmore : ∀ n, s'.responses n =
          s.responses n + if s.out.closed then 0 else job.holds n := by
        rw [← hs']
        exact responses_response s job.line job.request.id o.outcome
      refine h.keep ?_ ?_ ?_ ?_ ?_ ?_ ?_ ?_ ?_ ?_ ?_
      · rw [← hs']; rfl
      · rw [← hs']; rfl
      · rw [← hs']; rfl
      · rw [← hs']; rfl
      · rw [← hs']; exact fun hf => hf
      · have hmoved := hload ReaderPc.inFlight (fun _ => 1) WorkerPc.busy
        have hflight : s'.inFlight = s.inFlight := by rw [← hs']; rfl
        have := h.inFlight
        simp only [WorkerPc.busy] at hmoved
        omega
      · intro n
        have := hless n
        rw [hmore]
        split <;> omega
      · intro n hn ht
        have := hless n
        rw [hmore]
        split
        · -- a closed output has nothing to come that was counted in time
          rename_i hclosed
          have hover : s.shutdown.waitOver = true := by
            rw [hout.closed] at hclosed
            exact ShutdownPc.waitOver_of_sent hclosed
          have := (h.kept ht n hn).2 hover
          omega
        · omega
      · rw [← hs']; exact fun _ => Nat.le_refl _
      · rw [← hs']; exact fun _ _ _ hone => hone
      · rw [← hs']; exact h.jobs
    · cases hs
  | leave i =>
    simp only [Service.workerStep] at hs
    split at hs
    · rename_i method hw
      have hs' := Option.some.inj hs
      have hload : ∀ (r : ReaderPc → Nat) (c : Job → Nat) (w : WorkerPc → Nat),
          s'.load r c w + w (.answered method) = s.load r c w + w .idle := by
        intro r c w
        have hsum := sum_setWorker w s i .idle
        rw [hw] at hsum
        rw [← hs']
        simp only [Service.load, Service.setWorker] at hsum ⊢
        omega
      refine h.same ?_ ?_ ?_ ?_ ?_ ?_ ?_ ?_ ?_ ?_
      · rw [← hs']; rfl
      · rw [← hs']; rfl
      · rw [← hs']; rfl
      · rw [← hs']; rfl
      · rw [← hs']; exact fun hf => hf
      · have hmoved := hload ReaderPc.inFlight (fun _ => 1) WorkerPc.busy
        have hflight : s'.inFlight = s.inFlight - 1 := by rw [← hs']
        have := h.inFlight
        simp only [WorkerPc.busy] at hmoved
        omega
      · intro n
        have hmoved := hload (ReaderPc.holds n) (Job.holds n) (WorkerPc.holds n)
        simp only [WorkerPc.holds] at hmoved
        simp only [Service.outstanding]
        omega
      · rw [← hs']; exact fun _ => rfl
      · rw [← hs']; exact fun _ => rfl
      · rw [← hs']; exact h.jobs
    · cases hs
  | _ => cases hs

theorem out_step (h : Tokens s) (hs : s.outStep a = some s') : Tokens s' := by
  cases a with
  | event e =>
    cases hs
    exact h.congr rfl rfl rfl rfl (fun hf => hf) rfl rfl rfl rfl (fun _ => rfl) (fun _ => rfl)
      (fun _ => responses_enqueue s _ rfl) h.jobs
  | pop =>
    simp only [Service.outStep] at hs
    split at hs <;> cases hs
    rename_i hw hq
    exact h.congr rfl rfl rfl rfl (fun hf => hf) rfl rfl rfl rfl (fun _ => rfl) (fun _ => rfl)
      (fun _ => by simp [Service.responses, Service.frames, hw, hq]) h.jobs
  | write =>
    simp only [Service.outStep] at hs
    split at hs <;> cases hs
    rename_i hw
    exact h.congr rfl rfl rfl rfl (fun hf => hf) rfl rfl rfl rfl (fun _ => rfl) (fun _ => rfl)
      (fun _ => by simp [Service.responses, Service.frames, hw]) h.jobs
  | peerLeaves =>
    cases hs
    exact h.congr rfl rfl rfl rfl (fun hf => hf) rfl rfl rfl rfl (fun _ => rfl) (fun _ => rfl)
      (fun _ => rfl) h.jobs
  | _ => cases hs

theorem beginShutdown (h : Tokens s) (hout : Output s) (reason : Reason) :
    Tokens (s.beginShutdown reason) := by
  unfold Service.beginShutdown
  split
  · exact h
  · rename_i hd
    have hnot : s.shutdown = .notBegun := hout.begun (by simpa using hd)
    have hwait : s.shutdown.waitOver = false := by rw [hnot]; rfl
    exact h.congr rfl rfl (by rw [hwait]; rfl) rfl (fun hf => by cases hf) rfl rfl rfl rfl
      (fun _ => rfl) (fun _ => rfl) (fun _ => rfl) fun hr _ => h.jobs hr hwait

/-- The wait ends, with no request in flight unless it was given up. -/
theorem waited (h : Tokens s) {timedOut : Bool} {reason : Reason}
    (hpc : s.shutdown = .waiting reason) (hzero : timedOut = false → s.inFlight = 0) :
    Tokens { s with shutdown := .closingJobs reason, timedOut := timedOut } := by
  refine ⟨h.inFlight, h.once, h.fresh, h.inTime, ?_, ?_, ?_, h.taken⟩
  · intro _ hf
    cases hf
  · intro hf
    cases hf
  · intro ht n hn
    have hwait : s.shutdown.waitOver = false := by rw [hpc]; rfl
    obtain ⟨hone, -⟩ := h.kept (h.waits hwait) n hn
    refine ⟨hone, fun _ => ?_⟩
    have hnone : s.inFlight = 0 := hzero ht
    have hnot := (h.inTime n hn).2
    have hin := h.inFlight
    have hle := outstanding_le s n
    show s.outstanding n = 0
    omega

/-- The shutdown goes on after its wait. -/
theorem setShutdown (h : Tokens s) (pc : ShutdownPc) (hpc : pc.waitOver = true)
    (hover : s.shutdown.waitOver = true) (hread : s'.read = s.read) (hin : s'.inTime = s.inTime)
    (hout : s'.timedOut = s.timedOut) (hstop : s'.stopping = s.stopping)
    (hflight : s'.inFlight = s.inFlight) (hchannel : s'.channel = s.channel)
    (hworker : s'.worker = s.worker) (hreader : s'.reader = s.reader)
    (hshutdown : s'.shutdown = pc) (hresponses : ∀ n, s'.responses n = s.responses n) :
    Tokens s' := by
  refine h.congr hread hin ?_ hout ?_ hflight hchannel hworker ?_ ?_ ?_ hresponses ?_
  · rw [hshutdown, hpc, hover]
  · rw [hstop]
    exact id
  · rw [hreader]
  · rw [hreader]
    exact fun _ => rfl
  · rw [hreader]
    exact fun _ => rfl
  · intro _ hf
    rw [hshutdown, hpc] at hf
    cases hf

theorem shutdown_step (h : Tokens s) (hout : Output s)
    (hs : s.shutdownStep exitOnShutdown a = some s') : Tokens s' := by
  cases a with
  | beginShutdown c =>
    cases c with
    | reader =>
      simp only [Service.shutdownStep] at hs
      split at hs <;> cases hs
      rename_i hr
      have hsame : (s.beginShutdown .eof).reader = .atEof := by
        rw [← hr]
        unfold Service.beginShutdown
        split <;> rfl
      refine (h.beginShutdown hout .eof).setReader (by rw [hsame]; rfl) ?_
        (by rw [hsame]; exact fun _ => rfl) fun n => ?_
      · rw [hsame]
        split <;> rfl
      · split <;> rfl
    | signal =>
      cases hs
      exact h.beginShutdown hout .signal
    | spawned reason =>
      simp only [Service.shutdownStep] at hs
      split at hs <;> cases hs
      have hb := h.beginShutdown hout reason
      exact hb.congr rfl rfl rfl rfl (fun hf => hf) rfl rfl rfl rfl (fun _ => rfl) (fun _ => rfl)
        (fun _ => rfl) hb.jobs
  | waited timedOut =>
    simp only [Service.shutdownStep] at hs
    split at hs
    · rename_i reason hpc
      split at hs <;> cases hs
      rename_i hwait
      refine h.waited hpc fun ht => ?_
      subst ht
      simpa using hwait
    · cases hs
  | closeJobs =>
    simp only [Service.shutdownStep] at hs
    split at hs <;> cases hs
    rename_i reason hpc
    exact h.setShutdown (.tearingDown reason) rfl (by rw [hpc]; rfl) rfl rfl rfl rfl rfl rfl
      rfl rfl rfl fun _ => rfl
  | final =>
    simp only [Service.shutdownStep] at hs
    split at hs <;> cases hs
    rename_i reason hpc
    refine h.setShutdown .flushing rfl (by rw [hpc]; rfl) rfl rfl rfl rfl rfl rfl
      rfl rfl rfl fun n => ?_
    simp [Service.responses, Service.frames, Out.enqueueFinal, Frame.answers]
  | flushed timedOut =>
    simp only [Service.shutdownStep] at hs
    split at hs
    · rename_i hpc
      split at hs <;> cases hs
      have hover : s.shutdown.waitOver = true := by rw [hpc]; rfl
      refine h.congr rfl rfl (by rw [hover]; rfl) rfl (fun hf => hf) rfl rfl rfl ?_ ?_ ?_
        (fun _ => rfl) fun _ hf => by cases hf
      all_goals
        rcases s.reader.afterShutdown_cases with hsame | ⟨hold, hreturned⟩
        · simp only [hsame, implies_true]
        · rw [hold]
          first | rfl | exact fun _ => rfl
    · cases hs
  | exitMain =>
    simp only [Service.shutdownStep] at hs
    split at hs <;> cases hs
    exact h.congr rfl rfl rfl rfl (fun hf => hf) rfl rfl rfl rfl (fun _ => rfl) (fun _ => rfl)
      (fun _ => rfl) h.jobs
  | _ => cases hs

theorem step (h : Tokens s) (hl : Labelled s) (hout : Output s)
    (hs : s.step exitOnShutdown a = some s') : Tokens s' := by
  rcases Service.step_cases hs with hr | hw | ho | hsd
  · exact h.reader_step hl hout hr
  · exact h.worker_step hout hw
  · exact h.out_step ho
  · exact h.shutdown_step hout hsd

end Tokens

-- ============================================================================
-- What the client sees
-- ============================================================================

/-- `written` as far as responses and the shutdown go: `n` stands for the line of
    a request. -/
structure Responses (s : Service) : Prop where
  /-- The shutdown frame is there at most once, and nothing follows it. -/
  last : ∀ pre r post, s.written = pre ++ .shutdown r :: post →
    post = [] ∧ ∀ f ∈ pre, f.isShutdown = false
  once : ∀ n, s.written.countP (Frame.answers n) ≤ 1
  id : ∀ n id o req, .response n id o ∈ s.written → s.request n = some req → id = req.id
  /-- A request that was counted in flight before the wait was over has its
      response before the shutdown frame, unless the wait was given up. -/
  answered : ∀ pre r, s.written = pre ++ [.shutdown r] → s.timedOut = false →
    ∀ n ∈ s.inTime, pre.countP (Frame.answers n) = 1
  /-- Until the shutdown begins, every well-formed request is counted. -/
  counted : s.didShutdown = false → ∀ n req, s.request n = some req →
    n ∈ s.inTime ∨ s.reader.uncounted n = 1
  /-- A shutdown that came to its end has written its frame. -/
  shutdown : s.shutdown = .done true → s.peerGone = false →
    ∃ pre r, s.written = pre ++ [.shutdown r]

theorem written_prefix (h : Output s) : ∃ rest, s.frames = s.written ++ rest := by
  obtain ⟨lost, hlost⟩ := h.wrote
  refine ⟨lost ++ (s.writing.toList ++ s.out.queue), ?_⟩
  simp [Service.frames, ← hlost]

/-- Only the last frame is a shutdown frame. -/
theorem frames_last (h : Output s) {pre post : List Frame} {r : Reason}
    (heq : s.frames = pre ++ .shutdown r :: post) :
    s.out.closed = true ∧ post = [] ∧ ∀ f ∈ pre, f.isShutdown = false := by
  have hclosed : s.out.closed = true := by
    by_contra hopen
    have hf := h.accepts (by simpa using hopen) (.shutdown r) (by simp [heq])
    cases hf
  obtain ⟨pre', r', heq', hnone⟩ := h.last hclosed
  rw [heq] at heq'
  rcases List.eq_nil_or_concat post with rfl | ⟨post', f, rfl⟩
  · have hpre : pre = pre' := (List.append_inj' heq' rfl).1
    exact ⟨hclosed, rfl, hpre ▸ hnone⟩
  · -- then the frame itself would be among those before the last
    rw [List.concat_eq_append, ← List.cons_append, ← List.append_assoc] at heq'
    have hpre := (List.append_inj' heq' rfl).1
    have hf := hnone (.shutdown r) (by simp [← hpre])
    cases hf

theorem service_invariants (h : (service exitOnShutdown).Reachable s) :
    Output s ∧ Labelled s ∧ Tokens s := by
  refine h.invariant (P := fun s => Output s ∧ Labelled s ∧ Tokens s) ?_ ?_
  · rintro _ rfl
    exact ⟨Output.initial, Labelled.initial, Tokens.initial⟩
  · rintro t b t' ⟨hout, hl, ht⟩ hs
    exact ⟨hout.step hs, hl.step hs, ht.step hl hout hs⟩

end

-- ============================================================================
-- A request that comes after `app.quit`
-- ============================================================================

def requestLine (id method : String) : LineRead :=
  .line (some (.object [("id".toList, .string id.toList), ("method".toList, .string method.toList)]))

/-- The request `app.quit` is read and answered, and its worker has spawned the
    shutdown. -/
def quitRead : List Act :=
  [.startWorkers, .hello, .check, .line (requestLine "1" "app.quit"), .accept, .count, .send,
    .check, .take 0, .respond 0 (.ok .null), .leave 0]

/-- The shutdown runs to its end, and the writer writes all that there is. -/
def shutDown : List Act :=
  [.waited false, .closeJobs, .final, .pop, .write, .pop, .write, .pop, .write, .flushed false]

end GnDrive.Rpc.Stdio
