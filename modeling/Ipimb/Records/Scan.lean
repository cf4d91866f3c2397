import Ipimb.Queue.Published
import Mathlib.Data.List.FinRange
import Mathlib.Data.List.Perm.Basic

/-!
What happens once a scan has been requested for a packet: the four raw records are scanned, each with its
chain of records, and the last one to arrive at DONE_CNT makes it reset itself and advance the queue. The
records are processed by one thread, depth first, so what it still has to do is a stack. The reader thread
goes on meanwhile.
-/

namespace Ipimb.Scan
open Ipimb.DataQueue (IpimbFunc RecordPc)

/-- The records of the two templates, as far as the advance goes. -/
inductive Record where
  | raw (n : Fin 4)
  | ps (n : Fin 4)
  | ch (n : Fin 4)
  | done (n : Fin 4)
  | doneCnt
  | doneCntReset
  | doRead
  deriving DecidableEq

/-- FLNK -/
def flnk : Record → Option Record
  | .raw n => some (.ps n)
  | .ps n => some (.ch n)
  | .ch n => some (.done n)
  | .done _ => none
  | .doneCnt => none
  | .doneCntReset => some .doRead
  | .doRead => none

inductive Task where
  | process (record : Record)
  /-- The rest of `read_ai`. -/
  | readAi (funcflag : IpimbFunc) (n : Fin 4)
  /-- A value is written to an input of DONE_CNT. -/
  | put (input : Fin 4) (value : Int)
  deriving DecidableEq

/-- A call, and the `drd` it was made at. -/
inductive Event where
  | readAi (funcflag : IpimbFunc) (n : Fin 4) (drd : Nat)
  | nextData (drd : Nat)
  deriving DecidableEq

/-- The queue, the scans that have been requested, DONE_CNT with its inputs, and the scan thread. For the
record only: the orders of the scans begun, and the calls made. -/
structure State (T : Type) where
  queue : DataQueue.State T
  requests : Nat
  inputs : Fin 4 → Int
  val : Int
  pval : Int
  tasks : List Task
  orders : List (List (Fin 4))
  log : List Event

/-- PINI processes DONE_CNT. -/
def State.init {T : Type} (polarity : Int) (ts : Nat → T) : State T where
  queue := DataQueue.State.init polarity ts
  requests := 0
  inputs := fun _ => 0
  val := 0
  pval := 0
  tasks := [.process .doneCnt]
  orders := []
  log := []

section Code
variable {T : Type}

/-- `read_ai` up to the pointer into the queue. -/
def getData (s : State T) (funcflag : IpimbFunc) (n : Fin 4) : Option (State T) :=
  (DataQueue.getData s.queue).map fun queue =>
    { s with queue := queue, log := s.log ++ [.readAi funcflag n s.queue.drd] }

/-- The rest; there is nothing to read through a NULL. -/
def readAi (s : State T) (funcflag : IpimbFunc) (n : Fin 4) : Option (State T) :=
  match s.queue.record with
  | .idle => some s
  | .holding .. => (DataQueue.readAi s.queue funcflag n.val).map fun queue => { s with queue := queue }

/-- `ipimbDoReadProc` -/
def doRead (s : State T) : Option (State T) :=
  (DataQueue.nextData s.queue).map fun queue =>
    { s with queue := queue, log := s.log ++ [.nextData s.queue.drd] }

/-- DONE_CNT: the output is driven on a transition to non-zero. It is not active meanwhile, and what it does
afterwards does not matter here. -/
def doneCnt (s : State T) : State T × List Task :=
  let val := if ((List.finRange 4).map s.inputs).sum = 4 then 1 else 0
  ({ s with val := val, pval := val }, if s.pval = 0 ∧ val ≠ 0 then [.process .doneCntReset] else [])

/-- A record is processed, up to its forward link. DONE_CNT_RESET writes the 0 it has been given. -/
def body (s : State T) : Record → Option (State T × List Task)
  | .raw n => (getData s .aiData n).map fun s => (s, [.readAi .aiData n])
  | .ps n => (getData s .aiPs n).map fun s => (s, [.readAi .aiPs n])
  | .ch _ => some (s, [])
  | .done n => some (s, [.put n 1, .process .doneCnt])
  | .doneCnt => some (doneCnt s)
  | .doneCntReset => some (s, (List.finRange 4).map (fun c => .put c 0) ++ [.process .doneCnt])
  | .doRead => (doRead s).map fun s => (s, [])

def record (s : State T) : Option (State T) :=
  match s.tasks with
  | [] => none
  | .process r :: rest =>
    (body s r).map fun done =>
      { done.1 with tasks := done.2 ++ ((flnk r).toList.map .process ++ rest) }
  | .readAi funcflag n :: rest => (readAi s funcflag n).map fun s => { s with tasks := rest }
  | .put c value :: rest => some { s with inputs := Function.update s.inputs c value, tasks := rest }

def scan (s : State T) (order : List (Fin 4)) : Option (State T) :=
  if s.tasks = [] ∧ 0 < s.requests ∧ order.Perm (List.finRange 4) then
    some { s with
      requests := s.requests - 1
      tasks := order.map fun n => .process (.raw n)
      orders := s.orders ++ [order] }
  else none

/-- A step of the reader thread; the last of `sendData` requests a scan. -/
def reader (s : State T) (a : DataQueue.Action T) : Option (State T) :=
  match a with
  | .getData | .readAi .. | .nextData => none
  | .scanIoRequest =>
    (DataQueue.scanIoRequest s.queue).map fun queue => { s with queue := queue, requests := s.requests + 1 }
  | a => (DataQueue.step s.queue a).map fun queue => { s with queue := queue }

inductive Action (T : Type) where
  | reader (a : DataQueue.Action T)
  | scan (order : List (Fin 4))
  | record

def step (s : State T) : Action T → Option (State T)
  | .reader a => reader s a
  | .scan order => scan s order
  | .record => record s

end Code

/-! What a scan is for: in any order, the sample and the presample of each channel are read at one place of
the queue, and then the queue is advanced. -/

def channelLog (drd : Nat) (n : Fin 4) : List Event := [.readAi .aiData n drd, .readAi .aiPs n drd]

def scanLog (order : List (Fin 4)) (drd : Nat) : List Event :=
  order.flatMap (channelLog drd) ++ [.nextData drd]

/-- Scan after scan, each at the next place. -/
def scansLog (orders : List (List (Fin 4))) : List Event :=
  orders.zipIdx.flatMap fun scan => scanLog scan.1 scan.2

theorem scansLog_concat (orders : List (List (Fin 4))) (order : List (Fin 4)) :
    scansLog (orders ++ [order]) = scansLog orders ++ scanLog order orders.length := by
  simp [scansLog, List.zipIdx_append]

/-! Where a scan is. -/

inductive Stage where
  | raw
  | rawRead
  | ps
  | psRead
  | ch
  | done
  | put
  | count
  deriving DecidableEq

/-- Before the first scan, between scans, at channel n of a scan with some channels before it and some to
follow, and in the reset, where so many inputs have been cleared. -/
inductive Phase where
  | pini
  | idle
  | channel (before : List (Fin 4)) (stage : Stage) (n : Fin 4) (rest : List (Fin 4))
  | reset (order : List (Fin 4))
  | clear (order : List (Fin 4)) (cleared : Nat)
  | advance (order : List (Fin 4))

def Stage.tasks (n : Fin 4) : Stage → List Task
  | .raw => [.process (.raw n)]
  | .rawRead => [.readAi .aiData n, .process (.ps n)]
  | .ps => [.process (.ps n)]
  | .psRead => [.readAi .aiPs n, .process (.ch n)]
  | .ch => [.process (.ch n)]
  | .done => [.process (.done n)]
  | .put => [.put n 1, .process .doneCnt]
  | .count => [.process .doneCnt]

def Stage.log (drd : Nat) (n : Fin 4) : Stage → List Event
  | .raw => []
  | .rawRead | .ps => [.readAi .aiData n drd]
  | _ => channelLog drd n

def Phase.tasks : Phase → List Task
  | .pini => [.process .doneCnt]
  | .idle => []
  | .channel _ stage n rest => stage.tasks n ++ rest.map fun m => .process (.raw m)
  | .reset _ => [.process .doneCntReset]
  | .clear _ cleared =>
    ((List.finRange 4).drop cleared).map (fun c => .put c 0) ++ [.process .doneCnt, .process .doRead]
  | .advance _ => [.process .doRead]

def Phase.inputs : Phase → Fin 4 → Int
  | .channel before stage n _, c => if c ∈ before ∨ stage = .count ∧ c = n then 1 else 0
  | .reset _, _ => 1
  | .clear _ cleared, c => if c.val < cleared then 0 else 1
  | _, _ => 0

def Phase.val : Phase → Int
  | .reset _ | .clear .. => 1
  | _ => 0

def Phase.order : Phase → Option (List (Fin 4))
  | .pini | .idle => none
  | .channel before _ n rest => some (before ++ n :: rest)
  | .reset order | .clear order _ | .advance order => some order

def Phase.log (drd : Nat) : Phase → List Event
  | .pini | .idle => []
  | .channel before stage n _ => before.flatMap (channelLog drd) ++ stage.log drd n
  | .reset order | .clear order _ | .advance order => order.flatMap (channelLog drd)

def Phase.holding : Phase → Bool
  | .channel _ stage _ _ => stage = .rawRead ∨ stage = .psRead
  | _ => false

def Stage.next : Stage → Option Stage
  | .raw => some .rawRead
  | .rawRead => some .ps
  | .ps => some .psRead
  | .psRead => some .ch
  | .ch => some .done
  | .done => some .put
  | .put => some .count
  | .count => none

def Phase.next : Phase → Phase
  | .pini | .idle | .advance _ => .idle
  | .channel before stage n rest =>
    match stage.next, rest with
    | some later, _ => .channel before later n rest
    | none, m :: rest => .channel (before ++ [n]) .raw m rest
    | none, [] => .reset (before ++ [n])
  | .reset order => .clear order 0
  | .clear order cleared => if cleared < 4 then .clear order (cleared + 1) else .advance order

/-- A `read_ai` holds a pointer to the packet at `drd`, and has its timestamp. -/
def Holding {T : Type} (queue : DataQueue.State T) : Prop :=
  ∃ which time stamped, queue.record = .holding which time stamped ∧ queue.drd < stamped

/-- Every `read_ai` that is over had the timestamp of the packet it was made at. -/
def Timely {T : Type} (queue : DataQueue.State T) : Prop := ∀ p ∈ queue.published, p.drd < p.stamped

/-- The state of the scan thread in a phase, when so many scans are over. -/
structure At {T : Type} (past : List (List (Fin 4))) (phase : Phase) (s : State T) : Prop where
  tasks : s.tasks = phase.tasks
  inputs : s.inputs = phase.inputs
  val : s.val = phase.val ∧ s.pval = phase.val
  orders : s.orders = past ++ phase.order.toList
  full : ∀ order ∈ s.orders, order.Perm (List.finRange 4)
  drd : s.queue.drd = past.length
  dwr : s.queue.board.dwr = s.orders.length + s.requests + s.queue.reader.unrequested
  log : s.log = scansLog past ++ phase.log past.length
  holding : if phase.holding then Holding s.queue else s.queue.record = .idle
  timely : Timely s.queue

/-! DONE_CNT counts. -/

theorem sum_inputs (done : List (Fin 4)) (distinct : done.Nodup) (inputs : Fin 4 → Int)
    (set : ∀ c, inputs c = if c ∈ done then 1 else 0) :
    ((List.finRange 4).map inputs).sum = done.length := by
  have counted (cs : List (Fin 4)) :
      (cs.map inputs).sum = (cs.filter fun c => decide (c ∈ done)).length := by
    induction cs with
    | nil => rfl
    | cons c cs ih =>
      rw [List.map_cons, List.sum_cons, ih, set c, List.filter_cons]
      by_cases member : c ∈ done
      · simp [member]
        omega
      · simp [member]
  have same : ((List.finRange 4).filter fun c => decide (c ∈ done)).Perm done := by
    rw [List.perm_ext_iff_of_nodup ((List.nodup_finRange 4).filter _) distinct]
    simp
  rw [counted, same.length_eq]

theorem doneCnt_early {T : Type} (s : State T) (few : ((List.finRange 4).map s.inputs).sum ≠ 4) :
    doneCnt s = ({ s with val := 0, pval := 0 }, []) := by
  simp [doneCnt, few]

theorem doneCnt_last {T : Type} (s : State T) (all : ((List.finRange 4).map s.inputs).sum = 4)
    (before : s.pval = 0) :
    doneCnt s = ({ s with val := 1, pval := 1 }, [.process .doneCntReset]) := by
  simp [doneCnt, all, before]

/-! A step of the scan thread takes it to the next phase. -/

section Steps
variable {T : Type} {past : List (List (Fin 4))} {s s' : State T}

/-- Nothing but the stack, the log and the pointer of a `read_ai` changes. -/
structure SameCounts (s s' : State T) : Prop where
  inputs : s'.inputs = s.inputs
  val : s'.val = s.val
  pval : s'.pval = s.pval
  orders : s'.orders = s.orders
  requests : s'.requests = s.requests
  drd : s'.queue.drd = s.queue.drd
  dwr : s'.queue.board.dwr = s.queue.board.dwr
  reader : s'.queue.reader = s.queue.reader

theorem record_process (r : Record) (rest : List Task) (first : s.tasks = .process r :: rest)
    (more : List Task) (done : body s r = some (s', more)) :
    record s = some { s' with tasks := more ++ ((flnk r).toList.map .process ++ rest) } := by
  rw [record, first]
  simp only [done, Option.map_some]

theorem record_write (c : Fin 4) (value : Int) (rest : List Task) (first : s.tasks = .put c value :: rest) :
    record s = some { s with inputs := Function.update s.inputs c value, tasks := rest } := by
  rw [record, first]

/-- While a scan is on, there is a packet to be read, with its timestamp: the scan was requested after
`sendData` had stored it. -/
theorem At.ready {phase : Phase} (place : At past phase s) {order : List (Fin 4)}
    (scanning : phase.order = some order) : s.queue.drd < s.queue.stamped := by
  have total := place.dwr
  have unstamped := s.queue.reader.unstamped_le
  rw [place.orders, scanning, Option.toList_some, List.length_append, List.length_singleton] at total
  rw [place.drd, DataQueue.State.stamped, total]
  omega

theorem At.some_packet {phase : Phase} (place : At past phase s) {order : List (Fin 4)}
    (scanning : phase.order = some order) : s.queue.drd ≠ s.queue.board.dwr :=
  (Nat.lt_of_lt_of_le (place.ready scanning) (DataQueue.stamped_le s.queue)).ne

theorem At.distinct {phase : Phase} (place : At past phase s) {order : List (Fin 4)}
    (scanning : phase.order = some order) : order.Nodup ∧ order.length = 4 := by
  have full : order.Perm (List.finRange 4) := by
    apply place.full
    rw [place.orders, scanning]
    simp
  exact ⟨full.nodup_iff.mpr (List.nodup_finRange 4), full.length_eq⟩

section Channel
variable {before rest : List (Fin 4)} {n : Fin 4} {stage : Stage}

theorem inputs_channel (early : stage ≠ .count) (c : Fin 4) :
    (Phase.channel before stage n rest).inputs c = if c ∈ before then 1 else 0 := by
  simp [Phase.inputs, early]

theorem inputs_count (c : Fin 4) :
    (Phase.channel before .count n rest).inputs c = if c ∈ before ++ [n] then 1 else 0 := by
  simp [Phase.inputs]

theorem At.later {stage' : Stage} (place : At past (.channel before stage n rest) s) (early : stage ≠ .count)
    (early' : stage' ≠ .count) (same : SameCounts s s')
    (tasks : s'.tasks = stage'.tasks n ++ rest.map fun m => .process (.raw m))
    (log : s'.log = scansLog past ++ (before.flatMap (channelLog past.length) ++ stage'.log past.length n))
    (holding : if (Phase.channel before stage' n rest).holding then Holding s'.queue
      else s'.queue.record = .idle) (timely : Timely s'.queue) :
    At past (.channel before stage' n rest) s' where
  tasks := tasks
  inputs := by
    rw [same.inputs, place.inputs]
    funext c
    rw [inputs_channel early, inputs_channel early']
  val := by
    rw [same.val, same.pval]
    exact place.val
  orders := same.orders.trans place.orders
  full := by
    rw [same.orders]
    exact place.full
  drd := same.drd.trans place.drd
  dwr := by
    rw [same.dwr, same.orders, same.requests, same.reader]
    exact place.dwr
  log := log
  holding := holding
  timely := timely

theorem read_begin (funcflag : IpimbFunc) (place : At past (.channel before stage n rest) s)
    (free : s.queue.record = .idle) :
    ∃ s', getData s funcflag n = some s' ∧ SameCounts s s' ∧
      s'.log = s.log ++ [.readAi funcflag n past.length] ∧ Holding s'.queue ∧ Timely s'.queue := by
  refine ⟨_, by rw [getData, DataQueue.getData, free]; simp only [if_neg (place.some_packet rfl)]; rfl, ?_⟩
  refine ⟨⟨rfl, rfl, rfl, rfl, rfl, rfl, rfl, rfl⟩, ?_, ⟨_, _, _, rfl, place.ready rfl⟩, place.timely⟩
  rw [place.drd]

theorem read_end (funcflag : IpimbFunc) (held : Holding s.queue) (timely : Timely s.queue) :
    ∃ s', readAi s funcflag n = some s' ∧ SameCounts s s' ∧ s'.log = s.log ∧ s'.queue.record = .idle ∧
      Timely s'.queue := by
  obtain ⟨which, time, stamped, held, there⟩ := held
  refine ⟨_, by rw [readAi, held]; simp only [DataQueue.readAi, held]; rfl, ?_⟩
  refine ⟨⟨rfl, rfl, rfl, rfl, rfl, rfl, rfl, rfl⟩, rfl, rfl, ?_⟩
  rw [Timely, List.forall_mem_append, List.forall_mem_singleton]
  exact ⟨timely, there⟩

theorem SameCounts.stack (same : SameCounts s s') (tasks : List Task) :
    SameCounts s { s' with tasks := tasks } :=
  ⟨same.inputs, same.val, same.pval, same.orders, same.requests, same.drd, same.dwr, same.reader⟩

theorem record_begin (r : Record) (funcflag : IpimbFunc) {stage' : Stage}
    (place : At past (.channel before stage n rest) s) (free : s.queue.record = .idle)
    (early : stage ≠ .count) (early' : stage' ≠ .count) (first : stage.tasks n = [.process r])
    (reads : ∀ s : State T, body s r = (getData s funcflag n).map fun s => (s, [.readAi funcflag n]))
    (next : stage'.tasks n = .readAi funcflag n :: (flnk r).toList.map .process)
    (log : stage'.log past.length n = stage.log past.length n ++ [.readAi funcflag n past.length])
    (holds : (Phase.channel before stage' n rest).holding = true) :
    ∃ s', record s = some s' ∧ At past (.channel before stage' n rest) s' := by
  obtain ⟨s', got, same, logged, held, timely⟩ := read_begin funcflag place free
  have tasks : s.tasks = .process r :: rest.map fun m => .process (.raw m) := by
    rw [place.tasks, Phase.tasks, first]
    rfl
  refine ⟨_, record_process r _ tasks [.readAi funcflag n] (by rw [reads, got]; rfl), ?_⟩
  refine place.later early early' (same.stack _) ?_ ?_ ?_ timely
  · rw [next]
    rfl
  · show s'.log = _
    rw [logged, place.log, log, Phase.log]
    simp only [List.append_assoc]
  · rw [if_pos holds]
    exact held

theorem record_end (funcflag : IpimbFunc) (r : Record) {stage' : Stage}
    (place : At past (.channel before stage n rest) s)
    (held : Holding s.queue) (early : stage ≠ .count) (early' : stage' ≠ .count)
    (first : stage.tasks n = [.readAi funcflag n, .process r]) (next : stage'.tasks n = [.process r])
    (log : stage'.log past.length n = stage.log past.length n)
    (free : (Phase.channel before stage' n rest).holding = false) :
    ∃ s', record s = some s' ∧ At past (.channel before stage' n rest) s' := by
  obtain ⟨s', got, same, logged, idle, timely⟩ := read_end (n := n) funcflag held place.timely
  have tasks : s.tasks = .readAi funcflag n :: .process r :: rest.map fun m => .process (.raw m) := by
    rw [place.tasks, Phase.tasks, first]
    rfl
  refine ⟨_, by rw [record, tasks]; simp only [got, Option.map_some]; rfl, ?_⟩
  refine place.later early early' (same.stack _) ?_ ?_ ?_ timely
  · rw [next]
    rfl
  · show s'.log = _
    rw [logged, place.log, log, Phase.log]
  · rw [free]
    exact idle

theorem record_pass (r : Record) (more : List Task) {stage' : Stage}
    (place : At past (.channel before stage n rest) s) (free : s.queue.record = .idle)
    (early : stage ≠ .count) (early' : stage' ≠ .count) (first : stage.tasks n = [.process r])
    (does : ∀ s : State T, body s r = some (s, more))
    (next : stage'.tasks n = more ++ (flnk r).toList.map .process)
    (log : stage'.log past.length n = stage.log past.length n)
    (holds : (Phase.channel before stage' n rest).holding = false) :
    ∃ s', record s = some s' ∧ At past (.channel before stage' n rest) s' := by
  have tasks : s.tasks = .process r :: rest.map fun m => .process (.raw m) := by
    rw [place.tasks, Phase.tasks, first]
    rfl
  refine ⟨_, record_process r _ tasks more (does s), ?_⟩
  refine place.later early early' ⟨rfl, rfl, rfl, rfl, rfl, rfl, rfl, rfl⟩ ?_ ?_ ?_ place.timely
  · rw [next, List.append_assoc]
  · show s.log = _
    rw [place.log, log, Phase.log]
  · rw [holds]
    exact free

theorem record_put (place : At past (.channel before .put n rest) s) :
    ∃ s', record s = some s' ∧ At past (.channel before .count n rest) s' := by
  refine ⟨_, record_write n 1 _ place.tasks, { place with tasks := rfl, inputs := ?_ }⟩
  funext c
  show Function.update s.inputs n 1 c = _
  rw [inputs_count, place.inputs]
  by_cases same : c = n
  · rw [same, Function.update_self, if_pos (by simp)]
  · rw [Function.update_of_ne same, inputs_channel (by decide)]
    simp [same]

theorem record_count (m : Fin 4) (place : At past (.channel before .count n (m :: rest)) s) :
    ∃ s', record s = some s' ∧ At past (.channel (before ++ [n]) .raw m rest) s' := by
  obtain ⟨distinct, four⟩ := place.distinct rfl
  have split : before ++ n :: m :: rest = (before ++ [n]) ++ m :: rest := by simp
  rw [split] at distinct four
  have counted := sum_inputs (before ++ [n]) distinct.of_append_left s.inputs
    (fun c => by rw [place.inputs, inputs_count])
  have few : ((List.finRange 4).map s.inputs).sum ≠ 4 := by
    rw [counted]
    simp only [List.length_append, List.length_cons, List.length_nil] at four ⊢
    omega
  refine ⟨_, record_process .doneCnt _ place.tasks [] (congrArg some (doneCnt_early s few)), ?_⟩
  refine { place with tasks := rfl, inputs := ?_, val := ⟨rfl, rfl⟩, orders := ?_, log := ?_ }
  · show s.inputs = _
    rw [place.inputs]
    funext c
    rw [inputs_count, inputs_channel (by decide)]
  · show s.orders = _
    rw [place.orders, Phase.order, Phase.order, split]
  · show s.log = _
    rw [place.log]
    simp [Phase.log, Stage.log]

theorem record_last (place : At past (.channel before .count n []) s) :
    ∃ s', record s = some s' ∧ At past (.reset (before ++ [n])) s' := by
  obtain ⟨distinct, four⟩ := place.distinct rfl
  have counted := sum_inputs (before ++ [n]) distinct s.inputs
    (fun c => by rw [place.inputs, inputs_count])
  have all : ((List.finRange 4).map s.inputs).sum = 4 := by
    rw [counted, four]
    rfl
  have everywhere (c : Fin 4) : c ∈ before ++ [n] := by
    have full := place.full (before ++ [n]) (by rw [place.orders]; simp [Phase.order])
    exact full.mem_iff.mpr (List.mem_finRange c)
  refine ⟨_, record_process .doneCnt _ place.tasks [.process .doneCntReset]
    (congrArg some (doneCnt_last s all place.val.2)), ?_⟩
  refine { place with tasks := rfl, inputs := ?_, val := ⟨rfl, rfl⟩, log := ?_ }
  · show s.inputs = _
    rw [place.inputs]
    funext c
    rw [inputs_count, if_pos (everywhere c)]
    rfl
  · show s.log = _
    rw [place.log]
    simp [Phase.log, Stage.log]

theorem record_channel (place : At past (.channel before stage n rest) s) :
    ∃ s', record s = some s' ∧ At past (Phase.channel before stage n rest).next s' := by
  have holding := place.holding
  cases stage with
  | raw =>
    exact record_begin (.raw n) .aiData place holding (by decide) (by decide) rfl (fun _ => rfl) rfl rfl rfl
  | rawRead => exact record_end .aiData (.ps n) place holding (by decide) (by decide) rfl rfl rfl rfl
  | ps => exact record_begin (.ps n) .aiPs place holding (by decide) (by decide) rfl (fun _ => rfl) rfl rfl rfl
  | psRead => exact record_end .aiPs (.ch n) place holding (by decide) (by decide) rfl rfl rfl rfl
  | ch => exact record_pass (.ch n) [] place holding (by decide) (by decide) rfl (fun _ => rfl) rfl rfl rfl
  | done =>
    exact record_pass (.done n) [.put n 1, .process .doneCnt] place holding (by decide) (by decide) rfl
      (fun _ => rfl) rfl rfl rfl
  | put => exact record_put place
  | count =>
    cases rest with
    | nil => exact record_last place
    | cons m rest => exact record_count m place

end Channel

variable {order : List (Fin 4)}

theorem record_reset (place : At past (.reset order) s) :
    ∃ s', record s = some s' ∧ At past (.clear order 0) s' := by
  refine ⟨_, record_process .doneCntReset _ place.tasks _ rfl, ?_⟩
  refine { place with tasks := rfl, inputs := ?_ }
  show s.inputs = _
  rw [place.inputs]
  rfl

theorem record_clear (cleared : Nat) (more : cleared < 4) (place : At past (.clear order cleared) s) :
    ∃ s', record s = some s' ∧ At past (.clear order (cleared + 1)) s' := by
  have tasks : s.tasks = .put ⟨cleared, more⟩ 0 :: (Phase.clear order (cleared + 1)).tasks := by
    rw [place.tasks, Phase.tasks, Phase.tasks, List.drop_eq_getElem_cons (by simpa using more)]
    simp
  refine ⟨_, record_write ⟨cleared, more⟩ 0 _ tasks, { place with tasks := rfl, inputs := ?_ }⟩
  funext c
  show Function.update s.inputs ⟨cleared, more⟩ 0 c = if c.val < cleared + 1 then 0 else 1
  by_cases same : c = ⟨cleared, more⟩
  · rw [same, Function.update_self, if_pos (Nat.lt_succ_self cleared)]
  · have other : c.val ≠ cleared := fun equal => same (Fin.ext equal)
    rw [Function.update_of_ne same, place.inputs]
    show (if c.val < cleared then 0 else 1) = _
    simp only [show c.val < cleared + 1 ↔ c.val < cleared by omega]

theorem record_recount (cleared : Nat) (all : ¬cleared < 4) (place : At past (.clear order cleared) s) :
    ∃ s', record s = some s' ∧ At past (.advance order) s' := by
  have zero : s.inputs = fun _ => 0 := by
    rw [place.inputs]
    funext c
    show (if c.val < cleared then 0 else 1) = _
    rw [if_pos (by omega)]
  have few : ((List.finRange 4).map s.inputs).sum ≠ 4 := by
    rw [zero]
    decide
  have tasks : s.tasks = [.process .doneCnt, .process .doRead] := by
    rw [place.tasks, Phase.tasks, List.drop_eq_nil_of_le (by simpa using all)]
    rfl
  refine ⟨_, record_process .doneCnt _ tasks [] (congrArg some (doneCnt_early s few)), ?_⟩
  exact { place with tasks := rfl, inputs := zero, val := ⟨rfl, rfl⟩ }

theorem record_advance (place : At past (.advance order) s) :
    ∃ s', record s = some s' ∧ At (past ++ [order]) .idle s' := by
  have idle : s.queue.record = .idle := place.holding
  have next : DataQueue.nextData s.queue = some { s.queue with drd := s.queue.drd + 1 } := by
    unfold DataQueue.nextData
    split
    next => rw [if_pos (place.some_packet rfl)]
    next other => exact absurd idle (by simpa using other)
  have done : body s .doRead = some ({ s with
      queue := { s.queue with drd := s.queue.drd + 1 }
      log := s.log ++ [.nextData s.queue.drd] }, []) := by
    rw [body, doRead, next]
    rfl
  refine ⟨_, record_process .doRead _ place.tasks [] done, ?_⟩
  refine { place with tasks := rfl, orders := ?_, drd := ?_, log := ?_ }
  · show s.orders = _
    rw [place.orders]
    simp [Phase.order]
  · show s.queue.drd + 1 = _
    rw [place.drd, List.length_append, List.length_singleton]
  · show s.log ++ [.nextData s.queue.drd] = _
    rw [scansLog_concat, place.log, place.drd]
    simp [Phase.log, scanLog]

/-- DONE_CNT is processed at the start of the program. -/
theorem record_pini (place : At past .pini s) : ∃ s', record s = some s' ∧ At past .idle s' := by
  have few : ((List.finRange 4).map s.inputs).sum ≠ 4 := by
    rw [place.inputs]
    decide
  refine ⟨_, record_process .doneCnt _ place.tasks [] (congrArg some (doneCnt_early s few)), ?_⟩
  exact { place with tasks := rfl, val := ⟨rfl, rfl⟩ }

def Phase.ended : Phase → List (List (Fin 4))
  | .advance order => [order]
  | _ => []

/-- Unless it has nothing to do, the scan thread can go on, to the next phase. -/
theorem record_next (phase : Phase) (place : At past phase s) (busy : phase.tasks ≠ []) :
    ∃ s', record s = some s' ∧ At (past ++ phase.ended) phase.next s' := by
  cases phase with
  | idle => exact absurd rfl busy
  | advance order => exact record_advance place
  | pini =>
    simp only [Phase.ended, List.append_nil]
    exact record_pini place
  | channel before stage n rest =>
    simp only [Phase.ended, List.append_nil]
    exact record_channel place
  | reset order =>
    simp only [Phase.ended, List.append_nil]
    exact record_reset place
  | clear order cleared =>
    simp only [Phase.ended, List.append_nil, Phase.next]
    split
    next more => exact record_clear cleared more place
    next all => exact record_recount cleared all place

end Steps

/-! The reader thread and the requests. -/

section Others
variable {T : Type}

variable {past : List (List (Fin 4))} {phase : Phase} {s s' : State T}

/-- The reader thread leaves the place of the records in the queue alone, and what they have read. -/
theorem At.kept (place : At past phase s) {q : DataQueue.State T} (drd : q.drd = s.queue.drd)
    (record : q.record = s.queue.record) (published : q.published = s.queue.published)
    (dwr : q.board.dwr + s.queue.reader.unrequested = s.queue.board.dwr + q.reader.unrequested) :
    At past phase { s with queue := q } := by
  have total := place.dwr
  refine { place with drd := drd.trans place.drd, dwr := ?_, holding := ?_, timely := ?_ }
  · show q.board.dwr = s.orders.length + s.requests + q.reader.unrequested
    omega
  · show if phase.holding then Holding q else q.record = .idle
    rw [Holding, record, drd]
    exact place.holding
  · rw [Timely, published]
    exact place.timely

/-- A scan is requested for the packet that has been queued. -/
theorem request_at (place : At past phase s) (done : reader s .scanIoRequest = some s') : At past phase s' := by
  obtain ⟨q, requested, rfl⟩ := Option.map_eq_some_iff.mp done
  cases DataQueue.effect_of_step s.queue .scanIoRequest q requested with
  | scanIoRequest at_end =>
    refine { place with dwr := ?_ }
    show s.queue.board.dwr = s.orders.length + (s.requests + 1) + 0
    rw [place.dwr, at_end]
    rfl

theorem reader_at (place : At past phase s) (a : DataQueue.Action T) (done : reader s a = some s') :
    At past phase s' := by
  by_cases requests : a = .scanIoRequest
  · rw [requests] at done
    exact request_at place done
  have steps : ∃ q, DataQueue.step s.queue a = some q ∧ { s with queue := q } = s' := by
    cases a with
    | scanIoRequest => exact absurd rfl requests
    | getData => cases done
    | readAi => cases done
    | nextData => cases done
    | _ => exact Option.map_eq_some_iff.mp done
  obtain ⟨q, taken, rfl⟩ := steps
  cases DataQueue.effect_of_step s.queue a q taken with
  | scanIoRequest => exact absurd rfl requests
  | getData => cases done
  | noData => cases done
  | readAi => cases done
  | nextData => cases done
  | noNext => cases done
  | packet rdbuf pc => exact place.kept rfl rfl rfl (by rw [pc]; rfl)
  | storeWord rdbuf i pc => exact place.kept rfl rfl rfl (by rw [pc]; rfl)
  | badChunk rdbuf i pc => exact place.kept rfl rfl rfl (by rw [pc]; rfl)
  | checkCrc rdbuf pc => exact place.kept rfl rfl rfl (by rw [pc]; rfl)
  | badCrc rdbuf pc => exact place.kept rfl rfl rfl (by rw [pc]; rfl)
  | adjust rdbuf c pc => exact place.kept rfl rfl rfl (by rw [pc]; rfl)
  | returned rdbuf c pc => exact place.kept rfl rfl rfl (by rw [pc]; rfl)
  | acquireAgain rdbuf pc => exact place.kept rfl rfl rfl (by rw [pc]; rfl)
  | queue rdbuf t pc => exact place.kept rfl rfl rfl (by rw [pc]; rfl)
  | stamp which t pc => exact place.kept rfl rfl rfl (by rw [pc]; rfl)

theorem tasks_ne_nil (busy : phase ≠ .idle) : phase.tasks ≠ [] := by
  cases phase with
  | idle => exact absurd rfl busy
  | channel before stage n rest => cases stage <;> nofun
  | clear order cleared => simp [Phase.tasks]
  | _ => nofun

theorem scan_at (place : At past phase s) (order : List (Fin 4)) (done : scan s order = some s') :
    ∃ n rest, At past (.channel [] .raw n rest) s' := by
  unfold scan at done
  split at done
  next ready =>
    obtain ⟨none_left, requested, full⟩ := ready
    cases done
    have idle : phase = .idle := by
      by_contra busy
      exact tasks_ne_nil busy (place.tasks.symm.trans none_left)
    subst idle
    cases order with
    | nil => exact absurd full.length_eq (by decide)
    | cons n rest =>
      refine ⟨n, rest, rfl, ?_, place.val, ?_, ?_, place.drd, ?_, ?_, place.holding, place.timely⟩
      · show s.inputs = _
        rw [place.inputs]
        funext c
        rw [inputs_channel (by decide)]
        rfl
      · show s.orders ++ [n :: rest] = _
        rw [place.orders]
        simp [Phase.order]
      · rw [List.forall_mem_append, List.forall_mem_singleton]
        exact ⟨place.full, full⟩
      · show s.queue.board.dwr =
          (s.orders ++ [n :: rest]).length + (s.requests - 1) + s.queue.reader.unrequested
        rw [place.dwr, List.length_append, List.length_singleton]
        omega
      · exact place.log
  next => cases done

theorem init_at (polarity : Int) (ts : Nat → T) : At [] .pini (State.init polarity ts) where
  tasks := rfl
  inputs := rfl
  val := ⟨rfl, rfl⟩
  orders := rfl
  full := nofun
  drd := rfl
  dwr := rfl
  log := rfl
  holding := rfl
  timely := nofun

/-- The scan thread is always somewhere. -/
theorem step_at (s : State T) (a : Action T) (s' : State T) (place : ∃ past phase, At past phase s)
    (done : step s a = some s') : ∃ past phase, At past phase s' := by
  obtain ⟨past, phase, place⟩ := place
  cases a with
  | reader a => exact ⟨past, phase, reader_at place a done⟩
  | scan order =>
    obtain ⟨n, rest, begun⟩ := scan_at place order done
    exact ⟨past, _, begun⟩
  | record =>
    have busy : phase.tasks ≠ [] := by
      intro none_left
      rw [step, record, place.tasks, none_left] at done
      cases done
    obtain ⟨t, taken, next⟩ := record_next phase place busy
    have same : s' = t := Option.some.inj (done.symm.trans taken)
    rw [same]
    exact ⟨_, _, next⟩

/-! Scans end. -/

def Stage.left : Stage → Nat
  | .raw => 8
  | .rawRead => 7
  | .ps => 6
  | .psRead => 5
  | .ch => 4
  | .done => 3
  | .put => 2
  | .count => 1

/-- How many steps there are to the end of the scan. -/
def Phase.left : Phase → Nat
  | .idle => 0
  | .pini => 1
  | .channel _ stage _ rest => stage.left + 8 * rest.length + 7
  | .reset _ => 7
  | .clear _ cleared => (4 - cleared) + 2
  | .advance _ => 1

theorem next_left (busy : phase ≠ .idle) : phase.next.left < phase.left := by
  cases phase with
  | idle => exact absurd rfl busy
  | channel before stage n rest =>
    cases stage with
    | count =>
      cases rest with
      | nil => exact Nat.lt_succ_self 7
      | cons m rest =>
        simp only [Phase.next, Stage.next, Phase.left, Stage.left, List.length_cons]
        omega
    | _ => simp [Phase.next, Stage.next, Phase.left, Stage.left]
  | clear order cleared =>
    simp only [Phase.next]
    split <;> simp only [Phase.left] <;> omega
  | _ => simp [Phase.next, Phase.left]

/-- Left alone, the scan thread comes to the end of the scan. -/
theorem finish (place : At past phase s) :
    ∃ m t, Transition.run step s (List.replicate m .record) = some t ∧ t.tasks = [] := by
  generalize bound : phase.left = left
  induction left using Nat.strong_induction_on generalizing past phase s with
  | _ left ih =>
    by_cases idle : phase = .idle
    · subst idle
      exact ⟨0, s, rfl, place.tasks⟩
    · obtain ⟨s', taken, next⟩ := record_next phase place (tasks_ne_nil idle)
      have fewer := next_left idle
      obtain ⟨m, t, reached, none_left⟩ := ih phase.next.left (by omega) next rfl
      refine ⟨m + 1, t, ?_, none_left⟩
      rw [List.replicate_succ, Transition.run_cons, step, taken]
      exact reached

/-! The calls. -/

end Others

end Ipimb.Scan
