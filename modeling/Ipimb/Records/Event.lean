import Ipimb.Queue.Samples
import Ipimb.Records.Scan

/-!
What the records hold when a scan is over. The scan is the one that advances the queue; here its records have
values, and after the advance the records that are not for one channel follow. `read_ai` for the first channel
also copies the whole packet, word by word, for the beam line data.
-/

namespace Ipimb.Event
open Ipimb.Chunk Ipimb.BoardData Ipimb.Acquire
open Ipimb.DataQueue (IpimbFunc Published adjustedPacket)
open Ipimb.Scan (Task)

/-- The conversion of the ai records and the arithmetic of the calc records. -/
structure Arith (V : Type) where
  convert : Word → V
  add : V → V → V
  sub : V → V → V
  mul : V → V → V
  div : V → V → V

structure Calc (T V : Type) where
  val : V
  time : Option T

/-- Inputs of the calc records that others may write at any time. -/
inductive Knob where
  | base (n : Fin 4)
  | scale (n : Fin 4)
  | xscale
  | yscale
  deriving DecidableEq

inductive Tail where
  | currentFid
  | sum
  | xpos
  | ypos
  deriving DecidableEq

def tailRecords : List Tail := [.currentFid, .sum, .xpos, .ypos]

/-- The raw records show what `read_ai` has got, if it got anything. `copied` counts the words copied so far.
For the record only: the inputs the calc records have used. -/
structure State (T V : Type) where
  scan : Scan.State T
  knobs : Knob → V
  raw : Fin 4 → Option (Published T)
  ps : Fin 4 → Option (Published T)
  ch : Fin 4 → Calc T V
  ipmData : Slot
  copied : Nat
  tail : List Tail
  fidTime : Option T
  sum : Calc T V
  xpos : Calc T V
  ypos : Calc T V
  used : Knob → V

def State.init {T V : Type} (polarity : Int) (ts : Nat → T) (knobs : Knob → V) (ipmData : Slot)
    (old : Calc T V) : State T V where
  scan := Scan.State.init polarity ts
  knobs := knobs
  raw := fun _ => none
  ps := fun _ => none
  ch := fun _ => old
  ipmData := ipmData
  copied := 0
  tail := []
  fidTime := none
  sum := old
  xpos := old
  ypos := old
  used := knobs

section Code
variable {T V : Type} (arith : Arith V)

def chA : Fin 4 := ⟨0, by decide⟩
def chB : Fin 4 := ⟨1, by decide⟩
def chC : Fin 4 := ⟨2, by decide⟩
def chD : Fin 4 := ⟨3, by decide⟩

/-- What a `read_ai` has published between two states of the queue. -/
def shown (before after : DataQueue.State T) : Option (Published T) :=
  match before.record with
  | .idle => none
  | .holding .. => after.published.getLast?

/-- The value of a raw record; without data it is that of 0. -/
def rawVal (reading : Option (Published T)) : V := arith.convert (reading.elim 0#16 Published.rval)

/-- (B-A)*C, with the time of the raw record. -/
def chCalc (s : State T V) (n : Fin 4) : Calc T V where
  val := arith.mul (arith.sub (s.knobs (.base n)) (rawVal arith (s.raw n))) (s.knobs (.scale n))
  time := (s.raw n).map Published.time

/-- The time the records after DOREAD take over. -/
def firstTime (s : State T V) : Option T := (s.raw chA).map Published.time

/-- (A+B+C+D) -/
def sumCalc (s : State T V) : Calc T V where
  val := arith.add (arith.add (arith.add (s.ch chA).val (s.ch chB).val) (s.ch chC).val) (s.ch chD).val
  time := firstTime s

/-- E*(P-Q)/(P+Q) -/
def position (scale p q : V) : V := arith.div (arith.mul scale (arith.sub p q)) (arith.add p q)

def xposCalc (s : State T V) (scale : V) : Calc T V where
  val := position arith scale (s.ch chB).val (s.ch chD).val
  time := firstTime s

def yposCalc (s : State T V) (scale : V) : Calc T V where
  val := position arith scale (s.ch chA).val (s.ch chC).val
  time := firstTime s

def finish (s : State T V) : Tail → State T V
  | .currentFid => { s with fidTime := firstTime s }
  | .sum => { s with sum := sumCalc arith s }
  | .xpos =>
    { s with
      xpos := xposCalc arith s (s.knobs .xscale)
      used := Function.update s.used .xscale (s.knobs .xscale) }
  | .ypos =>
    { s with
      ypos := yposCalc arith s (s.knobs .yscale)
      used := Function.update s.used .yscale (s.knobs .yscale) }

def source (s : State T V) : Option Nat :=
  match s.scan.tasks, s.scan.queue.record with
  | .readAi .aiData n :: _, .holding which .. => if n.val = 0 ∧ s.copied < 16 then some which else none
  | _, _ => none

/-- The next word of the `memcpy`. -/
def copyWord (s : State T V) (which : Nat) : State T V :=
  { s with
    ipmData := Function.update s.ipmData s.copied (s.scan.queue.board.data which s.copied)
    copied := s.copied + 1 }

def taken (s : State T V) (n : Fin 4) : Knob → V :=
  Function.update (Function.update s.used (.base n) (s.knobs (.base n))) (.scale n) (s.knobs (.scale n))

/-- What the step of the scan has done to the values. -/
def after (s : State T V) (scan : Scan.State T) : State T V :=
  match s.scan.tasks with
  | .readAi .aiData n :: _ =>
    { s with scan := scan, raw := Function.update s.raw n (shown s.scan.queue scan.queue), copied := 0 }
  | .readAi .aiPs n :: _ =>
    { s with scan := scan, ps := Function.update s.ps n (shown s.scan.queue scan.queue) }
  | .process (.ch n) :: _ =>
    { s with scan := scan, ch := Function.update s.ch n (chCalc arith s n), used := taken s n }
  | .process .doRead :: _ => { s with scan := scan, tail := tailRecords }
  | _ => { s with scan := scan }

def record (s : State T V) : Option (State T V) :=
  match s.tail with
  | r :: rest => some { finish arith s r with tail := rest }
  | [] =>
    match source s with
    | some which => some (copyWord s which)
    | none => (Scan.record s.scan).map (after arith s)

inductive Action (T V : Type) where
  | reader (a : DataQueue.Action T)
  | scan (order : List (Fin 4))
  | record
  | set (knob : Knob) (value : V)

def step (s : State T V) : Action T V → Option (State T V)
  | .reader a => (Scan.reader s.scan a).map fun scan => { s with scan := scan }
  | .scan order =>
    if s.tail = [] then (Scan.scan s.scan order).map fun scan => { s with scan := scan } else none
  | .record => record arith s
  | .set knob value => some { s with knobs := Function.update s.knobs knob value }

end Code

/-! What the reader thread can do to the queue, and the scan thread. -/

section Queue
variable {T : Type}

/-- Packets are added, the front moves on, and what has been published stays so. -/
structure Grows (q q' : DataQueue.State T) : Prop where
  packets : q.packets <+: q'.packets
  front : q.front ≤ q'.front
  published : ∀ p ∈ q.published, p ∈ q'.published

theorem Grows.refl (q : DataQueue.State T) : Grows q q := ⟨List.prefix_rfl, le_rfl, fun _ member => member⟩

theorem grows_step (q : DataQueue.State T) (a : DataQueue.Action T) (q' : DataQueue.State T)
    (done : DataQueue.step q a = some q') : Grows q q' := by
  cases DataQueue.effect_of_step q a q' done with
  | storeWord => exact ⟨List.prefix_rfl, le_max_left _ _, fun _ member => member⟩
  | adjust => exact ⟨List.prefix_rfl, le_max_left _ _, fun _ member => member⟩
  | queue => exact ⟨List.prefix_append _ _, le_max_left _ _, fun _ member => member⟩
  | readAi => exact ⟨List.prefix_rfl, le_rfl, fun _ member => List.mem_append_left _ member⟩
  | _ => exact ⟨List.prefix_rfl, le_rfl, fun _ member => member⟩

/-- Every step of the scan is a step of the queue, or leaves it alone. -/
theorem queue_of_step (s : Scan.State T) (a : Scan.Action T) (s' : Scan.State T)
    (done : Scan.step s a = some s') :
    s'.queue = s.queue ∨ ∃ b, DataQueue.step s.queue b = some s'.queue := by
  cases a with
  | reader a =>
    cases a with
    | getData => cases done
    | readAi => cases done
    | nextData => cases done
    | scanIoRequest =>
      obtain ⟨q, taken, rfl⟩ := Option.map_eq_some_iff.mp done
      exact Or.inr ⟨.scanIoRequest, taken⟩
    | _ =>
      obtain ⟨q, taken, rfl⟩ := Option.map_eq_some_iff.mp done
      exact Or.inr ⟨_, taken⟩
  | scan order =>
    simp only [Scan.step, Scan.scan] at done
    split_ifs at done
    cases done
    exact Or.inl rfl
  | record =>
    simp only [Scan.step, Scan.record] at done
    split at done
    next => cases done
    next r rest tasks =>
      obtain ⟨⟨t, more⟩, processed, rfl⟩ := Option.map_eq_some_iff.mp done
      cases r with
      | raw n =>
        obtain ⟨u, got, pair⟩ := Option.map_eq_some_iff.mp processed
        cases pair
        obtain ⟨q, taken, rfl⟩ := Option.map_eq_some_iff.mp got
        exact Or.inr ⟨.getData, taken⟩
      | ps n =>
        obtain ⟨u, got, pair⟩ := Option.map_eq_some_iff.mp processed
        cases pair
        obtain ⟨q, taken, rfl⟩ := Option.map_eq_some_iff.mp got
        exact Or.inr ⟨.getData, taken⟩
      | doRead =>
        obtain ⟨u, got, pair⟩ := Option.map_eq_some_iff.mp processed
        cases pair
        obtain ⟨q, taken, rfl⟩ := Option.map_eq_some_iff.mp got
        exact Or.inr ⟨.nextData, taken⟩
      | _ =>
        cases processed
        exact Or.inl rfl
    next funcflag n rest tasks =>
      obtain ⟨t, read, rfl⟩ := Option.map_eq_some_iff.mp done
      simp only [Scan.readAi] at read
      split at read
      · cases read
        exact Or.inl rfl
      · obtain ⟨q, taken, rfl⟩ := Option.map_eq_some_iff.mp read
        exact Or.inr ⟨.readAi funcflag n.val, taken⟩
    next => cases done; exact Or.inl rfl

theorem grows_scan (s : Scan.State T) (a : Scan.Action T) (s' : Scan.State T)
    (done : Scan.step s a = some s') : Grows s.queue s'.queue := by
  rcases queue_of_step s a s' done with same | ⟨b, taken⟩
  · rw [same]
    exact .refl _
  · exact grows_step _ b _ taken

theorem inv_scan {polarity : Int} (s : Scan.State T) (a : Scan.Action T) (s' : Scan.State T)
    (inv : DataQueue.Inv polarity s.queue) (done : Scan.step s a = some s') :
    DataQueue.Inv polarity s'.queue := by
  rcases queue_of_step s a s' done with same | ⟨b, taken⟩
  · rw [same]
    exact inv
  · exact DataQueue.step_inv _ b _ inv taken

theorem Grows.getElem {q q' : DataQueue.State T} (grows : Grows q q') {k : Nat} {packet : List Byte × T}
    (found : q.packets[k]? = some packet) : q'.packets[k]? = some packet := by
  obtain ⟨more, split⟩ := grows.packets
  have inside := (List.getElem?_eq_some_iff.mp found).1
  rw [← split, List.getElem?_append_left inside]
  exact found

end Queue

/-! One packet in all records. -/

section Facts
variable {T V : Type} (arith : Arith V) (polarity : Int)

/-- So many words are those of the k-th packet, unless the reader thread has come round to its slot. -/
def Copied (k front : Nat) (s : State T V) (m : Nat) : Prop :=
  front ≤ k + 8 → ∃ rdbuf time, s.scan.queue.packets[k]? = some (rdbuf, time) ∧
    ∀ i < m, s.ipmData i = adjustedPacket polarity rdbuf i

/-- The raw record has read at the k-th packet, and the first channel has copied before. -/
def RawAt (k : Nat) (s : State T V) (n : Fin 4) : Prop :=
  ∃ p ∈ s.scan.queue.published, s.raw n = some p ∧ (p.drd = k ∧ p.funcflag = .aiData ∧ p.chnlnum = n.val) ∧
    (n = chA → Copied polarity k p.front s 16)

def PsAt (k : Nat) (s : State T V) (n : Fin 4) : Prop :=
  ∃ p ∈ s.scan.queue.published, s.ps n = some p ∧ p.drd = k ∧ p.funcflag = .aiPs ∧ p.chnlnum = n.val

def ChAt (s : State T V) (n : Fin 4) : Prop :=
  (s.ch n).val =
      arith.mul (arith.sub (s.used (.base n)) (rawVal arith (s.raw n))) (s.used (.scale n)) ∧
    (s.ch n).time = (s.raw n).map Published.time

structure Done (k : Nat) (s : State T V) (n : Fin 4) : Prop where
  raw : RawAt polarity k s n
  ps : PsAt k s n
  ch : ChAt arith s n

def StageAt (k : Nat) (s : State T V) (n : Fin 4) : Scan.Stage → Prop
  | .raw => True
  | .rawRead => n = chA → Copied polarity k s.scan.queue.front s s.copied
  | .ps | .psRead => RawAt polarity k s n
  | .ch => RawAt polarity k s n ∧ PsAt k s n
  | .done | .put | .count => Done arith polarity k s n

def PhaseAt (past : List (List (Fin 4))) (s : State T V) : Scan.Phase → Prop
  | .pini => past = []
  | .idle => ∀ k, k + 1 = past.length → ∀ n, Done arith polarity k s n
  | .channel before stage n _ =>
    (∀ c ∈ before, Done arith polarity past.length s c) ∧ StageAt arith polarity past.length s n stage
  | .reset _ | .clear _ _ | .advance _ => ∀ n, Done arith polarity past.length s n

/-- The first m of the records after DOREAD are done. -/
structure TailAt (s : State T V) (m : Nat) : Prop where
  left : s.tail = tailRecords.drop m
  fid : 1 ≤ m → s.fidTime = firstTime s
  sum : 2 ≤ m → s.sum = sumCalc arith s
  xpos : 3 ≤ m → s.xpos = xposCalc arith s (s.used .xscale)
  ypos : 4 ≤ m → s.ypos = yposCalc arith s (s.used .yscale)

theorem TailAt.start {s : State T V} (left : s.tail = tailRecords) : TailAt arith s 0 :=
  ⟨left, nofun, nofun, nofun, nofun⟩

def copies : Scan.Phase → Bool
  | .channel _ .rawRead _ _ => true
  | _ => false

structure At (past : List (List (Fin 4))) (phase : Scan.Phase) (s : State T V) : Prop where
  scan : Scan.At past phase s.scan
  inv : DataQueue.Inv polarity s.scan.queue
  values : PhaseAt arith polarity past s phase
  room : s.copied ≤ 16
  fresh : copies phase = false → s.copied = 0
  free : phase ≠ .idle ∨ past = [] → s.tail = []
  finished : phase = .idle → past ≠ [] → ∃ m ≤ 4, TailAt arith s m

/-- The records of a channel hold what they held, with the packet if it is the first channel. -/
structure SameAt (s s' : State T V) (n : Fin 4) : Prop where
  raw : s'.raw n = s.raw n
  ps : s'.ps n = s.ps n
  ch : s'.ch n = s.ch n
  base : s'.used (.base n) = s.used (.base n)
  scale : s'.used (.scale n) = s.used (.scale n)
  ipmData : n = chA → s'.ipmData = s.ipmData

structure SameValues (s s' : State T V) : Prop where
  raw : s'.raw = s.raw
  ps : s'.ps = s.ps
  ch : s'.ch = s.ch
  used : ∀ n, s'.used (.base n) = s.used (.base n) ∧ s'.used (.scale n) = s.used (.scale n)
  ipmData : s'.ipmData = s.ipmData
  copied : s'.copied = s.copied

theorem SameValues.channel {s s' : State T V} (same : SameValues s s') (n : Fin 4) : SameAt s s' n :=
  ⟨congrFun same.raw n, congrFun same.ps n, congrFun same.ch n, (same.used n).1, (same.used n).2,
    fun _ => same.ipmData⟩

section Kept
variable {arith polarity} {k : Nat} {s s' : State T V} (grows : Grows s.scan.queue s'.scan.queue)
include grows

theorem Copied.grow {front front' m : Nat} (copied : Copied polarity k front s m) (later : front ≤ front')
    (ipmData : s'.ipmData = s.ipmData) : Copied polarity k front' s' m := by
  intro near
  obtain ⟨rdbuf, time, queued, words⟩ := copied (later.trans near)
  rw [ipmData]
  exact ⟨rdbuf, time, grows.getElem queued, words⟩

theorem RawAt.keep {n : Fin 4} (raw : RawAt polarity k s n) (same : s'.raw n = s.raw n)
    (ipmData : n = chA → s'.ipmData = s.ipmData) : RawAt polarity k s' n := by
  obtain ⟨p, member, shown, facts, copied⟩ := raw
  exact ⟨p, grows.published p member, same.trans shown, facts,
    fun first => (copied first).grow grows le_rfl (ipmData first)⟩

theorem PsAt.keep {n : Fin 4} (ps : PsAt k s n) (same : s'.ps n = s.ps n) : PsAt k s' n := by
  obtain ⟨p, member, shown, rest⟩ := ps
  exact ⟨p, grows.published p member, same.trans shown, rest⟩

theorem Done.keep {n : Fin 4} (same : SameAt s s' n) (done : Done arith polarity k s n) :
    Done arith polarity k s' n := by
  refine ⟨done.raw.keep grows same.raw same.ipmData, done.ps.keep grows same.ps, ⟨?_, ?_⟩⟩
  · rw [same.ch, same.raw, same.base, same.scale, done.ch.1]
  · rw [same.ch, same.raw, done.ch.2]

theorem StageAt.keep {n : Fin 4} {stage : Scan.Stage} (values : SameValues s s')
    (place : StageAt arith polarity k s n stage) : StageAt arith polarity k s' n stage := by
  have same := values.channel n
  have raw (place : RawAt polarity k s n) : RawAt polarity k s' n := place.keep grows same.raw same.ipmData
  cases stage with
  | raw => trivial
  | rawRead =>
    show n = chA → Copied polarity k s'.scan.queue.front s' s'.copied
    rw [values.copied]
    exact fun first => (place first).grow grows grows.front values.ipmData
  | ps => exact raw place
  | psRead => exact raw place
  | ch => exact ⟨raw place.1, place.2.keep grows same.ps⟩
  | done => exact Done.keep grows same place
  | put => exact Done.keep grows same place
  | count => exact Done.keep grows same place

theorem PhaseAt.keep {past : List (List (Fin 4))} {phase : Scan.Phase} (same : SameValues s s')
    (values : PhaseAt arith polarity past s phase) : PhaseAt arith polarity past s' phase := by
  cases phase with
  | pini => exact values
  | idle => exact fun k last n => (values k last n).keep grows (same.channel n)
  | channel before stage n rest =>
    exact ⟨fun c member => (values.1 c member).keep grows (same.channel c), values.2.keep grows same⟩
  | reset order => exact fun n => (values n).keep grows (same.channel n)
  | clear order cleared => exact fun n => (values n).keep grows (same.channel n)
  | advance order => exact fun n => (values n).keep grows (same.channel n)

end Kept

/-! A step of any thread takes the values to where the scan is. -/

section Steps
variable {arith polarity} {past : List (List (Fin 4))} {phase : Scan.Phase} {s : State T V}
  (place : At arith polarity past phase s)
include place

/-- The reader thread, or a write to an input. -/
theorem At.aside {scan : Scan.State T} (there : Scan.At past phase scan)
    (inv : DataQueue.Inv polarity scan.queue) (grows : Grows s.scan.queue scan.queue)
    (knobs : Knob → V) : At arith polarity past phase { s with scan := scan, knobs := knobs } where
  scan := there
  inv := inv
  values := PhaseAt.keep (s := s) grows ⟨rfl, rfl, rfl, fun _ => ⟨rfl, rfl⟩, rfl, rfl⟩ place.values
  room := place.room
  fresh := place.fresh
  free := place.free
  finished idle began := by
    obtain ⟨m, le, tail⟩ := place.finished idle began
    exact ⟨m, le, tail.left, tail.fid, tail.sum, tail.xpos, tail.ypos⟩

theorem reader_at (a : DataQueue.Action T) {scan : Scan.State T} (done : Scan.reader s.scan a = some scan) :
    At arith polarity past phase { s with scan := scan } :=
  place.aside (Scan.reader_at place.scan a done) (inv_scan _ (.reader a) _ place.inv done)
    (grows_scan _ (.reader a) _ done) s.knobs

theorem set_at (knob : Knob) (value : V) :
    At arith polarity past phase { s with knobs := Function.update s.knobs knob value } :=
  place.aside place.scan place.inv (.refl _) _

omit place in
theorem idle_of_tasks {t : Scan.State T} (there : Scan.At past phase t) (none_left : t.tasks = []) :
    phase = .idle := by
  by_contra busy
  exact Scan.tasks_ne_nil busy (there.tasks.symm.trans none_left)

theorem scan_at (order : List (Fin 4)) {scan : Scan.State T} (ended : s.tail = [])
    (done : Scan.scan s.scan order = some scan) :
    ∃ n rest, At arith polarity past (.channel [] .raw n rest) { s with scan := scan } := by
  have none_left : s.scan.tasks = [] := by
    simp only [Scan.scan] at done
    split_ifs at done with ready
    exact ready.1
  have idle := idle_of_tasks place.scan none_left
  obtain ⟨n, rest, begun⟩ := Scan.scan_at place.scan order done
  rw [idle] at place
  exact ⟨n, rest, begun, inv_scan _ (.scan order) _ place.inv done, ⟨nofun, trivial⟩, place.room,
    fun _ => place.fresh rfl, fun _ => ended, nofun⟩

omit place in
theorem finish_same (r : Tail) (rest : List Tail) :
    SameValues s { finish arith s r with tail := rest } := by
  have other (knob knob' : Knob) (distinct : knob' ≠ knob) :
      Function.update s.used knob (s.knobs knob) knob' = s.used knob' := Function.update_of_ne distinct _ _
  cases r with
  | currentFid => exact ⟨rfl, rfl, rfl, fun _ => ⟨rfl, rfl⟩, rfl, rfl⟩
  | sum => exact ⟨rfl, rfl, rfl, fun _ => ⟨rfl, rfl⟩, rfl, rfl⟩
  | xpos => exact ⟨rfl, rfl, rfl, fun n => ⟨other .xscale (.base n) nofun, other .xscale (.scale n) nofun⟩, rfl, rfl⟩
  | ypos => exact ⟨rfl, rfl, rfl, fun n => ⟨other .yscale (.base n) nofun, other .yscale (.scale n) nofun⟩, rfl, rfl⟩

omit place in
theorem finish_tail {m : Nat} (r : Tail) (rest : List Tail) (first : s.tail = r :: rest) (tail : TailAt arith s m) :
    m < 4 ∧ TailAt arith { finish arith s r with tail := rest } (m + 1) := by
  have left : tailRecords.drop m = r :: rest := tail.left.symm.trans first
  match m with
  | 0 =>
    cases left
    exact ⟨by decide, rfl, fun _ => rfl, nofun, nofun, nofun⟩
  | 1 =>
    cases left
    exact ⟨by decide, rfl, fun _ => tail.fid (by decide), fun _ => rfl, nofun, nofun⟩
  | 2 =>
    cases left
    have used : Function.update s.used .xscale (s.knobs .xscale) .xscale = s.knobs .xscale :=
      Function.update_self _ _ _
    exact ⟨by decide, rfl, fun _ => tail.fid (by decide), fun _ => tail.sum (by decide),
      fun _ => congrArg (xposCalc arith s) used.symm, nofun⟩
  | 3 =>
    cases left
    have used : Function.update s.used .yscale (s.knobs .yscale) .yscale = s.knobs .yscale :=
      Function.update_self _ _ _
    have kept : Function.update s.used .yscale (s.knobs .yscale) .xscale = s.used .xscale :=
      Function.update_of_ne (by decide) _ _
    exact ⟨by decide, rfl, fun _ => tail.fid (by decide), fun _ => tail.sum (by decide),
      fun _ => (tail.xpos (by decide)).trans (congrArg (xposCalc arith s) kept.symm),
      fun _ => congrArg (yposCalc arith s) used.symm⟩
  | m + 4 =>
    rw [List.drop_eq_nil_of_le (Nat.le_add_left 4 m)] at left
    cases left

theorem finish_at (r : Tail) (rest : List Tail) (first : s.tail = r :: rest) :
    At arith polarity past phase { finish arith s r with tail := rest } := by
  have idle : phase = .idle := by
    by_contra busy
    rw [place.free (Or.inl busy)] at first
    cases first
  have began : past ≠ [] := by
    intro none_yet
    rw [place.free (Or.inr none_yet)] at first
    cases first
  have scan : (finish arith s r).scan = s.scan := by cases r <;> rfl
  have same : SameValues s { finish arith s r with tail := rest } := finish_same r rest
  refine ⟨?_, ?_, place.values.keep ?_ same, ?_, ?_, ?_, ?_⟩
  · show Scan.At past phase (finish arith s r).scan
    rw [scan]
    exact place.scan
  · show DataQueue.Inv polarity (finish arith s r).scan.queue
    rw [scan]
    exact place.inv
  · show Grows s.scan.queue (finish arith s r).scan.queue
    rw [scan]
    exact .refl _
  · rw [same.copied]
    exact place.room
  · rw [same.copied]
    exact place.fresh
  · rintro (busy | none_yet)
    · exact absurd idle busy
    · exact absurd none_yet began
  · intro _ _
    obtain ⟨m, -, tail⟩ := place.finished idle began
    obtain ⟨more, next⟩ := finish_tail r rest first tail
    exact ⟨m + 1, more, next⟩

omit place in
/-- The channels that are done are others than the one the scan is at. -/
theorem At.before {before rest : List (Fin 4)} {stage : Scan.Stage} {n : Fin 4}
    (place : At arith polarity past (.channel before stage n rest) s) {t : State T V}
    (grows : Grows s.scan.queue t.scan.queue) (same : ∀ c, c ≠ n → SameAt s t c) :
    ∀ c ∈ before, Done arith polarity past.length t c := by
  intro c member
  have distinct := (List.nodup_append.mp (place.scan.distinct rfl).1).2.2
  exact (place.values.1 c member).keep grows (same c (distinct c member n List.mem_cons_self))

/-- What `read_ai` gets is the packet the scan is at. -/
theorem At.held (which : Nat) (time : T) (stamped : Nat)
    (held : s.scan.queue.record = .holding which time stamped) (near : s.scan.queue.front ≤ past.length + 8) :
    ∃ rdbuf t, s.scan.queue.packets[past.length]? = some (rdbuf, t) ∧
      Same (s.scan.queue.board.data which) (adjustedPacket polarity rdbuf) := by
  have drd := place.scan.drd
  obtain ⟨more, slot, -⟩ := place.inv.holding which time stamped held
  rw [drd] at more slot
  obtain ⟨rdbuf, t, queued, -, same⟩ := place.inv.data past.length (by omega) more
  refine ⟨rdbuf, t, queued, ?_⟩
  rw [slot, and_qMask]
  exact same

omit place in
theorem source_cases (which : Nat) (copies : source s = some which) :
    ∃ n rest time stamped, s.scan.tasks = .readAi .aiData n :: rest ∧
      s.scan.queue.record = .holding which time stamped ∧ n = chA ∧ s.copied < 16 := by
  unfold source at copies
  split at copies
  next n rest from_slot time stamped tasks holding =>
    split_ifs at copies with ready
    cases copies
    exact ⟨n, rest, time, stamped, tasks, holding, Fin.ext ready.1, ready.2⟩
  next => cases copies

def reads : IpimbFunc → Scan.Stage
  | .aiData => .rawRead
  | .aiPs => .psRead

theorem At.reading {funcflag : IpimbFunc} {n : Fin 4} {rest : List Task}
    (tasks : s.scan.tasks = .readAi funcflag n :: rest) :
    ∃ before later, phase = .channel before (reads funcflag) n later := by
  have here := place.scan.tasks.symm.trans tasks
  cases phase with
  | channel before stage m later =>
    cases stage <;> cases here
    · exact ⟨before, later, rfl⟩
    · exact ⟨before, later, rfl⟩
  | clear order cleared =>
    rw [Scan.Phase.tasks] at here
    generalize (List.finRange 4).drop cleared = left at here
    cases left <;> cases here
  | _ => cases here

theorem copy_at (which : Nat) (copies : source s = some which) :
    At arith polarity past phase (copyWord s which) := by
  obtain ⟨n, rest, time, stamped, tasks, holding, first, more⟩ := source_cases which copies
  obtain ⟨before, later, here⟩ := place.reading tasks
  subst here
  have values := place.values
  have same (c : Fin 4) (other : c ≠ n) : SameAt s (copyWord s which) c :=
    ⟨rfl, rfl, rfl, rfl, rfl, fun first' => absurd (first'.trans first.symm) other⟩
  refine { place with values := ⟨?_, ?_⟩, room := more, fresh := nofun, finished := nofun }
  · exact place.before (t := copyWord s which) (.refl _) same
  · intro _ near
    obtain ⟨rdbuf, t, queued, same⟩ := place.held which time stamped holding near
    obtain ⟨rdbuf', time', stored, words⟩ := values.2 first near
    have packet : rdbuf' = rdbuf := by
      rw [queued] at stored
      exact (congrArg Prod.fst (Option.some.inj stored)).symm
    refine ⟨rdbuf, t, queued, fun i below => ?_⟩
    show Function.update s.ipmData s.copied _ i = _
    by_cases newest : i = s.copied
    · rw [newest, Function.update_self]
      exact same _ more
    · have older : i < s.copied := Nat.lt_of_le_of_ne (Nat.le_of_lt_succ below) newest
      rw [Function.update_of_ne newest, words i older, packet]

theorem At.shown (funcflag : IpimbFunc) {n : Fin 4} {rest : List Task}
    (tasks : s.scan.tasks = .readAi funcflag n :: rest) {scan : Scan.State T}
    (done : Scan.record s.scan = some scan) :
    ∃ p ∈ scan.queue.published, shown s.scan.queue scan.queue = some p ∧ p.drd = past.length ∧
      p.funcflag = funcflag ∧ p.chnlnum = n.val ∧ p.front = s.scan.queue.front := by
  obtain ⟨before, later, here⟩ := place.reading tasks
  have holding := place.scan.holding
  rw [here, if_pos (by cases funcflag <;> rfl)] at holding
  obtain ⟨which, time, stamped, held, -⟩ := holding
  rw [Scan.record, tasks] at done
  simp only [Scan.readAi, held, DataQueue.readAi, Option.map_some] at done
  cases done
  refine ⟨_, List.mem_append_right _ (List.mem_singleton_self _), ?_, place.scan.drd, rfl, rfl, rfl⟩
  rw [Event.shown, held]
  exact List.getLast?_concat

theorem copied_all {before rest : List (Fin 4)} {n : Fin 4} (here : phase = .channel before .rawRead n rest)
    (copied : source s = none) (first : n = chA) : s.copied = 16 := by
  subst here
  obtain ⟨which, time, stamped, held, -⟩ := place.scan.holding
  rw [source, place.scan.tasks, held] at copied
  have full : ¬s.copied < 16 := fun more => by
    rw [first] at copied
    have copies : (if chA.val = 0 ∧ s.copied < 16 then some which else none) = none := copied
    rw [if_pos ⟨rfl, more⟩] at copies
    cases copies
  exact le_antisymm place.room (Nat.le_of_not_lt full)

theorem channel_at {before rest : List (Fin 4)} {n : Fin 4} {stage stage' : Scan.Stage}
    (here : phase = .channel before stage n rest) {t : State T V} (done : Scan.record s.scan = some t.scan)
    (there : Scan.At past (.channel before stage' n rest) t.scan) (tail : t.tail = s.tail) (zero : t.copied = 0)
    (same : ∀ c, c ≠ n → SameAt s t c) (values : StageAt arith polarity past.length t n stage') :
    At arith polarity past (.channel before stage' n rest) t := by
  subst here
  refine ⟨there, inv_scan _ .record _ place.inv done, ⟨place.before (grows_scan _ .record _ done) same, values⟩,
    ?_, fun _ => zero, ?_, nofun⟩
  · rw [zero]
    exact Nat.zero_le _
  · intro _
    rw [tail]
    exact place.free (Or.inl nofun)

theorem raw_at {before rest : List (Fin 4)} {n : Fin 4} {scan : Scan.State T}
    (here : phase = .channel before .rawRead n rest) (copied : source s = none)
    (done : Scan.record s.scan = some scan) (there : Scan.At past (.channel before .ps n rest) scan) :
    At arith polarity past (.channel before .ps n rest) (after arith s scan) := by
  subst here
  have tasks := place.scan.tasks
  have grows := grows_scan _ .record _ done
  have after : after arith s scan = { s with
      scan := scan
      raw := Function.update s.raw n (shown s.scan.queue scan.queue)
      copied := 0 } := by
    rw [after, tasks]
    rfl
  rw [after]
  obtain ⟨p, member, shown, drd, funcflag, chnlnum, front⟩ := place.shown .aiData tasks done
  refine channel_at place rfl done there rfl rfl (fun c other => ?_)
    ⟨p, member, (Function.update_self _ _ _).trans shown, ⟨drd, funcflag, chnlnum⟩, fun first => ?_⟩
  · exact ⟨Function.update_of_ne other _ _, rfl, rfl, rfl, rfl, fun _ => rfl⟩
  · have words := place.values.2 first
    rw [copied_all place rfl copied first, ← front] at words
    exact words.grow grows le_rfl rfl

theorem ps_at {before rest : List (Fin 4)} {n : Fin 4} {scan : Scan.State T}
    (here : phase = .channel before .psRead n rest) (done : Scan.record s.scan = some scan)
    (there : Scan.At past (.channel before .ch n rest) scan) :
    At arith polarity past (.channel before .ch n rest) (after arith s scan) := by
  subst here
  have tasks := place.scan.tasks
  have grows := grows_scan _ .record _ done
  have after : after arith s scan = { s with
      scan := scan
      ps := Function.update s.ps n (shown s.scan.queue scan.queue) } := by
    rw [after, tasks]
    rfl
  rw [after]
  have raw : RawAt polarity past.length s n := place.values.2
  obtain ⟨p, member, shown, drd, funcflag, chnlnum, -⟩ := place.shown .aiPs tasks done
  refine channel_at place rfl done there rfl (place.fresh rfl) (fun c other => ?_)
    ⟨raw.keep grows rfl fun _ => rfl, p, member, (Function.update_self _ _ _).trans shown,
      drd, funcflag, chnlnum⟩
  exact ⟨rfl, Function.update_of_ne other _ _, rfl, rfl, rfl, fun _ => rfl⟩

omit place in
theorem taken_scale (n : Fin 4) : taken s n (.scale n) = s.knobs (.scale n) := Function.update_self _ _ _

omit place in
theorem taken_base (n : Fin 4) : taken s n (.base n) = s.knobs (.base n) := by
  rw [taken, Function.update_of_ne (by simp), Function.update_self]

omit place in
theorem taken_other {n c : Fin 4} (other : c ≠ n) :
    taken s n (.base c) = s.used (.base c) ∧ taken s n (.scale c) = s.used (.scale c) := by
  have base : Knob.base c ≠ .base n := by simpa using other
  have scale : Knob.scale c ≠ .scale n := by simpa using other
  rw [taken, Function.update_of_ne (by simp), Function.update_of_ne base, Function.update_of_ne scale,
    Function.update_of_ne (by simp)]
  exact ⟨rfl, rfl⟩

theorem ch_at {before rest : List (Fin 4)} {n : Fin 4} {scan : Scan.State T}
    (here : phase = .channel before .ch n rest) (done : Scan.record s.scan = some scan)
    (there : Scan.At past (.channel before .done n rest) scan) :
    At arith polarity past (.channel before .done n rest) (after arith s scan) := by
  subst here
  have tasks := place.scan.tasks
  have grows := grows_scan _ .record _ done
  have after : after arith s scan = { s with
      scan := scan
      ch := Function.update s.ch n (chCalc arith s n)
      used := taken s n } := by
    rw [after, tasks]
    rfl
  rw [after]
  obtain ⟨raw, ps⟩ := place.values.2
  have computed : Function.update s.ch n (chCalc arith s n) n = chCalc arith s n := Function.update_self _ _ _
  refine channel_at place rfl done there rfl (place.fresh rfl) (fun c other => ?_)
    ⟨raw.keep grows rfl fun _ => rfl, ps.keep grows rfl, ⟨?_, ?_⟩⟩
  · exact ⟨rfl, rfl, Function.update_of_ne other _ _, (taken_other other).1, (taken_other other).2,
      fun _ => rfl⟩
  · show (Function.update s.ch n (chCalc arith s n) n).val =
      arith.mul (arith.sub (taken s n (.base n)) _) (taken s n (.scale n))
    rw [computed, taken_base, taken_scale]
    rfl
  · show (Function.update s.ch n (chCalc arith s n) n).time = _
    rw [computed]
    rfl

theorem quiet_at {next : Scan.Phase} {scan : Scan.State T} (done : Scan.record s.scan = some scan)
    (there : Scan.At past next scan) (same : after arith s scan = { s with scan := scan })
    (values : PhaseAt arith polarity past { s with scan := scan } next) (zero : s.copied = 0)
    (busy : phase.tasks ≠ []) (goes : next ≠ .idle ∨ past = []) :
    At arith polarity past next (after arith s scan) := by
  have busy : phase ≠ .idle := fun idle => busy (by rw [idle]; rfl)
  rw [same]
  refine ⟨there, inv_scan _ .record _ place.inv done, values,
    place.room, fun _ => zero, fun _ => place.free (Or.inl busy), ?_⟩
  intro idle began
  rcases goes with busy | none_yet
  · exact absurd idle busy
  · exact absurd none_yet began

omit place in
/-- Before the first word there is at least a packet. -/
theorem copied_none {order : List (Fin 4)} (there : Scan.At past phase s.scan)
    (inv : DataQueue.Inv polarity s.scan.queue) (scanning : phase.order = some order) (zero : s.copied = 0) :
    Copied polarity past.length s.scan.queue.front s s.copied := by
  intro _
  have drd := there.drd
  have ready := there.some_packet scanning
  have le := inv.drd_le
  have counted := inv.counted
  have some_packet : past.length < s.scan.queue.packets.length := by omega
  refine ⟨_, _, List.getElem?_eq_getElem some_packet, ?_⟩
  rw [zero]
  exact fun i none_below => absurd none_below (Nat.not_lt_zero i)

omit place in
theorem next_busy {before rest : List (Fin 4)} {stage : Scan.Stage} {n : Fin 4} :
    (Scan.Phase.channel before stage n rest).next ≠ .idle := by
  cases stage <;> cases rest <;> nofun

theorem record_channel {before rest : List (Fin 4)} {n : Fin 4} {stage : Scan.Stage} {scan : Scan.State T}
    (here : phase = .channel before stage n rest) (copied : source s = none)
    (done : Scan.record s.scan = some scan) (there : Scan.At past phase.next scan) :
    At arith polarity past phase.next (after arith s scan) := by
  subst here
  have tasks := place.scan.tasks
  have same : SameValues s { s with scan := scan } := ⟨rfl, rfl, rfl, fun _ => ⟨rfl, rfl⟩, rfl, rfl⟩
  have values : PhaseAt arith polarity past { s with scan := scan } (.channel before stage n rest) :=
    place.values.keep (grows_scan s.scan .record scan done) same
  have busy : (Scan.Phase.channel before stage n rest).tasks ≠ [] := Scan.tasks_ne_nil (by simp)
  have later (unread : copies (.channel before stage n rest) = false)
      (after : after arith s scan = { s with scan := scan })
      (values : PhaseAt arith polarity past { s with scan := scan } (Scan.Phase.channel before stage n rest).next) :
      At arith polarity past (Scan.Phase.channel before stage n rest).next (Event.after arith s scan) :=
    quiet_at place done there after values (place.fresh unread) busy (Or.inl next_busy)
  cases stage with
  | raw =>
    refine later rfl (by rw [after, tasks]; rfl) ⟨values.1, fun _ => ?_⟩
    exact copied_none there (inv_scan _ .record _ place.inv done) rfl (place.fresh rfl)
  | rawRead => exact raw_at place rfl copied done there
  | ps => exact later rfl (by rw [after, tasks]; rfl) values
  | psRead => exact ps_at place rfl done there
  | ch => exact ch_at place rfl done there
  | done => exact later rfl (by rw [after, tasks]; rfl) values
  | put => exact later rfl (by rw [after, tasks]; rfl) values
  | count =>
    have all : ∀ c ∈ before ++ [n], Done arith polarity past.length { s with scan := scan } c := by
      rw [List.forall_mem_append, List.forall_mem_singleton]
      exact values
    cases rest with
    | nil =>
      refine later rfl (by rw [after, tasks]; rfl) fun c => all c ?_
      have full := place.scan.full (before ++ [n]) (by rw [place.scan.orders]; simp [Scan.Phase.order])
      exact full.mem_iff.mpr (List.mem_finRange c)
    | cons m rest => exact later rfl (by rw [after, tasks]; rfl) ⟨all, trivial⟩

theorem record_at {scan : Scan.State T} (copied : source s = none) (done : Scan.record s.scan = some scan) :
    ∃ past phase, At arith polarity past phase (after arith s scan) := by
  have busy : phase.tasks ≠ [] := by
    intro none_left
    rw [Scan.record, place.scan.tasks, none_left] at done
    cases done
  obtain ⟨next, taken, there⟩ := Scan.record_next phase place.scan busy
  obtain rfl : scan = next := Option.some.inj (done.symm.trans taken)
  have tasks := place.scan.tasks
  have grows := grows_scan s.scan .record scan done
  have same : SameValues s { s with scan := scan } := ⟨rfl, rfl, rfl, fun _ => ⟨rfl, rfl⟩, rfl, rfl⟩
  have values := place.values.keep grows same
  cases phase with
  | idle => exact absurd rfl busy
  | pini =>
    simp only [Scan.Phase.ended, List.append_nil] at there
    refine ⟨past, .idle, quiet_at place done there (by rw [after, tasks]; rfl) ?_ (place.fresh rfl) busy
      (Or.inr values)⟩
    intro k last
    rw [show past = [] from values] at last
    cases last
  | channel before stage n rest =>
    simp only [Scan.Phase.ended, List.append_nil] at there
    exact ⟨past, _, record_channel place rfl copied done there⟩
  | reset order =>
    simp only [Scan.Phase.ended, List.append_nil] at there
    exact ⟨past, _, quiet_at place done there (by rw [after, tasks]; rfl) values (place.fresh rfl) busy
      (Or.inl (by simp [Scan.Phase.next]))⟩
  | clear order cleared =>
    simp only [Scan.Phase.ended, List.append_nil] at there
    refine ⟨past, _, quiet_at place done there ?_ ?_ (place.fresh rfl) busy (Or.inl ?_)⟩
    · rw [after, tasks, Scan.Phase.tasks]
      generalize (List.finRange 4).drop cleared = left
      cases left <;> rfl
    · rw [Scan.Phase.next]
      split <;> exact values
    · rw [Scan.Phase.next]
      split <;> simp
  | advance order =>
    have after : after arith s scan = { s with scan := scan, tail := tailRecords } := by
      rw [after, tasks]
      rfl
    have same : SameValues s { s with scan := scan, tail := tailRecords } :=
      ⟨rfl, rfl, rfl, fun _ => ⟨rfl, rfl⟩, rfl, rfl⟩
    have values := place.values.keep grows same
    rw [after]
    refine ⟨past ++ [order], .idle, there, inv_scan _ .record _ place.inv done, ?_,
      place.room, fun _ => place.fresh rfl, ?_,
      fun _ _ => ⟨0, Nat.zero_le 4, TailAt.start arith rfl⟩⟩
    · intro k last
      rw [List.length_append, List.length_singleton] at last
      obtain rfl : k = past.length := Nat.succ.inj last
      exact values
    · rintro (busy | none_yet)
      · exact absurd rfl busy
      · exact absurd none_yet (by simp)

end Steps

theorem init_at (ts : Nat → T) (knobs : Knob → V) (ipmData : Slot) (old : Calc T V) :
    At arith polarity [] .pini (State.init polarity ts knobs ipmData old) where
  scan := Scan.init_at polarity ts
  inv := DataQueue.Inv.init polarity ts
  values := rfl
  room := Nat.zero_le _
  fresh _ := rfl
  free _ := rfl
  finished := nofun

theorem step_at (s : State T V) (a : Action T V) (s' : State T V)
    (place : ∃ past phase, At arith polarity past phase s) (done : step arith s a = some s') :
    ∃ past phase, At arith polarity past phase s' := by
  obtain ⟨past, phase, place⟩ := place
  cases a with
  | reader a =>
    obtain ⟨scan, taken, rfl⟩ := Option.map_eq_some_iff.mp done
    exact ⟨past, phase, reader_at place a taken⟩
  | scan order =>
    simp only [step] at done
    split_ifs at done with ended
    obtain ⟨scan, taken, rfl⟩ := Option.map_eq_some_iff.mp done
    obtain ⟨n, rest, begun⟩ := scan_at place order ended taken
    exact ⟨past, _, begun⟩
  | record =>
    simp only [step, record] at done
    split at done
    next r rest first =>
      cases done
      exact ⟨past, phase, finish_at place r rest first⟩
    next =>
      split at done
      next which copies =>
        cases done
        exact ⟨past, phase, copy_at place which copies⟩
      next copied =>
        obtain ⟨scan, taken, rfl⟩ := Option.map_eq_some_iff.mp done
        exact record_at place copied taken
  | set knob value =>
    cases done
    exact ⟨past, phase, set_at place knob value⟩

end Facts

/-! The records as a function of one packet. -/

/-- What a scan is to leave in the records: the packet, its time, and the values of its samples under the
inputs used. -/
structure Coherent {T V : Type} (arith : Arith V) (packet : Slot) (time : T) (s : State T V) : Prop where
  raw : ∀ n, ∃ p, s.raw n = some p ∧ p.rval = packet (ch n) ∧ p.time = time
  ps : ∀ n, ∃ p, s.ps n = some p ∧ p.rval = packet (chPs n) ∧ p.time = time
  ch : ∀ n, s.ch n =
    ⟨arith.mul (arith.sub (s.used (.base n)) (arith.convert (packet (BoardData.ch n)))) (s.used (.scale n)),
      some time⟩
  fid : s.fidTime = some time
  sum : s.sum = ⟨arith.add (arith.add (arith.add (s.ch chA).val (s.ch chB).val) (s.ch chC).val) (s.ch chD).val,
    some time⟩
  xpos : s.xpos = ⟨position arith (s.used .xscale) (s.ch chB).val (s.ch chD).val, some time⟩
  ypos : s.ypos = ⟨position arith (s.used .yscale) (s.ch chA).val (s.ch chC).val, some time⟩
  ipmData : Same s.ipmData packet

section Values
variable {T V : Type} {arith : Arith V} {polarity : Int}

theorem field_channel (funcflag : IpimbFunc) (n : Fin 4) :
    DataQueue.field funcflag n.val = match funcflag with | .aiData => ch n | .aiPs => chPs n := by
  have channel : (⟨min n.val 3, by omega⟩ : Fin 4) = n := Fin.ext (by simp only; omega)
  cases funcflag <;> simp only [DataQueue.field, channel]

/-- All reads of a scan in time show the packet that any of them shows. -/
theorem one_packet {q : DataQueue.State T} (inv : DataQueue.Inv polarity q) (timely : Scan.Timely q) {k : Nat}
    (near : ∀ p ∈ q.published, p.drd = k → p.front ≤ k + 8) {first : Published T} (member : first ∈ q.published)
    (drd : first.drd = k) :
    ∃ rdbuf, q.packets[k]? = some (rdbuf, first.time) ∧ Passes rdbuf ∧
      ∀ p ∈ q.published, p.drd = k →
        p.rval = adjustedPacket polarity rdbuf (DataQueue.field p.funcflag p.chnlnum) ∧ p.time = first.time := by
  have genuine (p : Published T) (member : p ∈ q.published) (drd : p.drd = k) :=
    (inv.published p member).genuine (drd.symm ▸ near p member drd) (timely p member)
  obtain ⟨rdbuf, queued, passes, -⟩ := genuine first member drd
  rw [drd] at queued
  refine ⟨rdbuf, queued, passes, fun p member drd => ?_⟩
  obtain ⟨rdbuf', queued', -, rval⟩ := genuine p member drd
  rw [drd, queued] at queued'
  injection queued' with same
  injection same with bytes time
  rw [bytes]
  exact ⟨rval, time.symm⟩

theorem tail_done {s : State T V} {m : Nat} (few : m ≤ 4) (tail : TailAt arith s m) (ended : s.tail = []) :
    m = 4 := by
  have all := List.drop_eq_nil_iff.mp (tail.left.symm.trans ended)
  exact le_antisymm few all

/-- Whatever the reader thread does meanwhile, when a scan is over all records show one packet of the queue,
unless the reader thread had come round to its slot when they read. -/
theorem coherent (arith : Arith V) (polarity : Int) (ts : Nat → T) (knobs : Knob → V) (ipmData : Slot)
    (old : Calc T V) (actions : List (Action T V)) (s : State T V)
    (reached : Transition.run (step arith) (State.init polarity ts knobs ipmData old) actions = some s)
    (ended : s.scan.tasks = [] ∧ s.tail = []) (k : Nat) (last : s.scan.queue.drd = k + 1)
    (near : ∀ p ∈ s.scan.queue.published, p.drd = k → p.front ≤ k + 8) :
    ∃ rdbuf time, s.scan.queue.packets[k]? = some (rdbuf, time) ∧ Passes rdbuf ∧
      Coherent arith (adjustedPacket polarity rdbuf) time s := by
  obtain ⟨past, phase, place⟩ := Transition.run_invariant (step arith)
    (fun s => ∃ past phase, At arith polarity past phase s) (step_at arith polarity)
    ⟨[], .pini, init_at arith polarity ts knobs ipmData old⟩ reached
  have idle := idle_of_tasks place.scan ended.1
  subst idle
  have scans : k + 1 = past.length := last.symm.trans place.scan.drd
  have done := place.values k scans
  have began : past ≠ [] := fun none_yet => by
    rw [none_yet] at scans
    cases scans
  obtain ⟨m, few, tail⟩ := place.finished rfl began
  obtain rfl := tail_done few tail ended.2
  obtain ⟨first, member, shown, ⟨drd, -, -⟩, copied⟩ := (done chA).raw
  obtain ⟨rdbuf, queued, passes, shows⟩ := one_packet place.inv place.scan.timely near member drd
  have time : firstTime s = some first.time := by rw [firstTime, shown, Option.map_some]
  have raw (n : Fin 4) : ∃ p, s.raw n = some p ∧ p.rval = adjustedPacket polarity rdbuf (ch n) ∧
      p.time = first.time := by
    obtain ⟨p, member, shown, ⟨drd, funcflag, chnlnum⟩, -⟩ := (done n).raw
    obtain ⟨rval, time⟩ := shows p member drd
    rw [funcflag, chnlnum, field_channel] at rval
    exact ⟨p, shown, rval, time⟩
  refine ⟨rdbuf, first.time, queued, passes, raw, ?_, ?_, ?_, ?_, ?_, ?_, ?_⟩
  · intro n
    obtain ⟨p, member, shown, drd, funcflag, chnlnum⟩ := (done n).ps
    obtain ⟨rval, time⟩ := shows p member drd
    rw [funcflag, chnlnum, field_channel] at rval
    exact ⟨p, shown, rval, time⟩
  · intro n
    obtain ⟨p, shown, rval, time⟩ := raw n
    obtain ⟨value, taken⟩ := (done n).ch
    rw [shown, rawVal, Option.elim_some, rval] at value
    rw [shown, Option.map_some, time] at taken
    rw [← value, ← taken]
  · rw [tail.fid (by decide), time]
  · rw [tail.sum (by decide), sumCalc, time]
  · rw [tail.xpos (by decide), xposCalc, time]
  · rw [tail.ypos (by decide), yposCalc, time]
  · intro i inside
    obtain ⟨rdbuf', time', queued', words⟩ := copied rfl (near first member drd)
    rw [queued] at queued'
    injection queued' with same
    injection same with bytes _
    rw [words i inside, bytes]

end Values

def whole : Arith Int where
  convert word := word.toNat
  add := (· + ·)
  sub := (· - ·)
  mul := (· * ·)
  div := (· / ·)

/-- One packet with 5 on a channel, and one scan, the channels backwards; all bases 10 and all scales 3. -/
def oneEvent : List (Action Nat Int) :=
  [.record] ++ (DataQueue.enqueue (DataQueue.sampleFrame 5#16).bytes 1).map .reader ++
    [.scan (List.finRange 4).reverse] ++ List.replicate 59 .record

def tens : Knob → Int
  | .base _ => 10
  | .scale _ => 3
  | .xscale | .yscale => 1

theorem coherent_once :
    ∃ s : State Nat Int, Transition.run (step whole) (State.init 0 (fun _ => 0) tens (fun _ => 0#16) ⟨0, none⟩)
        oneEvent = some s ∧ s.sum = ⟨105, some 1⟩ ∧
      ∃ rdbuf time, s.scan.queue.packets[0]? = some (rdbuf, time) ∧ Passes rdbuf ∧
        Coherent whole (adjustedPacket 0 rdbuf) time s := by
  have computed : (Transition.run (step whole) (State.init 0 (fun _ => 0) tens (fun _ => 0#16) ⟨0, none⟩)
      oneEvent).map (fun s => decide ((s.scan.tasks = [] ∧ s.tail = []) ∧ s.scan.queue.drd = 1 ∧
        (∀ p ∈ s.scan.queue.published, p.front ≤ 8) ∧ s.sum.val = 105 ∧ s.sum.time = some 1)) = some true := by
    decide +kernel
  obtain ⟨s, reached, seen⟩ := Option.map_eq_some_iff.mp computed
  obtain ⟨ended, drd, near, val, time⟩ := of_decide_eq_true seen
  refine ⟨s, reached, ?_, ?_⟩
  · rw [← val, ← time]
  · exact coherent whole 0 (fun _ => 0) tens (fun _ => 0#16) ⟨0, none⟩ oneEvent s reached ended 0 drd
      fun p member _ => near p member

end Ipimb.Event
