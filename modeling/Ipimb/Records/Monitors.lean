import Ipimb.Records.Selection

/-!
What a client sees of a bigsel record. It gets the values when it connects, and then what is posted: by the record
when it has been processed, and by the database when somebody else writes a field.
-/

namespace Ipimb.Monitors

open Ipimb.Bigsel

section Fields
variable {V : Type} (fp : Double V)

/-- A client need not tell them apart. -/
def Alike (v w : V) : Prop := fp.eq v w = true ∨ (fp.isnan v = true ∧ fp.isnan w = true)

/-- Equality of doubles, and the check for a change when the deadband is zero. -/
structure Lawful (zero : V) : Prop where
  self : ∀ v, fp.isnan v = false → fp.eq v v = true
  symm : ∀ v w, fp.eq v w = true → fp.eq w v = true
  trans : ∀ u v w, fp.eq u v = true → fp.eq v w = true → fp.eq u w = true
  number : ∀ v w, fp.eq v w = true → fp.isnan v = false
  exceeds : ∀ v w, fp.exceeds v w zero = false ↔ Alike fp v w

variable {fp} {zero : V} (lawful : Lawful fp zero)
include lawful

theorem Lawful.alike_refl (v : V) : Alike fp v v := by
  cases nan : fp.isnan v with
  | false => exact .inl (lawful.self v nan)
  | true => exact .inr ⟨nan, nan⟩

theorem Lawful.alike_symm {v w : V} (alike : Alike fp v w) : Alike fp w v :=
  alike.imp (lawful.symm v w) And.symm

theorem Lawful.alike_trans {u v w : V} (first : Alike fp u v) (second : Alike fp v w) : Alike fp u w := by
  rcases first with equal | nan
  · rcases second with equal' | nan
    · exact .inl (lawful.trans u v w equal equal')
    · have number := lawful.number v u (lawful.symm u v equal)
      rw [nan.1] at number
      cases number
  · rcases second with equal | nan'
    · have number := lawful.number v w equal
      rw [nan.2] at number
      cases number
    · exact .inr ⟨nan.1, nan'.2⟩

end Fields

section Client
variable {V : Type} (fp : Double V)

structure Client (V : Type) where
  val : V
  seln : BitVec 16
  input : Nat → V

/-- A monitor brings the value of its field; the client takes events of every class. -/
def receive (prec : BigselRecord V) (client : Client V) : Post → Client V
  | .val => { client with val := prec.val }
  | .seln => { client with seln := prec.seln }
  | .input i => { client with input := Function.update client.input i (prec.value i) }

/-- The record, one of its clients, and what the record has posted. -/
structure State (V : Type) where
  prec : BigselRecord V
  client : Client V
  log : List Post

inductive Action (V : Type) where
  | process (env : Env V)
  | putInput (i : Nat) (v : V)
  | putSeln (n : BitVec 16)

/-- A put is posted by the database. -/
def step (s : State V) : Action V → Option (State V)
  | .process env =>
      let prec := process fp { s.prec with posted := [] } env
      some ⟨prec, prec.posted.foldl (receive prec) s.client, s.log ++ prec.posted⟩
  | .putInput i v =>
      let prec := { s.prec with value := Function.update s.prec.value i v }
      some { s with prec, client := receive prec s.client (.input i) }
  | .putSeln n =>
      let prec := { s.prec with seln := n }
      some { s with prec, client := receive prec s.client .seln }

def Puts : Action V → Post → Prop
  | .putInput i _, .input j => i = j
  | .putSeln _, .seln => True
  | _, _ => False

def Known : Post → Prop
  | .input i => i < selMax
  | _ => True

/-- The client has just got the field. -/
def Got (prec : BigselRecord V) (client : Client V) : Post → Prop
  | .val => client.val = prec.val
  | .seln => client.seln = prec.seln
  | .input i => client.input i = prec.value i

def Current (prec : BigselRecord V) (client : Client V) : Post → Prop
  | .val => Alike fp prec.val client.val
  | .seln => prec.seln = client.seln
  | .input i => Alike fp (prec.value i) (client.input i)

/-- The client has what the record takes for the last that was posted. -/
def Sent (prec : BigselRecord V) (client : Client V) : Post → Prop
  | .val => Alike fp prec.mlst client.val
  | .seln => prec.nlst = client.seln
  | .input i => Alike fp (prec.prev i) (client.input i)

/-- The record takes the field for posted. -/
def Settled (prec : BigselRecord V) : Post → Prop
  | .val => Alike fp prec.val prec.mlst
  | .seln => prec.seln = prec.nlst
  | .input i => Alike fp (prec.value i) (prec.prev i)

/-- What the record takes for the last that was posted is the same. -/
def Kept (prec prec' : BigselRecord V) : Post → Prop
  | .val => prec'.mlst = prec.mlst
  | .seln => prec'.nlst = prec.nlst
  | .input i => prec'.prev i = prec.prev i

end Client

/-! The parts of a processing. -/

section Parts
variable {V : Type} {prec prec' prec'' : BigselRecord V}

/-- Nothing has been done about monitors. -/
structure Latched (prec prec' : BigselRecord V) : Prop where
  mdel : prec'.mdel = prec.mdel
  mlst : prec'.mlst = prec.mlst
  nlst : prec'.nlst = prec.nlst
  prev : prec'.prev = prec.prev
  posted : prec'.posted = prec.posted

theorem Latched.refl (prec : BigselRecord V) : Latched prec prec := ⟨rfl, rfl, rfl, rfl, rfl⟩

theorem Latched.trans (first : Latched prec prec') (second : Latched prec' prec'') : Latched prec prec'' where
  mdel := second.mdel.trans first.mdel
  mlst := second.mlst.trans first.mlst
  nlst := second.nlst.trans first.nlst
  prev := second.prev.trans first.prev
  posted := second.posted.trans first.posted

theorem setSevr_latched (prec : BigselRecord V) (stat : Alarm) (sevr : Severity) :
    Latched prec (setSevr prec stat sevr).1 := by
  unfold setSevr
  split <;> exact ⟨rfl, rfl, rfl, rfl, rfl⟩

theorem linkAlarm_latched (prec : BigselRecord V) (status : Bool) : Latched prec (linkAlarm prec status) := by
  cases status with
  | true => exact .refl prec
  | false => exact setSevr_latched prec .link .invalid

theorem fetchValue_latched (prec : BigselRecord V) (env : Env V) (i : Nat) :
    Latched prec (fetchValue env prec i).1 := by
  have linked := linkAlarm_latched
    { prec with value := Function.update prec.value i ((prec.inp i).get env.double (prec.value i)).2 }
    ((prec.inp i).get env.double (prec.value i)).1
  exact { linked with }

theorem fetchValues_latched (prec : BigselRecord V) (env : Env V) : Latched prec (fetchValues env prec).1 := by
  unfold fetchValues
  split
  · have linked := linkAlarm_latched { prec with seln := (prec.nvl.get env.ushort prec.seln).2 }
      (prec.nvl.get env.ushort prec.seln).1
    have alarmed : Latched prec (linkAlarm { prec with seln := (prec.nvl.get env.ushort prec.seln).2 }
        (prec.nvl.get env.ushort prec.seln).1) := { linked with }
    dsimp only
    split
    · exact alarmed
    · exact alarmed.trans (fetchValue_latched _ env _)
  · have all (is : List Nat) (done : BigselRecord V × Bool) (latched : Latched prec done.1) :
        Latched prec (is.foldl (fun done i => fetchValue env done.1 i) done).1 := by
      induction is generalizing done with
      | nil => exact latched
      | cons i is ih => exact ih _ (latched.trans (fetchValue_latched done.1 env i))
    exact all _ _ (.refl prec)

variable (fp : Double V)

theorem doSel_latched (prec : BigselRecord V) : Latched prec (doSel fp prec) := by
  unfold doSel
  split
  · exact setSevr_latched prec .soft .invalid
  · exact ⟨rfl, rfl, rfl, rfl, rfl⟩

theorem checkLimit_latched (stat : Alarm) (asev : Severity) (alev : V) (beyond : V → Bool) (back : V) :
    ∀ done ∈ checkLimit fp prec stat asev alev beyond back, Latched prec done := by
  intro done applies
  unfold checkLimit at applies
  split at applies
  · cases applies
    have raised := setSevr_latched prec stat asev
    dsimp only
    split
    · exact { raised with }
    · exact raised
  · cases applies

theorem or_latched {first second : Option (BigselRecord V)} (ofFirst : ∀ done ∈ first, Latched prec done)
    (ofSecond : ∀ done ∈ second, Latched prec done) : ∀ done ∈ first.or second, Latched prec done := by
  cases first with
  | none => exact ofSecond
  | some done => exact ofFirst

theorem checkAlarms_latched (prec : BigselRecord V) : Latched prec (checkAlarms fp prec) := by
  unfold checkAlarms
  split
  · exact setSevr_latched prec .udf prec.udfs
  · dsimp only
    have limits : ∀ done ∈ _, Latched prec done := or_latched (checkLimit_latched fp .hihi prec.hhsv prec.hihi
        (fun limit => fp.le limit prec.val) (fp.sub prec.hihi prec.hyst)) <|
      or_latched (checkLimit_latched fp .lolo prec.llsv prec.lolo
        (fun limit => fp.le prec.val limit) (fp.add prec.lolo prec.hyst)) <|
      or_latched (checkLimit_latched fp .high prec.hsv prec.high
        (fun limit => fp.le limit prec.val) (fp.sub prec.high prec.hyst)) <|
      checkLimit_latched fp .low prec.lsv prec.low
        (fun limit => fp.le prec.val limit) (fp.add prec.low prec.hyst)
    generalize (checkLimit fp prec .hihi _ _ _ _).or _ = limit at limits ⊢
    cases limit with
    | none => exact ⟨rfl, rfl, rfl, rfl, rfl⟩
    | some done => exact limits done rfl

/-- The monitors of the inputs, n of them looked at. -/
structure InputsPosted (n : Nat) (prec prec' : BigselRecord V) : Prop where
  value : prec'.value = prec.value
  val : prec'.val = prec.val
  seln : prec'.seln = prec.seln
  mdel : prec'.mdel = prec.mdel
  mlst : prec'.mlst = prec.mlst
  nlst : prec'.nlst = prec.nlst
  prev : ∀ i, prec'.prev i =
    if i < n ∧ fp.eq (prec.value i) (prec.prev i) = false then prec.value i else prec.prev i
  posted : ∀ f, f ∈ prec'.posted ↔
    f ∈ prec.posted ∨ ∃ i < n, f = .input i ∧ fp.eq (prec.value i) (prec.prev i) = false

theorem postInputs_posted (prec : BigselRecord V) (n : Nat) :
    InputsPosted fp n prec ((List.range n).foldl (postInput fp) prec) := by
  induction n with
  | zero => exact ⟨rfl, rfl, rfl, rfl, rfl, rfl, fun i => by simp, fun f => by simp⟩
  | succ n ih =>
    rw [List.range_succ, List.foldl_append, List.foldl_cons, List.foldl_nil]
    generalize (List.range n).foldl (postInput fp) prec = before at ih
    have here : before.prev n = prec.prev n := by simp [ih.prev]
    have looked : fp.eq (before.value n) (before.prev n) = fp.eq (prec.value n) (prec.prev n) := by
      rw [ih.value, here]
    unfold postInput
    rw [looked]
    cases same : fp.eq (prec.value n) (prec.prev n) with
    | true =>
      rw [if_pos rfl]
      refine { ih with prev := fun i => ?_, posted := fun f => ?_ }
      · rw [ih.prev]
        by_cases last : i = n
        · subst last
          simp [same]
        · have bound : i < n ↔ i < n + 1 := by omega
          exact if_congr (and_congr_left fun _ => bound) rfl rfl
      · rw [ih.posted]
        refine or_congr_right ⟨?_, ?_⟩
        · rintro ⟨i, low, rest⟩
          exact ⟨i, by omega, rest⟩
        · rintro ⟨i, low, rfl, differs⟩
          refine ⟨i, ?_, rfl, differs⟩
          have other : i ≠ n := by
            rintro rfl
            rw [same] at differs
            cases differs
          omega
    | false =>
      rw [if_neg (by decide)]
      refine { ih with prev := fun i => ?_, posted := fun f => ?_ }
      · show Function.update before.prev n (before.value n) i = _
        by_cases last : i = n
        · subst last
          simp [same, ih.value]
        · have bound : i < n ↔ i < n + 1 := by omega
          rw [Function.update_of_ne last, ih.prev]
          exact if_congr (and_congr_left fun _ => bound) rfl rfl
      · rw [List.mem_append, ih.posted, List.mem_singleton, or_assoc]
        refine or_congr_right ⟨?_, ?_⟩
        · rintro (⟨i, low, rest⟩ | rfl)
          · exact ⟨i, by omega, rest⟩
          · exact ⟨n, by omega, rfl, same⟩
        · rintro ⟨i, low, rfl, differs⟩
          by_cases last : i = n
          · exact .inr (by rw [last])
          · exact .inl ⟨i, by omega, rfl, differs⟩

/-- What `monitor` does before it looks at the inputs. -/
structure ResultPosted (prec prec' : BigselRecord V) : Prop where
  value : prec'.value = prec.value
  val : prec'.val = prec.val
  seln : prec'.seln = prec.seln
  mdel : prec'.mdel = prec.mdel
  prev : prec'.prev = prec.prev
  mlst : prec'.mlst = if fp.exceeds prec.mlst prec.val prec.mdel = true then prec.val else prec.mlst
  nlst : prec'.nlst = prec.seln
  changed : fp.exceeds prec.mlst prec.val prec.mdel = true → .val ∈ prec'.posted
  index : prec.nlst ≠ prec.seln → .seln ∈ prec'.posted

theorem monitor_posted (prec : BigselRecord V) :
    ∃ base, ResultPosted fp prec base ∧ InputsPosted fp selMax base (monitor fp prec) := by
  unfold monitor
  refine ⟨_, ?_, postInputs_posted fp _ selMax⟩
  dsimp only [resetAlarms]
  cases exceeded : fp.exceeds prec.mlst prec.val prec.mdel with
  | true =>
    by_cases index : prec.nlst ≠ prec.seln
    · rw [if_pos index]
      exact ⟨rfl, rfl, rfl, rfl, rfl, by simp [exceeded], rfl, fun _ => by simp, fun _ => by simp⟩
    · rw [if_neg index]
      exact ⟨rfl, rfl, rfl, rfl, rfl, by simp [exceeded], not_not.mp index, fun _ => by simp,
        fun differs => absurd differs index⟩
  | false =>
    by_cases index : prec.nlst ≠ prec.seln
    · rw [if_pos index]
      exact ⟨rfl, rfl, rfl, rfl, rfl, by simp [exceeded], rfl, by simp [exceeded], fun _ => by simp⟩
    · rw [if_neg index]
      exact ⟨rfl, rfl, rfl, rfl, rfl, by simp [exceeded], not_not.mp index, by simp [exceeded],
        fun differs => absurd differs index⟩

variable {fp} {zero : V} (lawful : Lawful fp zero)
include lawful

/-- Every field is settled, and what the record takes for the last that was posted is so, or has not changed. -/
theorem monitor_settled (f : Post) (deadband : f = .val → prec.mdel = zero) (known : Known f) :
    Settled fp (monitor fp prec) f ∧ (f ∉ (monitor fp prec).posted → Kept prec (monitor fp prec) f) := by
  obtain ⟨base, result, inputs⟩ := monitor_posted fp prec
  have stays : f ∈ base.posted → f ∈ (monitor fp prec).posted := fun there => (inputs.posted f).mpr (.inl there)
  cases f with
  | val =>
    have mlst := inputs.mlst.trans result.mlst
    have val := inputs.val.trans result.val
    rw [deadband rfl] at mlst
    unfold Settled Kept
    cases exceeded : fp.exceeds prec.mlst prec.val zero with
    | true =>
      rw [exceeded, if_pos rfl] at mlst
      refine ⟨?_, fun silent => absurd (stays (result.changed (by rw [deadband rfl, exceeded]))) silent⟩
      rw [val, mlst]
      exact lawful.alike_refl prec.val
    | false =>
      rw [exceeded, if_neg (by decide)] at mlst
      refine ⟨?_, fun _ => mlst⟩
      rw [val, mlst]
      exact lawful.alike_symm ((lawful.exceeds prec.mlst prec.val).mp exceeded)
  | seln =>
    have nlst := inputs.nlst.trans result.nlst
    refine ⟨(inputs.seln.trans result.seln).trans nlst.symm, fun silent => nlst.trans ?_⟩
    by_contra differs
    exact silent (stays (result.index fun same => differs same.symm))
  | input i =>
    have low : i < selMax := known
    have value : (monitor fp prec).value i = base.value i := congrFun inputs.value i
    have prev := inputs.prev i
    cases same : fp.eq (base.value i) (base.prev i) with
    | true =>
      rw [same, if_neg (by simp)] at prev
      refine ⟨?_, fun _ => prev.trans (congrFun result.prev i)⟩
      show Alike fp ((monitor fp prec).value i) ((monitor fp prec).prev i)
      rw [value, prev]
      exact .inl same
    | false =>
      rw [same, if_pos ⟨low, rfl⟩] at prev
      refine ⟨?_, fun silent => absurd ((inputs.posted _).mpr (.inr ⟨i, low, rfl, same⟩)) silent⟩
      show Alike fp ((monitor fp prec).value i) ((monitor fp prec).prev i)
      rw [value, prev]
      exact lawful.alike_refl (base.value i)

end Parts

section Run
variable {V : Type} {fp : Double V} {zero : V}

theorem process_eq_monitor (fp : Double V) (prec : BigselRecord V) (env : Env V) :
    ∃ before, process fp prec env = monitor fp before ∧ Latched prec before := by
  have fetched := fetchValues_latched prec env
  unfold process
  generalize fetchValues env prec = got at fetched ⊢
  obtain ⟨reached, status⟩ := got
  cases status with
  | true => exact ⟨_, rfl, (fetched.trans (doSel_latched fp reached)).trans (checkAlarms_latched fp _)⟩
  | false => exact ⟨_, rfl, fetched.trans (checkAlarms_latched fp reached)⟩

theorem Kept.of_latched {prec before prec' : BigselRecord V} (latched : Latched prec before) {f : Post}
    (kept : Kept before prec' f) : Kept prec prec' f := by
  cases f with
  | val => exact Eq.trans kept latched.mlst
  | seln => exact Eq.trans kept latched.nlst
  | input i => exact Eq.trans kept (congrFun latched.prev i)

theorem process_mdel (fp : Double V) (prec : BigselRecord V) (env : Env V) :
    (process fp prec env).mdel = prec.mdel := by
  obtain ⟨before, same, latched⟩ := process_eq_monitor fp prec env
  obtain ⟨base, result, inputs⟩ := monitor_posted fp before
  rw [same]
  exact (inputs.mdel.trans result.mdel).trans latched.mdel

theorem process_settled (lawful : Lawful fp zero) (prec : BigselRecord V) (env : Env V) (f : Post)
    (deadband : f = .val → prec.mdel = zero) (known : Known f) :
    Settled fp (process fp prec env) f ∧ (f ∉ (process fp prec env).posted → Kept prec (process fp prec env) f) := by
  obtain ⟨before, same, latched⟩ := process_eq_monitor fp prec env
  rw [same]
  obtain ⟨settled, kept⟩ := monitor_settled lawful f (fun result => latched.mdel.trans (deadband result)) known
  exact ⟨settled, fun silent => (kept silent).of_latched latched⟩

/-! What arrives. -/

theorem receive_got (prec : BigselRecord V) (client : Client V) (f : Post) : Got prec (receive prec client f) f := by
  cases f with
  | val => rfl
  | seln => rfl
  | input i => exact Function.update_self ..

def Unchanged (client client' : Client V) : Post → Prop
  | .val => client'.val = client.val
  | .seln => client'.seln = client.seln
  | .input i => client'.input i = client.input i

theorem receive_unchanged (prec : BigselRecord V) (client : Client V) {f g : Post} (other : g ≠ f) :
    Unchanged client (receive prec client g) f := by
  cases g with
  | val => cases f <;> first | exact absurd rfl other | rfl
  | seln => cases f <;> first | exact absurd rfl other | rfl
  | input i =>
    cases f with
    | val => rfl
    | seln => rfl
    | input j =>
      have apart : j ≠ i := by
        rintro rfl
        exact other rfl
      exact Function.update_of_ne apart ..

theorem Got.unchanged {prec : BigselRecord V} {client client' : Client V} {f : Post} (got : Got prec client f)
    (same : Unchanged client client' f) : Got prec client' f := by
  cases f <;> exact Eq.trans same got

theorem Unchanged.trans {client client' client'' : Client V} {f : Post} (first : Unchanged client client' f)
    (second : Unchanged client' client'' f) : Unchanged client client'' f := by
  cases f <;> exact Eq.trans second first

/-- A field that was posted has arrived, any other is as it was. -/
theorem received (prec : BigselRecord V) (client : Client V) (posts : List Post) (f : Post) :
    (f ∈ posts → Got prec (posts.foldl (receive prec) client) f) ∧
      (f ∉ posts → Unchanged client (posts.foldl (receive prec) client) f) := by
  induction posts using List.reverseRecOn with
  | nil => exact ⟨fun member => absurd member List.not_mem_nil, fun _ => by cases f <;> rfl⟩
  | append_singleton posts last ih =>
    rw [List.foldl_append, List.foldl_cons, List.foldl_nil, List.mem_append, List.mem_singleton]
    by_cases same : last = f
    · subst same
      exact ⟨fun _ => receive_got prec _ last, fun absent => absurd (.inr rfl) absent⟩
    · have aside := receive_unchanged prec (posts.foldl (receive prec) client) same
      refine ⟨fun member => ?_, fun absent => ?_⟩
      · exact (ih.1 (member.resolve_right fun equal => same equal.symm)).unchanged aside
      · exact (ih.2 fun member => absent (.inl member)).trans aside

/-! A run. -/

variable (lawful : Lawful fp zero)
include lawful

theorem Got.current {prec : BigselRecord V} {client : Client V} {f : Post} (got : Got prec client f) :
    Current fp prec client f := by
  cases f with
  | val =>
    show Alike fp prec.val client.val
    rw [show client.val = prec.val from got]
    exact lawful.alike_refl prec.val
  | seln => exact Eq.symm got
  | input i =>
    show Alike fp (prec.value i) (client.input i)
    rw [show client.input i = prec.value i from got]
    exact lawful.alike_refl (prec.value i)

/-- Where the record takes the field for posted, the client is up to date exactly if it has what was posted last. -/
theorem current_iff_sent {prec : BigselRecord V} {client : Client V} {f : Post} (settled : Settled fp prec f) :
    Current fp prec client f ↔ Sent fp prec client f := by
  cases f with
  | val => exact ⟨lawful.alike_trans (lawful.alike_symm settled), lawful.alike_trans settled⟩
  | seln => exact ⟨Eq.trans (Eq.symm settled), Eq.trans settled⟩
  | input i => exact ⟨lawful.alike_trans (lawful.alike_symm settled), lawful.alike_trans settled⟩

/-- A client that has just got a field has what was posted last exactly if the record takes the field for posted. -/
theorem sent_iff_settled {prec : BigselRecord V} {client : Client V} {f : Post} (got : Got prec client f) :
    Sent fp prec client f ↔ Settled fp prec f := by
  cases f with
  | val =>
    show Alike fp prec.mlst client.val ↔ Alike fp prec.val prec.mlst
    rw [show client.val = prec.val from got]
    exact ⟨lawful.alike_symm, lawful.alike_symm⟩
  | seln =>
    show prec.nlst = client.seln ↔ prec.seln = prec.nlst
    rw [show client.seln = prec.seln from got]
    exact eq_comm
  | input i =>
    show Alike fp (prec.prev i) (client.input i) ↔ Alike fp (prec.value i) (prec.prev i)
    rw [show client.input i = prec.value i from got]
    exact ⟨lawful.alike_symm, lawful.alike_symm⟩

omit lawful in
theorem sent_congr {prec prec' : BigselRecord V} {client client' : Client V} {f : Post} (kept : Kept prec prec' f)
    (same : Unchanged client client' f) : Sent fp prec' client' f ↔ Sent fp prec client f := by
  cases f with
  | val =>
    show Alike fp prec'.mlst client'.val ↔ _
    rw [show prec'.mlst = prec.mlst from kept, show client'.val = client.val from same]
    rfl
  | seln =>
    show prec'.nlst = client'.seln ↔ _
    rw [show prec'.nlst = prec.nlst from kept, show client'.seln = client.seln from same]
    rfl
  | input i =>
    show Alike fp (prec'.prev i) (client'.input i) ↔ _
    rw [show prec'.prev i = prec.prev i from kept, show client'.input i = client.input i from same]
    rfl

/-- What the client has got of a field, since a time when it may or may not have had what was posted last. -/
structure Inv (fp : Double V) (zero : V) (f : Post) (had : Prop) (s : State V) : Prop where
  deadband : f = .val → s.prec.mdel = zero
  sent : Sent fp s.prec s.client f ↔ f ∈ s.log ∨ had

theorem process_inv {f : Post} (known : Known f) {had : Prop} {s : State V} (inv : Inv fp zero f had s)
    (env : Env V) (s' : State V) (taken : step fp s (.process env) = some s') :
    Inv fp zero f had s' ∧ Settled fp s'.prec f := by
  cases taken
  obtain ⟨settled, kept⟩ := process_settled lawful { s.prec with posted := [] } env f inv.deadband known
  have arrived := received (process fp { s.prec with posted := [] } env) s.client
    (process fp { s.prec with posted := [] } env).posted f
  refine ⟨⟨fun result => (process_mdel fp _ env).trans (inv.deadband result), ?_⟩, settled⟩
  dsimp only
  rw [List.mem_append]
  by_cases member : f ∈ (process fp { s.prec with posted := [] } env).posted
  · have current := (arrived.1 member).current lawful
    exact iff_of_true ((current_iff_sent lawful settled).mp current) (.inl (.inr member))
  · have same : Kept s.prec (process fp { s.prec with posted := [] } env) f := by
      cases f <;> exact kept member
    rw [sent_congr same (arrived.2 member), inv.sent, or_iff_left member]

omit lawful in
theorem put_inv {f : Post} {had : Prop} {s s' : State V} (inv : Inv fp zero f had s) (a : Action V)
    (put : ∀ env, a ≠ .process env) (aside : ¬ Puts a f) (taken : step fp s a = some s') :
    Inv fp zero f had s' := by
  cases a with
  | process env => exact absurd rfl (put env)
  | putInput i v =>
    cases taken
    have other : Post.input i ≠ f := by
      rintro rfl
      exact aside rfl
    refine ⟨inv.deadband, ?_⟩
    have same : Kept s.prec { s.prec with value := Function.update s.prec.value i v } f := by cases f <;> rfl
    exact (sent_congr same (receive_unchanged _ s.client other)).trans inv.sent
  | putSeln n =>
    cases taken
    have other : Post.seln ≠ f := by
      rintro rfl
      exact aside trivial
    refine ⟨inv.deadband, ?_⟩
    have same : Kept s.prec { s.prec with seln := n } f := by cases f <;> rfl
    exact (sent_congr same (receive_unchanged _ s.client other)).trans inv.sent

theorem run_inv {f : Post} (known : Known f) {had : Prop} {s s' : State V} (inv : Inv fp zero f had s)
    (actions : List (Action V)) (aside : ∀ a ∈ actions, ¬ Puts a f)
    (reached : Transition.run (step fp) s actions = some s') : Inv fp zero f had s' := by
  refine Transition.run_invariant_of _ _ (Inv fp zero f had) ?_ inv aside reached
  intro t a t' inv aside taken
  cases a with
  | process env => exact (process_inv lawful known inv env t' taken).1
  | putInput i v => exact put_inv inv _ (by simp) aside taken
  | putSeln n => exact put_inv inv _ (by simp) aside taken

/-- A client has just got a field, by connecting or from a put. Whatever happens then, a put to this field apart:
when the record has been processed, the client is up to date exactly if the record has posted the field since, or had
taken it for posted before. A processed record takes all its fields for posted. -/
theorem current_iff (prec : BigselRecord V) (client : Client V) (f : Post)
    (deadband : f = .val → prec.mdel = zero) (known : Known f) (got : Got prec client f) (actions : List (Action V))
    (aside : ∀ a ∈ actions, ¬ Puts a f)
    (env : Env V) (s : State V)
    (reached : Transition.run (step fp) ⟨prec, client, []⟩ (actions ++ [.process env]) = some s) :
    (Current fp s.prec s.client f ↔ f ∈ s.log ∨ Settled fp prec f) ∧ Settled fp s.prec f := by
  have start : Inv fp zero f (Settled fp prec f) ⟨prec, client, []⟩ :=
    ⟨deadband, (sent_iff_settled lawful got).trans (by simp)⟩
  obtain ⟨before, last, first, taken, done⟩ := Transition.run_middle (step fp) reached
  cases done
  obtain ⟨inv, settled⟩ := process_inv lawful known (run_inv lawful known start actions aside first) env _ taken
  exact ⟨(current_iff_sent lawful settled).trans inv.sent, settled⟩

end Run

open Ipimb.Selection (bytes five)

theorem bytes_lawful (zero : Option (BitVec 8)) : Lawful bytes zero where
  self v number := by
    cases v with
    | none => cases number
    | some v => simp [bytes]
  symm v w equal := by
    simp only [bytes, Bool.and_eq_true, decide_eq_true_eq] at equal ⊢
    exact ⟨equal.1.symm, equal.1 ▸ equal.2⟩
  trans u v w first second := by
    simp only [bytes, Bool.and_eq_true, decide_eq_true_eq] at first second ⊢
    exact ⟨first.1.trans second.1, first.2⟩
  number v w equal := by
    simp only [bytes, Bool.and_eq_true, decide_eq_true_eq] at equal ⊢
    simpa using equal.2
  exceeds v w := by
    cases v <;> cases w <;> simp [bytes, Alike]

/-! A value that comes back. -/

/-- All inputs are linked, a 3 was posted last, and somebody has written a 7. -/
def written : BigselRecord (Option (BitVec 8)) :=
  { five .highSignal with inp := fun _ => .db "X", value := fun _ => some 7#8, prev := fun _ => some 3#8 }

def notInput : Post → Bool
  | .input _ => false
  | _ => true

def back : Env (Option (BitVec 8)) := ⟨fun _ => none, fun _ => some (some 3#8)⟩

def after : BigselRecord (Option (BitVec 8)) := process bytes { written with posted := [] } back

theorem after_posted (i : Nat) : .input i ∉ after.posted := by
  have noInput : after.posted.all notInput = true := by decide +kernel
  intro posted
  cases List.all_eq_true.mp noInput (.input i) posted

/-- And a client keeps the 7. -/
theorem current_iff_missed :
    ∃ s, Transition.run (step bytes) ⟨written, ⟨none, 0#16, written.value⟩, []⟩ ([] ++ [.process back]) = some s ∧
      ¬ Current bytes s.prec s.client (.input 0) := by
  refine ⟨⟨after, after.posted.foldl (receive after) ⟨none, 0#16, written.value⟩, [] ++ after.posted⟩, rfl, ?_⟩
  intro current
  have exactly := (current_iff (bytes_lawful (some 0#8)) written ⟨none, 0#16, written.value⟩ (.input 0) (by simp)
    (by decide : 0 < selMax) rfl [] (by simp) back
    ⟨after, after.posted.foldl (receive after) ⟨none, 0#16, written.value⟩, [] ++ after.posted⟩ rfl).1
  rcases exactly.mp current with posted | settled
  · dsimp only at posted
    rw [List.nil_append] at posted
    exact after_posted 0 posted
  · have differs : ¬ Alike bytes (some 7#8) (some 3#8) := by
      simp [Alike, bytes]
    exact differs settled

end Ipimb.Monitors
