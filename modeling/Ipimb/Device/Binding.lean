import Ipimb.Device.Shell
import Ipimb.Library.Scanning
import Ipimb.Queue.Data

/-!
From the text of a link to a channel of a device. Device support scans the link of a record for the name of a box,
a channel and a parameter; the beam line data scan the same text, with its at sign, for the name alone.
-/

namespace Ipimb.Binding

open Scanning
open Ipimb.Shell (Device State ipimbFindDeviceByName)
open Ipimb.DataQueue (IpimbFunc)

variable {Addr : Type}

def maxCaStringSize : Nat := 40

def paramMap : List (String × IpimbFunc) := [("DATA", .aiData), ("PS", .aiPs)]

inductive Refused where
  | format
  | notRegistered
  | outOfRange
  | param
  /-- A name that does not fit into its buffer, a channel that is no int, or no lock for the device list. -/
  | undefined
  deriving DecidableEq

structure DevData (Addr : Type) where
  pdevice : Device Addr
  chnlnum : Fin 4
  funcflag : IpimbFunc

def notColon (c : Char) : Bool := c != ':'

def ioFormat : List Directive :=
  [.set notColon maxCaStringSize, .char ':', .int, .char ':', .set notColon maxCaStringSize]

def lookUp (s : State Addr) (boxname : String) (chnlnum : Int) (param : String) :
    Except Refused (DevData Addr) :=
  match ipimbFindDeviceByName s boxname with
  | .error _ => .error .undefined
  | .ok none => .error .notRegistered
  | .ok (some pdevice) =>
      if inside : 0 ≤ chnlnum ∧ chnlnum ≤ 3 then
        match paramMap.find? fun entry => param == entry.1 with
        | none => .error .param
        | some entry => .ok ⟨pdevice, ⟨chnlnum.toNat, by omega⟩, entry.2⟩
      else .error .outOfRange

/-- `IPIMB_DevData_Init`. Records and their links are never null. -/
def ipimbDevDataInit (bare : Bool) (s : State Addr) (ioString : String) :
    Except Refused (DevData Addr) :=
  match scan bare ioFormat ioString.toList with
  | none => .error .undefined
  | some [.text boxname, .int chnlnum, .text param] => lookUp s (.ofList boxname) chnlnum (.ofList param)
  | some _ => .error .format

inductive Link where
  | instIo (string : String)
  | other

structure Rec (Addr : Type) where
  dpvt : Option (DevData Addr)
  pact : Bool

/-- `init_ai` and `init_bi`; nothing is known where the scan of the link or the look-up is undefined. -/
def initRecord (bare : Bool) (s : State Addr) (inp : Link) (r : Rec Addr) : Option (Rec Addr × Bool) :=
  match inp with
  | .other => some ({ r with dpvt := none, pact := true }, false)
  | .instIo string =>
      match ipimbDevDataInit bare s string with
      | .error .undefined => none
      | .error _ => some ({ r with dpvt := none, pact := true }, false)
      | .ok devdata => some ({ r with dpvt := some devdata }, true)

def pvFormat : List Directive := [.char '@', .set notColon 64, .char ':']

/-- The device `ipimbSetPv` copies from; nothing is known where no name is stored. -/
def pvDevice (bare : Bool) (s : State Addr) (pvValue : String) : Option (Option (Device Addr)) :=
  match scan bare pvFormat pvValue.toList with
  | some [.text name] => (ipimbFindDeviceByName s (.ofList name)).toOption
  | _ => none

/-! The texts. -/

def Word (word : List Char) : Prop := word ≠ [] ∧ ':' ∉ word

/-- A name, a number and a parameter between colons; behind a further colon there may be anything. -/
structure Written (bare : Bool) (text name : List Char) (number : Int) (param : List Char) : Prop where
  nameWord : Word name
  paramWord : Word param
  split : ∃ numeral rest, text = name ++ ':' :: (numeral ++ ':' :: (param ++ rest)) ∧ Numeral bare numeral number ∧
    ∀ c ∈ rest.head?, c = ':'

theorem word_iff (word : List Char) : Word word ↔ (∀ c ∈ word, notColon c = true) ∧ word ≠ [] := by
  unfold Word notColon
  rw [and_comm]
  refine and_congr_left fun _ => ⟨?_, ?_⟩
  · intro absent c member
    refine bne_iff_ne.mpr ?_
    rintro rfl
    exact absent member
  · intro all member
    exact absurd (all _ member) (by decide)

theorem ends_notColon_iff (rest : List Char) : Ends notColon rest ↔ ∀ c ∈ rest.head?, c = ':' := by
  refine forall_congr' fun c => imp_congr_right fun _ => ?_
  simp [notColon]

theorem apart_colon (rest : List Char) : Apart (':' :: rest) := by
  intro c first
  cases first
  decide

theorem scan_ioFormat_iff (bare : Bool) (text : List Char) (stored : List Stored) (three : stored.length = 3) :
    scan bare ioFormat text = some stored ↔
      ∃ name number param, stored = [.text name, .int number, .text param] ∧ Written bare text name number param ∧
        bytes name < maxCaStringSize ∧ Fits number ∧ bytes param < maxCaStringSize := by
  obtain ⟨first, second, third, rfl⟩ := List.length_eq_three.mp three
  rw [ioFormat, scan_set_iff]
  constructor
  · intro scanned
    obtain ⟨name, afterName, rfl, allName, -, present, shortName, rfl, colonNext⟩ := scanned
    obtain ⟨atNumber, rfl, numberNext⟩ := scan_char_iff.mp colonNext
    obtain ⟨number, afterNumber, read, fits, rfl, colonNext'⟩ := scan_int_iff.mp numberNext
    obtain ⟨atParam, rfl, paramNext⟩ := scan_char_iff.mp colonNext'
    obtain ⟨numeral, rfl, writtenNumber⟩ := (scanInt_iff (apart_colon atParam)).mp read
    obtain ⟨param, rest, rfl, allParam, ends, presentParam, shortParam, rfl, -⟩ := scan_set_iff.mp paramNext
    refine ⟨name, number, param, rfl, ?_, shortName, fits, shortParam⟩
    exact {
      nameWord := (word_iff name).mpr ⟨allName, present⟩
      paramWord := (word_iff param).mpr ⟨allParam, presentParam⟩
      split := ⟨numeral, rest, rfl, writtenNumber, (ends_notColon_iff rest).mp ends⟩ }
  · intro there
    obtain ⟨name, number, param, same, written, shortName, fits, shortParam⟩ := there
    cases same
    obtain ⟨numeral, rest, rfl, writtenNumber, ends⟩ := written.split
    obtain ⟨allName, present⟩ := (word_iff name).mp written.nameWord
    obtain ⟨allParam, presentParam⟩ := (word_iff param).mp written.paramWord
    refine ⟨name, _, rfl, allName, ?_, present, shortName, rfl, ?_⟩
    · exact (ends_notColon_iff _).mpr fun c first => (Option.some.inj first).symm
    · refine scan_char_iff.mpr ⟨_, rfl, scan_int_iff.mpr ⟨number, ':' :: (param ++ rest), ?_, fits, rfl, ?_⟩⟩
      · exact (scanInt_iff (apart_colon (param ++ rest))).mpr ⟨numeral, rfl, writtenNumber⟩
      · refine scan_char_iff.mpr ⟨_, rfl, ?_⟩
        refine scan_set_iff.mpr ⟨param, rest, rfl, allParam, ?_, presentParam, shortParam, rfl, rfl⟩
        exact (ends_notColon_iff rest).mpr ends

def paramText : IpimbFunc → String
  | .aiData => "DATA"
  | .aiPs => "PS"

theorem paramMap_find_iff (param : String) (entry : String × IpimbFunc) :
    (paramMap.find? fun entry => param == entry.1) = some entry ↔ param = paramText entry.2 ∧ param = entry.1 := by
  rw [Shell.find_key Prod.fst paramMap (by decide)]
  obtain ⟨text, funcflag⟩ := entry
  refine and_congr_left fun same => ?_
  simp only [paramMap, List.mem_cons, List.not_mem_nil, or_false, Prod.mk.injEq]
  dsimp only at same
  subst same
  cases funcflag <;> simp [paramText]

theorem lookUp_iff (s : State Addr) (boxname : String) (chnlnum : Int) (param : String)
    (devdata : DevData Addr) :
    lookUp s boxname chnlnum param = .ok devdata ↔
      ipimbFindDeviceByName s boxname = .ok (some devdata.pdevice) ∧ chnlnum = devdata.chnlnum.val ∧
        param = paramText devdata.funcflag := by
  unfold lookUp
  constructor
  · intro accepted
    split at accepted
    · cases accepted
    · cases accepted
    · rename_i pdevice found
      split at accepted
      · rename_i inside
        split at accepted
        · cases accepted
        · rename_i entry word
          cases accepted
          exact ⟨found, (Int.toNat_of_nonneg inside.1).symm, ((paramMap_find_iff param entry).mp word).1⟩
      · cases accepted
  · intro named
    obtain ⟨pdevice, chnlnum, funcflag⟩ := devdata
    obtain ⟨found, rfl, rfl⟩ := named
    have small := chnlnum.isLt
    have inside : 0 ≤ (chnlnum.val : Int) ∧ (chnlnum.val : Int) ≤ 3 := by omega
    have word := (paramMap_find_iff (paramText funcflag) (paramText funcflag, funcflag)).mpr ⟨rfl, rfl⟩
    simp only [found, dif_pos inside, word]
    rfl

/-- A record gets a device, a channel and a function exactly if its link names them and everything fits. -/
theorem init_ok_iff (bare : Bool) (s : State Addr) (ioString : String) (devdata : DevData Addr) :
    ipimbDevDataInit bare s ioString = .ok devdata ↔
      ∃ name, Written bare ioString.toList name devdata.chnlnum.val (paramText devdata.funcflag).toList ∧
        bytes name < maxCaStringSize ∧ ipimbFindDeviceByName s (.ofList name) = .ok (some devdata.pdevice) := by
  constructor
  · intro accepted
    unfold ipimbDevDataInit at accepted
    split at accepted
    · cases accepted
    · rename_i boxname chnlnum param scanned
      obtain ⟨_, _, _, same, written, short, -, -⟩ := (scan_ioFormat_iff bare _ _ rfl).mp scanned
      cases same
      obtain ⟨found, number, word⟩ := (lookUp_iff s _ _ _ devdata).mp accepted
      rw [← number, ← word, String.toList_ofList]
      exact ⟨boxname, written, short, found⟩
    · cases accepted
  · intro named
    obtain ⟨name, written, short, found⟩ := named
    have fits : Fits (devdata.chnlnum.val : Int) := by
      have small := devdata.chnlnum.isLt
      unfold Fits
      omega
    have shortParam : bytes (paramText devdata.funcflag).toList < maxCaStringSize := by
      cases devdata.funcflag <;> decide
    rw [ipimbDevDataInit, (scan_ioFormat_iff bare _ _ rfl).mpr ⟨_, _, _, rfl, written, short, fits, shortParam⟩]
    exact (lookUp_iff s _ _ _ devdata).mpr ⟨found, rfl, String.ofList_toList⟩

theorem word_run {word rest : List Char} (isWord : Word word) (ends : ∀ c ∈ rest.head?, c = ':') :
    (word ++ rest).takeWhile notColon = word ∧ (word ++ rest).dropWhile notColon = rest :=
  (run_iff notColon _ word rest).mpr ⟨rfl, ((word_iff word).mp isWord).1, (ends_notColon_iff rest).mpr ends⟩

/-- A text is read in one way. -/
theorem Written.unique {bare : Bool} {text name name' : List Char} {number number' : Int} {param param' : List Char}
    (one : Written bare text name number param) (other : Written bare text name' number' param') :
    name = name' ∧ number = number' ∧ param = param' := by
  obtain ⟨numeral, rest, split, isNumeral, ends⟩ := one.split
  obtain ⟨numeral', rest', split', isNumeral', ends'⟩ := other.split
  have colon (tail : List Char) : ∀ c ∈ (':' :: tail).head?, c = ':' := fun c first => (Option.some.inj first).symm
  have run := word_run one.nameWord (colon (numeral ++ ':' :: (param ++ rest)))
  have run' := word_run other.nameWord (colon (numeral' ++ ':' :: (param' ++ rest')))
  rw [← split] at run
  rw [← split'] at run'
  have tails : numeral ++ ':' :: (param ++ rest) = numeral' ++ ':' :: (param' ++ rest') :=
    (List.cons.inj (run.2.symm.trans run'.2)).2
  have read := (scanInt_iff (apart_colon (param ++ rest))).mpr ⟨numeral, rfl, isNumeral⟩
  have read' := (scanInt_iff (apart_colon (param' ++ rest'))).mpr ⟨numeral', rfl, isNumeral'⟩
  rw [tails, read'] at read
  obtain ⟨numbers, params⟩ := Prod.mk.inj (Option.some.inj read)
  have last := word_run one.paramWord ends
  rw [← (List.cons.inj params).2] at last
  exact ⟨run.1.symm.trans run'.1, numbers.symm, last.1.symm.trans (word_run other.paramWord ends').1⟩

/-! The records of the templates: a box, one of its channels, a parameter. -/

def channelDigit (channel : Fin 4) : Char := .ofNat (48 + channel.val)

def template (box : String) (channel : Fin 4) (funcflag : IpimbFunc) : String :=
  .ofList (box.toList ++ ':' :: channelDigit channel :: ':' :: (paramText funcflag).toList)

/-- The name of a box that its records can be bound by. -/
structure Usable (name : String) : Prop where
  word : Word name.toList
  short : bytes name.toList < maxCaStringSize

theorem channelDigit_numeral (bare : Bool) (channel : Fin 4) :
    Numeral bare [channelDigit channel] channel.val := by
  obtain ⟨n, small⟩ := channel
  rcases Nat.eq_zero_or_pos n with rfl | positive
  · exact .plain [] ['0'] _ (by simp) (.octal [] (by simp))
  · have digits : Magnitude bare [Char.ofNat (48 + n)] n := by
      interval_cases n
      · exact .decimal ['1'] (by simp) (by simp) (by simp [isDigit, digit])
      · exact .decimal ['2'] (by simp) (by simp) (by simp [isDigit, digit])
      · exact .decimal ['3'] (by simp) (by simp) (by simp [isDigit, digit])
    exact .plain [] _ n (by simp) digits

theorem template_written (bare : Bool) (box : String) (channel : Fin 4) (funcflag : IpimbFunc)
    (word : Word box.toList) :
    Written bare (template box channel funcflag).toList box.toList channel.val (paramText funcflag).toList where
  nameWord := word
  paramWord := by cases funcflag <;> exact ⟨by decide, by decide⟩
  split := by
    refine ⟨[channelDigit channel], [], ?_, channelDigit_numeral bare channel, by simp⟩
    rw [template, String.toList_ofList, List.append_nil]
    rfl

theorem find_name {s : State Addr} {name : String} {device : Device Addr}
    (found : ipimbFindDeviceByName s name = .ok (some device)) : name = device.name := by
  unfold ipimbFindDeviceByName at found
  split at found
  · have met := List.find?_some (Except.ok.inj found)
    exact beq_iff_eq.mp met
  · cases found

/-- A record gets the device its box names exactly if this name has no colon and fits. -/
theorem template_bound_iff (bare : Bool) (s : State Addr) (device : Device Addr)
    (found : ipimbFindDeviceByName s device.name = .ok (some device)) (channel : Fin 4) (funcflag : IpimbFunc) :
    ipimbDevDataInit bare s (template device.name channel funcflag) = .ok ⟨device, channel, funcflag⟩ ↔
      Usable device.name := by
  rw [init_ok_iff]
  constructor
  · intro bound
    obtain ⟨name, written, short, same⟩ := bound
    have named : String.ofList name = device.name := find_name same
    rw [← named]
    refine ⟨?_, ?_⟩ <;> rw [String.toList_ofList]
    · exact written.nameWord
    · exact short
  · intro usable
    refine ⟨device.name.toList, template_written bare _ channel funcflag usable.word, usable.short, ?_⟩
    rw [String.ofList_toList]
    exact found

/-- The beam line data of a text are those of the device a record with this text gets. -/
theorem pvDevice_of_init (bare : Bool) (s : State Addr) (ioString : String) (devdata : DevData Addr)
    (accepted : ipimbDevDataInit bare s ioString = .ok devdata) :
    pvDevice bare s (.ofList ('@' :: ioString.toList)) = some (some devdata.pdevice) := by
  obtain ⟨name, written, short, found⟩ := (init_ok_iff bare s ioString devdata).mp accepted
  obtain ⟨numeral, rest, split, -, -⟩ := written.split
  obtain ⟨all, present⟩ := (word_iff name).mp written.nameWord
  have scanned : scan bare [.char '@', .set notColon 64] ('@' :: ioString.toList) = some [.text name] := by
    refine scan_char_iff.mpr ⟨_, rfl, scan_set_iff.mpr ⟨name, _, split, all, ?_, present, ?_, rfl, rfl⟩⟩
    · exact (ends_notColon_iff _).mpr fun c first => (Option.some.inj first).symm
    · exact short.trans (by decide)
  have whole : scan bare pvFormat ('@' :: ioString.toList) = some [.text name] :=
    (scan_concat_char [.char '@', .set notColon 64] ':').trans scanned
  rw [pvDevice, String.toList_ofList, whole]
  exact congrArg Except.toOption found

/-- A record is left active exactly if it got a device, and then its link names this device. -/
structure Initialized (bare : Bool) (s : State Addr) (inp : Link) (r : Rec Addr) : Prop where
  active : r.pact = false ↔ r.dpvt ≠ none
  named : ∀ devdata, r.dpvt = some devdata →
    ∃ ioString, inp = .instIo ioString ∧ ipimbDevDataInit bare s ioString = .ok devdata

theorem initRecord_initialized (bare : Bool) (s : State Addr) (inp : Link) (r r' : Rec Addr) (ok : Bool)
    (idle : r.pact = false) (done : initRecord bare s inp r = some (r', ok)) :
    Initialized bare s inp r' := by
  have refused : Initialized bare s inp { r with dpvt := none, pact := true } :=
    ⟨by simp, fun devdata absent => by cases absent⟩
  cases inp with
  | other =>
    cases done
    exact refused
  | instIo string =>
    rw [initRecord] at done
    cases result : ipimbDevDataInit bare s string with
    | ok devdata =>
      rw [result] at done
      cases done
      refine ⟨by simp [idle], ?_⟩
      rintro _ ⟨⟩
      exact ⟨string, rfl, result⟩
    | error why =>
      rw [result] at done
      cases why <;> cases done <;> exact refused

theorem paramText_injective {f g : IpimbFunc} (same : (paramText f).toList = (paramText g).toList) : f = g := by
  cases f <;> cases g <;> first | rfl | (revert same; decide)

theorem template_named (bare : Bool) (s : State Addr) (box : String) (channel : Fin 4)
    (funcflag : IpimbFunc) (devdata : DevData Addr) (word : Word box.toList)
    (accepted : ipimbDevDataInit bare s (template box channel funcflag) = .ok devdata) :
    devdata.pdevice.name = box ∧ devdata.chnlnum = channel ∧ devdata.funcflag = funcflag := by
  obtain ⟨name, written, -, found⟩ := (init_ok_iff bare s _ devdata).mp accepted
  obtain ⟨names, numbers, params⟩ := written.unique (template_written bare box channel funcflag word)
  refine ⟨?_, Fin.ext (by exact_mod_cast numbers), paramText_injective params⟩
  rw [← find_name found, names, String.ofList_toList]

structure Bound (bare : Bool) (s : State Addr) : Prop where
  accepts : ∀ ioString devdata, ipimbDevDataInit bare s ioString = .ok devdata ↔
    ∃ name, Written bare ioString.toList name devdata.chnlnum.val (paramText devdata.funcflag).toList ∧
      bytes name < maxCaStringSize ∧ ipimbFindDeviceByName s (.ofList name) = .ok (some devdata.pdevice)
  own : ∀ device ∈ s.devices, ∀ channel funcflag,
    ipimbDevDataInit bare s (template device.name channel funcflag) = .ok ⟨device, channel, funcflag⟩ ↔
      Usable device.name
  named : ∀ box channel funcflag devdata, Word box.toList →
    ipimbDevDataInit bare s (template box channel funcflag) = .ok devdata →
      devdata.pdevice.name = box ∧ devdata.chnlnum = channel ∧ devdata.funcflag = funcflag
  beamLine : ∀ ioString devdata, ipimbDevDataInit bare s ioString = .ok devdata →
    pvDevice bare s (.ofList ('@' :: ioString.toList)) = some (some devdata.pdevice)
  initialized : ∀ inp r r' ok, r.pact = false → initRecord bare s inp r = some (r', ok) →
    Initialized bare s inp r'

section Startup

open Ipimb.Shell (script State Command Asked script_asked script_tpr)

variable (dbNameToAddr : String → Option Addr)

/-- Behind every startup script that comes to its end, the records of a box are bound to the device that was asked
for under its name, exactly if this name has no colon and fits. -/
theorem startup_bound (bare : Bool) (commands : List Command) (complete : ∀ command ∈ commands, command.Complete)
    (s : State Addr) (reached : script dbNameToAddr State.empty commands = .ok s) :
    Asked dbNameToAddr commands s ∧ Bound bare s := by
  have tpr := script_tpr dbNameToAddr commands complete s reached
  rcases script_asked dbNameToAddr commands complete tpr with suspended | ⟨t, ended, asked⟩
  · rw [reached] at suspended
    cases suspended
  · rw [reached] at ended
    cases ended
    refine ⟨asked, ?_⟩
    exact {
      accepts := init_ok_iff bare s
      own := fun device member => template_bound_iff bare s device
        ((asked.byName device.name device).mpr ⟨member, rfl⟩)
      named := template_named bare s
      beamLine := pvDevice_of_init bare s
      initialized := initRecord_initialized bare s }

end Startup

section Boxes

open Ipimb.Shell (script State tprCommand tprCommand_complete unknown)

/-- The records of the second box are refused: its name has a colon. -/
theorem startup_bound_two :
    ∃ s, script unknown State.empty [tprCommand "IPM1" "/dev/ttyPS0" 1, tprCommand "IPM:2" "/dev/ttyPS1" 1] = .ok s ∧
      ∃ first second, s.devices = [first, second] ∧
        ipimbDevDataInit true s (template "IPM1" 2 .aiPs) = .ok ⟨first, 2, .aiPs⟩ ∧
        ipimbDevDataInit true s (template "IPM:2" 2 .aiPs) ≠ .ok ⟨second, 2, .aiPs⟩ := by
  have complete : ∀ command ∈ [tprCommand "IPM1" "/dev/ttyPS0" 1, tprCommand "IPM:2" "/dev/ttyPS1" 1],
      command.Complete := by
    simp only [List.forall_mem_cons, tprCommand_complete, true_and]
    exact fun command member => absurd member List.not_mem_nil
  refine ⟨_, rfl, _, _, rfl, ?_⟩
  have bound := (startup_bound unknown true _ complete _ rfl).2
  refine ⟨(bound.own _ List.mem_cons_self 2 .aiPs).mpr ⟨⟨by decide, by decide⟩, by decide⟩, fun wrong => ?_⟩
  have usable := (bound.own _ (List.mem_cons_of_mem _ List.mem_cons_self) 2 .aiPs).mp wrong
  exact absurd usable.word.2 (by decide)

end Boxes

end Ipimb.Binding
