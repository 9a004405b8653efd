import JtagRemote.Jtagd.Access
import JtagRemote.Jtagd.Replies
import JtagRemote.Probe.Count

/-!
# Reading the registers of a chain

A client finds the devices with READ_CHAIN, loads instructions and reads the registers that
they select, with any other messages in between, and in as many ticks as it likes. The
handler that loads takes the instruction registers to be ten bits long, all of them together.
-/

namespace JtagRemote.Jtagd

open JtagState

/-! ## The chain on the cable -/

/-- A chain that the probe can count, with no empty register, whatever it held at first. -/
structure Findable (devices : List Device) (chain : Chain) : Prop where
  some : devices ≠ []
  few : devices.length < MAX_TAPS
  short : (devices.map fun dev => dev.ir_capture.length).sum ≤ MAX_TAPS * MAX_IR
  irs : ∀ dev ∈ devices, dev.ir_capture ≠ []
  data : ∀ dev ∈ devices, ∀ i, dev.data i ≠ []
  filled : chain.Filled

/-- As many bits as ACCESS_IR_2 shifts. -/
def TenBits (devices : List Device) : Prop := (devices.map fun dev => dev.ir_capture.length).sum = 10

variable {δ : Type} {d : driver δ} {devices : List Device} {tap st dst : JtagState} {chain x : Chain}

theorem Findable.drives (hdev : Findable devices chain) {log : List Cycle}
    (h : (chainBoard devices tap chain).Since [] log) : ChainDrives devices tap chain log := by
  obtain ⟨dev, rest, rfl⟩ := List.exists_cons_of_ne_nil hdev.some
  exact chainBoard_drives (hdev.irs dev List.mem_cons_self) (hdev.data dev List.mem_cons_self) hdev.filled h

/-- The driver is in order, the TAP is in `st` and the registers are `x`. -/
def Cabled (A : HandlerAdapter (chainBoard devices tap chain) d) (c : Jtag δ) (st : JtagState) (x : Chain) : Prop :=
  ∃ log level, A.Stands c.state c.dev ⟨log, level, []⟩ ∧ (chainBoard devices tap chain).Since [] log ∧
    chainRun devices tap chain log = (st, x)

section

variable {A : HandlerAdapter (chainBoard devices tap chain) d} {c : Jtag δ}

/-- A move that the table has, from where the driver and the TAP both are. -/
theorem Cabled.move (h : Cabled A c c.state x) {tms : Byte} {n : Nat}
    (hway : jtag_get_tms_seq c.state dst c = .ok (tms, n) c) (hn : 1 ≤ n) (hn' : n ≤ 8) :
    Returns (jtag_tms_seq_to d dst) c fun _ c' => ∃ cs, cs.map Cycle.tms = bitsOf [tms] n ∧
      c'.state = (chainRun devices c.state x cs).1 ∧ Cabled A c' c'.state (chainRun devices c.state x cs).2 := by
  obtain ⟨log, level, hstands, hsince, hrun⟩ := h
  have hgo : (if n > 0 then jtag_tms_seq d [tms] n else pure true) c = jtag_tms_seq d [tms] n c :=
    congrFun (if_pos hn) c
  unfold jtag_tms_seq_to
  apply Returns.get_bind
  refine Returns.of_eq_bind hway ?_
  show Returns (if n > 0 then jtag_tms_seq d [tms] n else pure true) c _
  rw [Returns, hgo]
  apply (A.tms_seq_spec [tms] hstands hn (hn'.trans (by decide)) (by simpa using hn')).mono
  rintro _ c' ⟨-, hst, ps, hps, hstands'⟩
  have htms : ((chainBoard devices tap chain).cycles log ps).map Cycle.tms = bitsOf [tms] n := by rw [cycles_tms, hps]
  have htap : c'.state = (chainRun devices c.state x ((chainBoard devices tap chain).cycles log ps)).1 := by
    rw [chainRun_tap, htms, hst]
  refine ⟨_, htms, htap, _, _, hstands', hsince.cycles ps, ?_⟩
  show chainRun devices tap chain (log ++ _) = _
  rw [chainRun_append, hrun, htap]

/-- A scan that leaves the Shift state: what the register held comes back, and then what went in. -/
theorem Cabled.scanned (hdev : Findable devices chain) {log : List Cycle} {level : Bool} {data : List Byte} {m : Nat}
    (hsince : (chainBoard devices tap chain).Since [] log) (hrun : chainRun devices tap chain log = (c.state, x))
    (hshift : c.state.isShift = true) {c' : Jtag δ} (hst : c'.state = next_state c.state true)
    (hstands : A.Stands c'.state c'.dev
      (Line.clock (chainBoard devices tap chain) ⟨log, level, []⟩ (scanPins data (m + 1) true))) :
    ((chainBoard devices tap chain).cycles log (scanPins data (m + 1) true)).map Cycle.tdo =
        ((x.path c.state).flatten ++ bitsOf data (m + 1)).take (m + 1) ∧
      ∃ x', Cabled A c' c'.state x' ∧ Shifted c.state x x' (bitsOf data (m + 1)) := by
  have hdrives := hdev.drives (hsince.cycles (scanPins data (m + 1) true))
  rw [chainDrives_append, hrun] at hdrives
  obtain ⟨htap, hshifted, houts⟩ := chain_scan devices x hshift (cycles_pins (chainBoard devices tap chain) log _)
  constructor
  · rw [houts hdrives.2, shiftOuts_eq, bitsOf_length]
  · refine ⟨_, ⟨_, _, hstands, hsince.cycles _, ?_⟩, hshifted⟩
    show chainRun devices tap chain (log ++ _) = _
    rw [chainRun_append, hrun, Prod.ext_iff, hst]
    exact ⟨htap, rfl⟩

/-! ## The instruction in effect -/

/-- The instructions with which the devices capture next, `none` for the IDCODE. -/
def Selects (devices : List Device) (x : Chain) (st : JtagState) (is : List (Option (List Bool))) : Prop :=
  match st with
  | TestLogicReset => is = devices.map fun _ => none
  | Exit1IR => x.irs.map some = is
  | _ => x.instructions = is

theorem idle_to_ir {cs : List Cycle} (h : cs.map Cycle.tms = [true, true, false, false]) :
    chainRun devices RunTestIdle x cs = (ShiftIR, { x with irs := devices.map Device.ir_capture }) := by
  simp only [List.map_eq_cons_iff, List.map_eq_nil_iff] at h
  obtain ⟨a, _, rfl, ha, b, _, rfl, hb, c, _, rfl, hc, e, _, rfl, he, rfl⟩ := h
  simp [chainRun, chainStep, next_state, ha, hb, hc, he]

theorem idle_to_dr {cs : List Cycle} (h : cs.map Cycle.tms = [true, false, false]) :
    chainRun devices RunTestIdle x cs =
      (ShiftDR, { x with drs := List.zipWith Device.captured devices x.instructions }) := by
  simp only [List.map_eq_cons_iff, List.map_eq_nil_iff] at h
  obtain ⟨a, _, rfl, ha, b, _, rfl, hb, c, _, rfl, hc, rfl⟩ := h
  simp [chainRun, chainStep, next_state, ha, hb, hc]

theorem exit_to_idle {cs : List Cycle} (hst : st = Exit1IR ∨ st = Exit1DR) (h : cs.map Cycle.tms = [true, false]) :
    chainRun devices st x cs =
      (RunTestIdle, if st = Exit1IR then { x with instructions := x.irs.map some } else x) := by
  simp only [List.map_eq_cons_iff, List.map_eq_nil_iff] at h
  obtain ⟨a, _, rfl, ha, b, _, rfl, hb, rfl⟩ := h
  rcases hst with rfl | rfl <;> simp [chainRun, chainStep, next_state, ha, hb]

/-- On the way to ShiftIR the instruction register captures. -/
theorem Cabled.to_ir (h : Cabled A c c.state x) (hst : c.state = TestLogicReset ∨ c.state = RunTestIdle) :
    Returns (jtag_tms_seq_to d ShiftIR) c fun _ c' => c'.state = ShiftIR ∧
      ∃ y, Cabled A c' ShiftIR y ∧ y.irs = devices.map Device.ir_capture := by
  rcases hst with hst | hst
  · have hway : jtag_get_tms_seq c.state ShiftIR c = .ok (0x06, 5) c := by rw [hst]; rfl
    apply (h.move hway (by decide) (by decide)).mono
    rintro _ c' ⟨cs, hcs, hst', h'⟩
    rw [hst, chain_to_ir (hcs.trans (by decide))] at hst' h'
    rw [hst'] at h'
    exact ⟨hst', _, h', rfl⟩
  · have hway : jtag_get_tms_seq c.state ShiftIR c = .ok (0x3, 4) c := by rw [hst]; rfl
    apply (h.move hway (by decide) (by decide)).mono
    rintro _ c' ⟨cs, hcs, hst', h'⟩
    rw [hst, idle_to_ir (hcs.trans (by decide))] at hst' h'
    rw [hst'] at h'
    exact ⟨hst', _, h', rfl⟩

/-- On the way to ShiftDR the register of the instruction captures. -/
theorem Cabled.to_dr (h : Cabled A c c.state x) {is : List (Option (List Bool))} (hi : Selects devices x c.state is)
    (hst : c.state = TestLogicReset ∨ c.state = RunTestIdle ∨ c.state = Exit1IR) :
    Returns (jtag_tms_seq_to d ShiftDR) c fun _ c' => c'.state = ShiftDR ∧
      ∃ y, Cabled A c' ShiftDR y ∧ y.instructions = is ∧ y.drs = List.zipWith Device.captured devices is := by
  rcases hst with hst | hst | hst
  · have hway : jtag_get_tms_seq c.state ShiftDR c = .ok (0x02, 4) c := by rw [hst]; rfl
    apply (h.move hway (by decide) (by decide)).mono
    rintro _ c' ⟨cs, hcs, hst', h'⟩
    rw [hst, chain_reset_to_dr (hcs.trans (by decide))] at hst' h'
    rw [hst'] at h'
    rw [hst] at hi
    obtain rfl : is = devices.map fun _ => none := hi
    exact ⟨hst', _, h', rfl, rfl⟩
  · have hway : jtag_get_tms_seq c.state ShiftDR c = .ok (0x1, 3) c := by rw [hst]; rfl
    apply (h.move hway (by decide) (by decide)).mono
    rintro _ c' ⟨cs, hcs, hst', h'⟩
    rw [hst] at hi
    have hinstructions : x.instructions = is := hi
    rw [hst, idle_to_dr (hcs.trans (by decide)), hinstructions] at hst' h'
    rw [hst'] at h'
    exact ⟨hst', _, h', rfl, rfl⟩
  · have hway : jtag_get_tms_seq c.state ShiftDR c = .ok (0x3, 4) c := by rw [hst]; rfl
    apply (h.move hway (by decide) (by decide)).mono
    rintro _ c' ⟨cs, hcs, hst', h'⟩
    rw [hst] at hi
    have hirs : x.irs.map some = is := hi
    rw [hst, chain_to_dr (hcs.trans (by decide)), hirs] at hst' h'
    rw [hst'] at h'
    exact ⟨hst', _, h', rfl, rfl⟩

/-- The way to Run-Test/Idle keeps the instruction, or puts it into effect. -/
theorem Cabled.to_idle (h : Cabled A c c.state x) {is : List (Option (List Bool))} (hi : Selects devices x c.state is)
    (hst : c.state = RunTestIdle ∨ c.state = Exit1IR ∨ c.state = Exit1DR) :
    Returns (jtag_tms_seq_to d RunTestIdle) c fun _ c' => c'.state = RunTestIdle ∧
      ∃ y, Cabled A c' RunTestIdle y ∧ Selects devices y RunTestIdle is := by
  by_cases hidle : c.state = RunTestIdle
  · have hway : jtag_get_tms_seq c.state RunTestIdle c = .ok (0, 0) c := by rw [hidle]; rfl
    unfold jtag_tms_seq_to
    apply Returns.get_bind
    refine Returns.of_eq_bind hway ?_
    rw [hidle] at h hi
    exact ⟨true, c, congrFun (if_neg (Nat.lt_irrefl 0)) c, hidle, x, h, hi⟩
  · have hexit : c.state = Exit1IR ∨ c.state = Exit1DR := hst.resolve_left hidle
    have hway : jtag_get_tms_seq c.state RunTestIdle c = .ok (0x1, 2) c := by
      rcases hexit with hexit | hexit <;> rw [hexit] <;> rfl
    apply (h.move hway (by decide) (by decide)).mono
    rintro _ c' ⟨cs, hcs, hst', h'⟩
    rw [exit_to_idle hexit (hcs.trans (by decide))] at hst' h'
    rw [hst'] at h'
    refine ⟨hst', _, h', ?_⟩
    rcases hexit with hexit | hexit
    · rw [hexit] at hi ⊢
      exact hi
    · rw [hexit] at hi ⊢
      exact hi

/-! ## What the scans read -/

/-- Registers that are filled to their length hold what went in. -/
theorem shifted_filled {y : Chain} {bits : List Bool} (h : Shifted st x y bits)
    (hlen : ((x.path st).map List.length).sum = bits.length) :
    y.path st = ((x.path st).map List.length).splitLengths bits := by
  have hflat : (y.path st).flatten = bits := by
    rw [h.flat, shiftAll_eq, List.drop_left' (List.length_flatten.trans hlen)]
  rw [← h.lengths, ← hflat, splitLengths_flatten]

/-- The instructions that the devices have once these bits went in. -/
def loaded (devices : List Device) (bits : List Bool) : List (Option (List Bool)) :=
  ((devices.map fun dev => dev.ir_capture.length).splitLengths bits).map some

/-- The instructions go in, and what the registers captured comes back. -/
theorem Cabled.load (h : Cabled A c c.state x) (hdev : Findable devices chain) (hten : TenBits devices)
    (hst : c.state = TestLogicReset ∨ c.state = RunTestIdle) (data : List Byte) (hdata : data.length = 4) :
    ∃ c', Scanned d ShiftIR data (List.replicate 4 0) 10 c (inBuffer 4 (devices.flatMap Device.ir_capture)) c' ∧
      c'.state = Exit1IR ∧ ∃ y, Cabled A c' Exit1IR y ∧
        Selects devices y Exit1IR (loaded devices (bitsOf data 10)) := by
  obtain ⟨r, c₁, hmove, hst₁, y, ⟨log, level, hstands, hsince, hrun⟩, hirs⟩ := h.to_ir hst
  have hscan : Returns (jtag_scan_chain d data (List.replicate 4 0) 10 true true) c₁ _ :=
    A.scan_chain_spec true true hstands rfl (by rw [hst₁]; rfl) A.room_none (by decide) (by decide)
      (by rw [hdata]; decide) (by decide)
  obtain ⟨⟨q, read⟩, c', hscan, -, hlen, hholds, hst', hstands'⟩ := hscan
  rw [← hst₁] at hrun
  obtain ⟨htdo, y', h', hshifted⟩ := Cabled.scanned hdev hsince hrun (by rw [hst₁]; rfl) hst' hstands'
  have hpath : y.path c₁.state = devices.map Device.ir_capture := by
    rw [hst₁]
    exact hirs
  have hlengths : (y.path c₁.state).map List.length = devices.map fun dev => dev.ir_capture.length := by
    rw [hpath, List.map_map]
    rfl
  have hfilled := shifted_filled hshifted (by rw [hlengths, bitsOf_length]; exact hten)
  have hsize : (devices.flatMap Device.ir_capture).length = 10 := List.length_flatMap.trans hten
  rw [if_pos rfl, htdo, hpath, ← List.flatMap_def, List.take_left' hsize] at hholds
  have hread : read = inBuffer 4 (devices.flatMap Device.ir_capture) :=
    hholds.eq_inBuffer hlen (by rw [hsize]; decide)
  have hexit : c'.state = Exit1IR := by
    rw [hst', hst₁]
    rfl
  rw [hread] at hscan
  rw [hexit] at h'
  refine ⟨c', ⟨r, c₁, q, hmove, hscan⟩, hexit, y', h', ?_⟩
  rw [hlengths, hst₁] at hfilled
  exact congrArg (List.map some) hfilled

/-- The registers of the instructions, as the devices capture them. -/
def selected (devices : List Device) (is : List (Option (List Bool))) : List Bool :=
  (List.zipWith Device.captured devices is).flatten

/-- What comes out of a register in `n` cycles, with zeros behind it. -/
def registerBits (reg : List Bool) (n : Nat) : List Bool := (reg ++ List.replicate n false).take n

theorem registerBits_length (reg : List Bool) (n : Nat) : (registerBits reg n).length = n := by
  rw [registerBits, List.length_take, List.length_append, List.length_replicate]
  omega

/-- The registers that the instructions select come back. -/
theorem Cabled.capture (h : Cabled A c c.state x) (hdev : Findable devices chain) {is : List (Option (List Bool))}
    (hi : Selects devices x c.state is)
    (hst : c.state = TestLogicReset ∨ c.state = RunTestIdle ∨ c.state = Exit1IR) {n : Nat}
    (hn : 1 ≤ n) (hn' : n ≤ 8 * BUFFER_SIZE) (htakes : A.Takes n) :
    ∃ c', Scanned d ShiftDR (List.replicate BUFFER_SIZE 0) (List.replicate BUFFER_SIZE 0) n c
        (inBuffer BUFFER_SIZE (registerBits (selected devices is) n)) c' ∧ c'.state = Exit1DR ∧
      ∃ y, Cabled A c' Exit1DR y ∧ Selects devices y Exit1DR is := by
  obtain ⟨r, c₁, hmove, hst₁, y, ⟨log, level, hstands, hsince, hrun⟩, hinstructions, hdrs⟩ := h.to_dr hi hst
  have hscan : Returns (jtag_scan_chain d (List.replicate BUFFER_SIZE 0) (List.replicate BUFFER_SIZE 0) n true true)
      c₁ _ := A.scan hstands rfl (by rw [hst₁]; rfl) hn hn' htakes (by rw [List.length_replicate]; exact hn')
  obtain ⟨⟨q, read⟩, c', hscan, hlen, hholds, hst', hstands'⟩ := hscan
  rw [← hst₁] at hrun
  obtain ⟨m, rfl⟩ : ∃ m, n = m + 1 := ⟨n - 1, by omega⟩
  obtain ⟨htdo, y', h', hshifted⟩ := Cabled.scanned hdev hsince hrun (by rw [hst₁]; rfl) hst' hstands'
  have hpath : y.path c₁.state = List.zipWith Device.captured devices is := by
    rw [hst₁]
    exact hdrs
  rw [htdo, hpath, bitsOf_zeros fun j _ => bitAt_replicate_zero _ j] at hholds
  have hbits : Holds read (registerBits (selected devices is) (m + 1)) := hholds
  have hread : read = inBuffer BUFFER_SIZE (registerBits (selected devices is) (m + 1)) :=
    hbits.eq_inBuffer hlen (by rw [registerBits_length]; omega)
  have hexit : c'.state = Exit1DR := by
    rw [hst', hst₁]
    rfl
  rw [hread] at hscan
  rw [hexit] at h'
  refine ⟨c', ⟨r, c₁, q, hmove, hscan⟩, hexit, y', h', ?_⟩
  show y'.instructions = _
  rw [hshifted.instructions, hinstructions]

/-- The probe finds the devices, from wherever the TAP is, and resets the TAP. -/
theorem Cabled.probe (h : Cabled A c st x) (hdev : Findable devices chain) (junk : Nat → Byte) :
    Returns (jtag_probe_devices d junk) c fun found c' => found = devices.map Device.idcode ∧
      c'.state = TestLogicReset ∧ ∃ y, Cabled A c' TestLogicReset y := by
  obtain ⟨log, level, hstands, hsince, -⟩ := h
  let T : Tracer (ChainDrives devices tap chain) d := (A.toProber.tracer []).mono fun _ => hdev.drives
  have hT : T.Stands c.state c.dev log := ⟨hsince, level, hstands⟩
  have hfound := probe_chain_spec T junk hT (Nat.le_of_lt hdev.few) hdev.short
  apply (hfound.and (jtag_probe_devices_spec T junk tap hT).ensures).mono
  rintro found c' ⟨hdevices, cs, rs, n, -, -, -, -, hnone, hsome⟩
  rw [if_pos hdev.few] at hdevices
  have hcounted : n ≠ 0 := by
    intro hzero
    rw [(hnone hzero).1, eq_comm, List.map_eq_nil_iff] at hdevices
    exact hdev.some hdevices
  obtain ⟨cs', rs', reset, -, -, -, hat⟩ := hsome hcounted
  obtain ⟨hsince', level', hstands'⟩ := hat.stands
  have hreset : chainRun devices tap chain (log ++ cs ++ rs ++ cs' ++ rs' ++ reset) =
      (TestLogicReset, (chainRun devices tap chain (log ++ cs ++ rs ++ cs' ++ rs' ++ reset)).2) := by
    rw [Prod.ext_iff, chainRun_tap]
    exact ⟨hat.tap, rfl⟩
  exact ⟨hdevices, hat.state, _, _, level', hstands', hsince', hreset⟩

/-! ## Messages in their place -/

/-- An access that writes nothing, with an answer that `send_buffer_size` can count. -/
structure Reads (takes : Nat → Prop) (body : List Byte) : Prop where
  long : 32 ≤ body.length
  no_write : intAt body 20 < 8
  pos : 1 ≤ intAt body 12
  le : intAt body 12 ≤ 8 * BUFFER_SIZE
  takes : takes (intAt body 12)
  read_le : intAt body 28 ≤ intAt body 12
  answer : (intAt body 28 + 7) / 8 ≤ 253

/-- Where the TAP is between two messages, if the client can tell, the instructions that were loaded last, the
devices that were found, and whether the FIFO is known to hold a byte. -/
structure Place where
  tap : Option JtagState
  instructions : List (Option (List Bool))
  found : List (BitVec 32)
  stocked : Bool

/-- A message that may come in this place, with its outcome. -/
inductive Place.Step (devices : List Device) (takes : Nat → Prop) : Place → Outcome → Place → Prop
  | plain {p : Place} {msg : Message} : Plain msg → (msg.command = 0xA8 → p.found ≠ []) →
      Place.Step devices takes p ⟨msg, p.found, []⟩ p
  | chain {p : Place} {body : List Byte} :
      Place.Step devices takes p ⟨⟨0xA5, body⟩, devices.map Device.idcode, []⟩
        ⟨some TestLogicReset, devices.map fun _ => none, devices.map Device.idcode, p.stocked⟩
  | load {st : JtagState} {is : List (Option (List Bool))} {ids : List (BitVec 32)} {b : Bool} {body : List Byte} :
      TenBits devices → st = TestLogicReset ∨ st = RunTestIdle → 16 ≤ body.length →
      Place.Step devices takes ⟨some st, is, ids, b⟩
        ⟨⟨0xC6, body⟩, ids, inBuffer 4 (devices.flatMap Device.ir_capture)⟩
        ⟨some Exit1IR, loaded devices (bitsOf (instructionOf body) 10), ids, b⟩
  -- no byte is taken from the FIFO, but the address of its first one is
  | access {st : JtagState} {is : List (Option (List Bool))} {ids : List (BitVec 32)} {body : List Byte} :
      st = TestLogicReset ∨ st = RunTestIdle ∨ st = Exit1IR → Reads takes body →
      Place.Step devices takes ⟨some st, is, ids, true⟩
        ⟨⟨0xC8, body⟩, ids, inBuffer BUFFER_SIZE (registerBits (selected devices is) (intAt body 12))⟩
        ⟨some Exit1DR, is, ids, true⟩
  | idle {st : JtagState} {is : List (Option (List Bool))} {ids : List (BitVec 32)} {b : Bool} {body : List Byte} :
      st = RunTestIdle ∨ st = Exit1IR ∨ st = Exit1DR →
      Place.Step devices takes ⟨some st, is, ids, b⟩ ⟨⟨0xCA, body⟩, ids, []⟩ ⟨some RunTestIdle, is, ids, b⟩

/-- The server and the chain are in this place. -/
structure Placed (A : HandlerAdapter (chainBoard devices tap chain) d) (s : Jtagd δ) (p : Place) : Prop where
  found : s.devices = p.found
  stocked : p.stocked = true → s.fifos FIFO_MIN ≠ []
  cabled : ∃ st x, Cabled A s.jtag st x ∧
    ∀ t, p.tap = some t → s.jtag.state = t ∧ st = t ∧ Selects devices x t p.instructions

variable {base : List Byte} {fs : List Frame} {cur : List Byte} {s t : Jtagd δ} {p p' : Place} {junk : Nat → Byte}

theorem Placed.same (h : Placed A s p) (hsame : SendSame s t) : Placed A t p := by
  constructor
  · rw [hsame.devices, h.found]
  · rw [hsame.fifos]
    exact h.stocked
  · rw [hsame.jtag]
    exact h.cabled

theorem Placed.here {is : List (Option (List Bool))} {ids : List (BitVec 32)} {b : Bool}
    (h : Placed A s ⟨some st, is, ids, b⟩) :
    ∃ x, Cabled A s.jtag s.jtag.state x ∧ Selects devices x s.jtag.state is ∧ s.jtag.state = st := by
  obtain ⟨st', x, hcabled, hhere⟩ := h.cabled
  obtain ⟨hstate, rfl, hi⟩ := hhere st rfl
  rw [← hstate] at hcabled hi
  exact ⟨x, hcabled, hi, hstate⟩

theorem Placed.there {is : List (Option (List Bool))} {ids : List (BitVec 32)} {b : Bool} {c' : Jtag δ} {y : Chain}
    (hjtag : t.jtag = c') (hids : t.devices = ids) (hsome : b = true → t.fifos FIFO_MIN ≠ []) (hst : c'.state = st)
    (h : Cabled A c' st y) (hi : Selects devices y st is) : Placed A t ⟨some st, is, ids, b⟩ := by
  constructor
  · exact hids
  · exact hsome
  · rw [hjtag]
    refine ⟨st, y, h, ?_⟩
    rintro _ ⟨⟩
    exact ⟨hst, rfl, hi⟩

/-- The answer is the one of the only outcome that the board gives. -/
theorem answered_of {o : Outcome} {P : Jtagd δ → Prop} (hbuf : Buffered base fs cur s)
    (hrun : Returns (handle_message d junk o.msg) s fun ok t => ok = true ∧ P t)
    (honly : ∀ o' : Outcome, o'.msg = o.msg → Gives d junk s o' → answer o' = answer o) :
    Returns (handle_message d junk o.msg) s fun ok t => ok = true ∧ P t ∧ Answered (answer o) base fs cur s t := by
  apply (hrun.and (handle_message_spec hbuf o.msg)).mono
  rintro ok t ⟨⟨hok, ht⟩, -, hdone⟩
  obtain ⟨o', hmsg, hgives, hans⟩ := hdone hok
  rw [honly o' hmsg hgives] at hans
  exact ⟨hok, ht, hans⟩

theorem message_served (junk : Nat → Byte) (hdev : Findable devices chain) {o : Outcome}
    (hstep : Place.Step devices A.Takes p o p') (hplaced : Placed A s p) (hbuf : Buffered base fs cur s) (hclosed : s.last_response = -1) :
    Returns (handle_message d junk o.msg) s fun ok t =>
      ok = true ∧ Placed A t p' ∧ Answered (answer o) base fs cur s t := by
  have hphase : Phase false s := ⟨hbuf.room, hclosed⟩
  have hdevices := hplaced.found
  have hkept : ∀ {c' : Jtag δ} {ids : List (BitVec 32)} {t : Jtagd δ}, SendSame { s with jtag := c', devices := ids } t →
      p.stocked = true → t.fifos FIFO_MIN ≠ [] := by
    intro c' ids t hsame
    rw [hsame.fifos]
    exact hplaced.stocked
  cases hstep with
  | @plain _ msg hplain hknown =>
    apply answered_of hbuf
    · have hreturns : Returns (handle_message d junk msg) s fun _ t => Phase false t :=
        plain_returns hplain (by rwa [hdevices]) hphase
      apply (hreturns.and (handle_message_only hplain s).ensures).mono
      rintro ok t ⟨-, hok, hsame⟩
      exact ⟨hok, hplaced.same hsame⟩
    · rintro ⟨msg', ids, read⟩ rfl hgives
      obtain ⟨hA5, hC6, hC8, -⟩ := hplain
      have hids : ids = p.found := (hgives.known hA5).trans hdevices
      simp only [answer, hids, if_neg hC6, if_neg hC8]
  | @chain _ body =>
    obtain ⟨st, x, hcabled, -⟩ := hplaced.cabled
    obtain ⟨_, c', hprobe, rfl, hst, y, hy⟩ := hcabled.probe hdev junk
    apply answered_of hbuf
    · rw [handle_READ_CHAIN rfl]
      apply Returns.bind (READ_CHAIN_returns hphase hprobe)
      rintro _ t ⟨-, hsame⟩
      exact returns_pure ⟨rfl, Placed.there hsame.jtag hsame.devices (hkept hsame) hst hy rfl⟩
    · rintro ⟨_, ids, read⟩ rfl hgives
      obtain ⟨c, hprobe'⟩ := hgives.probe rfl
      rw [hprobe] at hprobe'
      cases hprobe'
      rfl
  | @load st is ids b body hten hst hlen =>
    obtain ⟨x, hcabled, -, rfl⟩ := hplaced.here
    obtain ⟨c', hscan, hst', y, hy, hi⟩ := hcabled.load hdev hten hst (instructionOf body) rfl
    apply answered_of hbuf
    · rw [handle_ACCESS_IR_2 rfl]
      apply Returns.bind (ACCESS_IR_2_returns hphase hlen hscan)
      rintro _ t ⟨-, hsame⟩
      exact returns_pure ⟨rfl, Placed.there hsame.jtag (hsame.devices.trans hdevices) (hkept hsame) hst' hy hi⟩
    · rintro ⟨_, ids', read⟩ rfl hgives
      have hread : read = _ := hscan.read_eq (hgives.ir rfl)
      have hids : ids' = ids := (hgives.known (by decide : (0xC6 : Byte) ≠ 0xA5)).trans hdevices
      rw [hread, hids]
  | @access st is ids body hst hreads =>
    obtain ⟨x, hcabled, hi, rfl⟩ := hplaced.here
    obtain ⟨c', hscan, hst', y, hy, hi'⟩ := hcabled.capture hdev hi hst hreads.pos hreads.le hreads.takes
    have hno : intAt body 20 / 8 = 0 := Nat.div_eq_of_lt hreads.no_write
    have hsome : s.fifos FIFO_MIN ≠ [] := hplaced.stocked rfl
    have hanswer := hreads.answer
    have hread_le := hreads.read_le
    have hle := hreads.le
    have hbytes : readBytes body = (intAt body 28 + 7) / 8 := by
      have hbuffer : BUFFER_SIZE = 4096 := rfl
      unfold readBytes
      omega
    apply answered_of hbuf
    · rw [handle_ACCESS_DR_2 rfl]
      have hlong : readBytes body ≤
          (inBuffer BUFFER_SIZE (registerBits (selected devices is) (intAt body 12))).length := by
        rw [inBuffer, List.length_append, List.length_replicate, packBits_length, registerBits_length]
        omega
      apply (ACCESS_DR_2_returns hphase hreads.long hsome hno hlong (by omega) hscan).mono
      rintro ok t ⟨hok, -, hsame⟩
      exact ⟨hok, Placed.there hsame.jtag (hsame.devices.trans hdevices) (hkept hsame) hst' hy hi'⟩
    · rintro ⟨_, ids', read⟩ rfl hgives
      obtain ⟨-, send, u, hpop, hscans⟩ := hgives.dr rfl
      dsimp only at hpop hscans
      rw [hno, pop_nothing hsome] at hpop
      cases hpop
      have hread : read = _ := hscan.read_eq hscans
      have hids : ids' = ids := (hgives.known (by decide : (0xC8 : Byte) ≠ 0xA5)).trans hdevices
      rw [hread, hids]
  | @idle st is ids b body hst =>
    obtain ⟨x, hcabled, hi, rfl⟩ := hplaced.here
    obtain ⟨r, c', hmove, hst', y, hy, hi'⟩ := hcabled.to_idle hi hst
    apply answered_of hbuf
    · rw [handle_RUN_TEST_IDLE rfl]
      apply Returns.bind (RUN_TEST_IDLE_returns hphase hmove)
      rintro _ t ⟨-, hsame⟩
      exact returns_pure ⟨rfl, Placed.there hsame.jtag (hsame.devices.trans hdevices) (hkept hsame) hst' hy hi'⟩
    · rintro ⟨_, ids', read⟩ rfl -
      rfl

/-! ## A tick -/

/-- A row of messages, each in its place. -/
inductive Place.Steps (devices : List Device) (takes : Nat → Prop) : Place → List Outcome → Place → Prop
  | nil (p : Place) : Place.Steps devices takes p [] p
  | cons {p q r : Place} {o : Outcome} {outs : List Outcome} : Place.Step devices takes p o q →
      Place.Steps devices takes q outs r → Place.Steps devices takes p (o :: outs) r

theorem Place.Steps.split {takes : Nat → Prop} {outs outs' : List Outcome}
    (h : Place.Steps devices takes p (outs ++ outs') p') :
    ∃ q, Place.Steps devices takes p outs q ∧ Place.Steps devices takes q outs' p' := by
  induction outs generalizing p with
  | nil => exact ⟨p, .nil p, h⟩
  | cons o outs ih =>
    cases h with
    | cons hstep hrest =>
      obtain ⟨q, hfirst, hlast⟩ := ih hrest
      exact ⟨q, .cons hstep hfirst, hlast⟩

theorem messages_served (junk : Nat → Byte) (hdev : Findable devices chain) {outs : List Outcome}
    (hsteps : Place.Steps devices A.Takes p outs p') (hplaced : Placed A s p) (hbuf : Buffered base fs cur s)
    (hclosed : s.last_response = -1) (hmsgs : s.messages = outs.map Outcome.msg) :
    ∃ t fs' cur', Runs d junk s (outs.map Outcome.msg) t ∧ t.messages = [] ∧ Placed A t p' ∧
      Buffered base fs' cur' t ∧ fs' ++ framesOf cur' [] = fs ++ framesOf cur outs := by
  induction hsteps generalizing s fs cur with
  | nil p => exact ⟨s, fs, cur, .nil s, hmsgs, hplaced, hbuf, rfl⟩
  | @cons p q r o outs hstep _ ih =>
    obtain ⟨_, t, hrun, rfl, hq, hans⟩ := message_served junk hdev hstep hplaced hbuf hclosed
    have hq' : Placed A { t with messages := outs.map Outcome.msg } q := ⟨hq.found, hq.stocked, hq.cabled⟩
    have hbuf' := hans.buffered.of_eq (t := { t with messages := outs.map Outcome.msg }) rfl rfl rfl
    obtain ⟨u, fs', cur', hruns, hnone, hu, hlast, hframes⟩ := ih hq' hbuf' hans.closed rfl
    refine ⟨u, fs', cur', .next hmsgs hrun hruns, hnone, hu, hlast, ?_⟩
    rw [hframes, framesOf, List.append_assoc]

theorem last_send_returns (h : Buffered base fs cur s) : Returns (do
    let s ← get
    if s.send_buffer_size.toNat > 2 then do_send 0 else pure () : JtagdProg δ Unit) s fun _ _ => True := by
  apply Returns.get_bind
  split
  · exact (do_send_adds 0 s h.room).mono fun _ _ _ => trivial
  · exact returns_pure trivial

theorem Queues.before {i : Input} {q : Jtagd δ} {new : List Message} (h : Queues i s q new) :
    q.jtag = s.jtag ∧ q.devices = s.devices ∧ q.last_response = s.last_response ∧
      ∃ more, q.fifos FIFO_MIN = s.fifos FIFO_MIN ++ more := by
  obtain ⟨r, hread, hloop⟩ := h.packets
  obtain ⟨hr, -⟩ := jtagd_read_spec i.net.recv { s with send_buffer_size := 2 } true r hread
  obtain ⟨_, htook⟩ := (packet_loop_took _ r).ensures () q hloop
  obtain ⟨more, hmore⟩ := htook.grows
  rw [htook.rest, hr]
  rw [hr] at hmore
  exact ⟨rfl, rfl, rfl, more, hmore⟩

/-- A tick that queues messages in their places returns with their answers. -/
theorem tick_served (hdev : Findable devices chain) {i : Input} {q : Jtagd δ} {outs : List Outcome} (hs : Ready s)
    (hnone : s.messages = []) (hplaced : Placed A s p) (hqueues : Queues i s q (outs.map Outcome.msg))
    (hsteps : Place.Steps devices A.Takes p outs p') (hshort : ∀ f ∈ framesOf [] outs, f.body.length ≤ 253) :
    Returns (step d i) s fun _ t => Ready t ∧ t.messages = [] ∧ Placed A t p' ∧
      t.sock.written = s.sock.written ++ (framesOf [] outs).flatMap Frame.bytes := by
  obtain ⟨hjtag, hdevices, hlast, more, hmore⟩ := hqueues.before
  have hq : Placed A q p := by
    constructor
    · rw [hdevices, hplaced.found]
    · intro hstocked
      rw [hmore]
      exact List.append_ne_nil_of_left_ne_nil (hplaced.stocked hstocked) more
    · rw [hjtag]
      exact hplaced.cabled
  have hmsgs : q.messages = outs.map Outcome.msg := by rw [hqueues.messages, hnone, List.nil_append]
  obtain ⟨u, fs', cur', hruns, hdone, hu, hbuf, hframes⟩ :=
    messages_served i.junk hdev hsteps hq (hqueues.buffered hs) (hlast.trans hs.closed) hmsgs
  have hloop : message_loop d i.junk q.messages.length q = .ok () u := by
    have hall := message_loop_runs hruns 0
    rw [← hmsgs, Nat.add_zero] at hall
    exact hall
  have hend := ((last_send_returns hbuf).and (last_send_spec hbuf)).and (last_send_only u).ensures
  have hreturns : Returns (step d i) s fun _ t => t.messages = [] ∧ Placed A t p' ∧
      t.sock.written = s.sock.written ++ (framesOf [] outs).flatMap Frame.bytes := by
    rw [Returns, hqueues.step]
    unfold handle_messages
    apply Returns.get_bind
    refine Returns.of_eq_bind hloop (hend.mono ?_)
    rintro _ t ⟨⟨-, -, -, hmsgs', hwrote⟩, hsame⟩
    rw [hframes, List.nil_append] at hwrote
    obtain ⟨new, hwritten, -, hexact⟩ := hwrote.grows
    refine ⟨hmsgs'.trans hdone, hu.same hsame, ?_⟩
    rw [hwritten, hexact hshort]
  exact ((hreturns.and (step_ready i hs)).mono fun _ t ht => ⟨ht.2, ht.1⟩)

/-! ## Any number of ticks -/

/-- Ticks of one connection, with the messages that each of them queues. -/
inductive Ticks (d : driver δ) : Jtagd δ → List (List Message) → Jtagd δ → Prop
  | none (s : Jtagd δ) : Ticks d s [] s
  | tick {s q t u : Jtagd δ} {i : Input} {new : List Message} {news : List (List Message)} : Queues i s q new →
      step d i s = .ok () t → Ticks d t news u → Ticks d s (new :: news) u

theorem ticks_served (hdev : Findable devices chain) {news : List (List Message)} {outss : List (List Outcome)}
    (hticks : Ticks d s news t) (hs : Ready s) (hnone : s.messages = []) (hplaced : Placed A s p)
    (hsteps : Place.Steps devices A.Takes p outss.flatten p') (hmsgs : outss.map (List.map Outcome.msg) = news)
    (hshort : ∀ outs ∈ outss, ∀ f ∈ framesOf [] outs, f.body.length ≤ 253) :
    Ready t ∧ t.messages = [] ∧ Placed A t p' ∧ t.sock.written =
      s.sock.written ++ outss.flatMap fun outs => (framesOf [] outs).flatMap Frame.bytes := by
  induction hticks generalizing p outss with
  | none s =>
    obtain rfl := List.map_eq_nil_iff.mp hmsgs
    cases hsteps
    exact ⟨hs, hnone, hplaced, (List.append_nil _).symm⟩
  | tick hqueues hrun _ ih =>
    obtain ⟨outs, outss, rfl, rfl, hrest⟩ := List.map_eq_cons_iff.mp hmsgs
    obtain ⟨q, hfirst, hlast⟩ := hsteps.split
    obtain ⟨_, t, hrun', ht, hnone', hplaced', hwritten⟩ :=
      tick_served hdev hs hnone hplaced hqueues hfirst (hshort outs List.mem_cons_self)
    rw [hrun] at hrun'
    cases hrun'
    obtain ⟨hready, hempty, hlast', hwritten'⟩ :=
      ih ht hnone' hplaced' hlast hrest fun outs' ho => hshort outs' (List.mem_cons_of_mem _ ho)
    refine ⟨hready, hempty, hlast', ?_⟩
    rw [hwritten', hwritten, List.flatMap_cons, List.append_assoc]

/-- Over every run of ticks on one connection: as long as each message comes in its place, each tick returns,
leaves no message behind, and the client gets the IDCODEs of the chain, what the instruction registers capture, and
the registers that the instructions select. -/
theorem client_served (hdev : Findable devices chain) {s₀ q : Jtagd δ} {i : Input} {news : List (List Message)}
    {outss : List (List Outcome)} {outs : List Outcome} (h₀ : Ready s₀) (hnone : s₀.messages = [])
    (hplaced : Placed A s₀ p) (hticks : Ticks d s₀ news s) (hqueues : Queues i s q (outs.map Outcome.msg))
    (hmsgs : outss.map (List.map Outcome.msg) = news)
    (hsteps : Place.Steps devices A.Takes p (outss.flatten ++ outs) p')
    (hshort : ∀ b ∈ outss ++ [outs], ∀ f ∈ framesOf [] b, f.body.length ≤ 253) :
    Returns (step d i) s fun _ t => t.messages = [] ∧ Placed A t p' ∧ t.sock.written = s₀.sock.written ++
      (outss ++ [outs]).flatMap fun b => (framesOf [] b).flatMap Frame.bytes := by
  obtain ⟨r, hbefore, hnow⟩ := hsteps.split
  obtain ⟨hs, hempty, hplaced', hwritten⟩ := ticks_served hdev hticks h₀ hnone hplaced hbefore hmsgs
    fun b hb => hshort b (List.mem_append_left _ hb)
  have htick := tick_served hdev hs hempty hplaced' hqueues hnow (hshort outs (by simp))
  apply htick.mono
  rintro _ t ⟨-, hdone, hplaced'', hwritten'⟩
  refine ⟨hdone, hplaced'', ?_⟩
  rw [hwritten', hwritten, List.flatMap_append, List.flatMap_singleton, List.append_assoc]

end

/-! ## A session on a bench -/

/-- One instruction selects a register of eight bits, all others the bypass. -/
def oneRegister (instruction selects : List Bool) : List Bool :=
  if instruction = selects then bitsOf [0xA5] 8 else [false]

theorem oneRegister_some (instruction selects : List Bool) : oneRegister instruction selects ≠ [] := by
  unfold oneRegister
  split
  · decide
  · decide

def fourBitDevice : Device where
  idcode := 0x4BA02477
  ir_capture := [true, false, false, false]
  data instruction := oneRegister instruction [true, true, true, false]
  idcode_low := rfl
  bypass := rfl

def sixBitDevice : Device where
  idcode := 0x020F10DD
  ir_capture := [true, false, true, false, false, false]
  data instruction := oneRegister instruction [false, true, false, false, false, false]
  idcode_low := rfl
  bypass := rfl

def twoOnCable : List Device := [fourBitDevice, sixBitDevice]

theorem twoOnCable_findable : Findable twoOnCable usedChain where
  some := by decide
  few := by decide
  short := by decide
  irs := by
    simp only [twoOnCable, List.mem_cons, List.not_mem_nil, or_false, forall_eq_or_imp, forall_eq]
    exact ⟨by decide, by decide⟩
  data := by
    simp only [twoOnCable, List.mem_cons, List.not_mem_nil, or_false, forall_eq_or_imp, forall_eq]
    exact ⟨fun i => oneRegister_some i _, fun i => oneRegister_some i _⟩
  filled := usedChain_filled

theorem twoOnCable_ten : TenBits twoOnCable := rfl

/-- ACCESS_IR_2 with instruction 7 for the first device, and 0 for the second. -/
def loadSeven : List Byte := List.replicate 15 0 ++ [7]

/-- ACCESS_DR_2 that reads 8 bits and writes none. -/
def readEight : List Byte := List.replicate 15 0 ++ [8] ++ List.replicate 15 0 ++ [8]

theorem readEight_reads : Reads (fun _ => True) readEight :=
  ⟨by decide, by decide, by decide, by decide, trivial, by decide, by decide⟩

/-- LOCK_CHAIN, READ_CHAIN, ACCESS_IR_2, ACCESS_DR_2 and RUN_TEST_IDLE. -/
def wholeSession : List Outcome :=
  [⟨⟨0xA2, []⟩, [], []⟩, ⟨⟨0xA5, []⟩, twoOnCable.map Device.idcode, []⟩,
    ⟨⟨0xC6, loadSeven⟩, twoOnCable.map Device.idcode, inBuffer 4 (twoOnCable.flatMap Device.ir_capture)⟩,
    ⟨⟨0xC8, readEight⟩, twoOnCable.map Device.idcode, inBuffer BUFFER_SIZE
      (registerBits (selected twoOnCable (loaded twoOnCable (bitsOf (instructionOf loadSeven) 10))) 8)⟩,
    ⟨⟨0xCA, []⟩, twoOnCable.map Device.idcode, []⟩]

/-- Idle behind the session, with the instruction in effect. -/
def afterSession : Place :=
  ⟨some RunTestIdle, loaded twoOnCable (bitsOf (instructionOf loadSeven) 10), twoOnCable.map Device.idcode, true⟩

theorem wholeSession_steps : Place.Steps twoOnCable (fun _ => True) ⟨none, [], [], true⟩ wholeSession
    afterSession := by
  apply Place.Steps.cons (.plain ⟨by decide, by decide, by decide, by decide⟩ (by decide))
  apply Place.Steps.cons .chain
  apply Place.Steps.cons (.load twoOnCable_ten (.inl rfl) (by decide))
  apply Place.Steps.cons (.access (.inr (.inr rfl)) readEight_reads)
  exact .cons (.idle (.inr (.inr rfl))) (.nil _)

/-- All of it in one packet. -/
def sessionPacket : List Byte :=
  [0x00, 0x43, 0xA2, 0, 0, 4, 0xA5, 0, 0, 4, 0xC6, 0, 0, 20] ++ loadSeven ++ [0xC8, 0, 0, 36] ++ readEight ++
    [0xCA, 0, 0, 4]

def benchHandlers (st : JtagState) : HandlerAdapter (chainBoard twoOnCable st usedChain)
    (mpsse_driver (mpsseUsb (chainBoard twoOnCable st usedChain) Mpsse.idleEngine) (100 + 0) 15) :=
  mpsseHandlers _ _ Mpsse.idleEngine 0 15 (mpsseUsb_delivers _ Mpsse.idleEngine)

/-- A server whose FIFO holds what a packet 40 00 FF left there. -/
def stockedJtagd {δ : Type} (c : Jtag δ) : Jtagd δ := { freshJtagd c with fifos := fun _ => [3, 3] }

theorem benchHandlers_placed (st st' : JtagState) :
    Placed (benchHandlers st) (stockedJtagd (benchMpsse st')) ⟨none, [], [], true⟩ := by
  refine ⟨rfl, fun _ => List.cons_ne_nil _ _, st, usedChain, ⟨[], false, benchMpsse_stands _ st', .refl _ [], rfl⟩, ?_⟩
  rintro _ ⟨⟩

theorem stocked_ready {δ : Type} (c : Jtag δ) : Ready (stockedJtagd c) :=
  ⟨freshSock_ok, List.length_replicate, fun _ => rfl, rfl, fun h => absurd (by decide : (4 : Int) ≥ 0) h⟩

theorem session_queues : Queues ⟨fun _ => 0xA5, ⟨deliver sessionPacket, false⟩⟩ (stockedJtagd (benchMpsse RunTestIdle))
    (finalState (packet_loop (BUFFER_SIZE + 1) (finalState (jtagd_sock (read_socket (deliver sessionPacket))
      (stockedJtagd (benchMpsse RunTestIdle)))))) (wholeSession.map Outcome.msg) where
  connected := by decide
  packets := by
    have hread := of_answer (a := true) (r := jtagd_sock (read_socket (deliver sessionPacket))
      (stockedJtagd (benchMpsse RunTestIdle))) (by decide +kernel)
    exact ⟨_, hread, of_returned (by decide +kernel)⟩
  messages := by decide +kernel

theorem client_served_seven : Returns (step
      (mpsse_driver (mpsseUsb (chainBoard twoOnCable PauseIR usedChain) Mpsse.idleEngine) (100 + 0) 15)
      ⟨fun _ => 0xA5, ⟨deliver sessionPacket, false⟩⟩) (stockedJtagd (benchMpsse RunTestIdle)) fun _ t =>
    t.messages = [] ∧
    Placed (benchHandlers PauseIR) t afterSession ∧
    t.sock.written = (stockedJtagd (benchMpsse RunTestIdle)).sock.written ++
      ([] ++ [wholeSession]).flatMap fun b => (framesOf [] b).flatMap Frame.bytes :=
  client_served twoOnCable_findable (stocked_ready _) rfl (benchHandlers_placed PauseIR RunTestIdle) (.none _)
    session_queues rfl wholeSession_steps (by decide +kernel)

end JtagRemote.Jtagd
