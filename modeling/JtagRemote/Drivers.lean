import JtagRemote.Mpsse.Adapter
import JtagRemote.Blaster.Adapter

/-!
# The two drivers side by side

The same calls, over the same board: once through the MPSSE chip, once through
the USB Blaster.
-/

namespace JtagRemote

open JtagState

/-! ## What the board saw -/

def mpsseSeen (board : Board) (e₀ : MpsseEngine) (c : Jtag Mpsse) : List Cycle :=
  (mpsseFeed board ⟨[], e₀⟩ (Mpsse.stream c)).machine.log

def blasterSeen (board : Board) (e₀ : BlasterEngine) (c : Jtag Blaster) : List Cycle :=
  (blasterFeed board e₀ c.dev.port.delivered).log

section

variable {board : Board} {usbM usbB : Usb} {eM₀ eM : MpsseEngine} {eB₀ eB : BlasterEngine}
  {cM : Jtag Mpsse} {cB : Jtag Blaster} {l : Line}

theorem mpsseSeen_eq {fuel freq : Nat} {hdel : usbM.Delivers}
    (h : (Mpsse.mpsseAdapter board usbM eM₀ fuel freq hdel).Stands cM.state cM.dev l) :
    mpsseSeen board eM₀ cM = l.log := by
  obtain ⟨e, queue, h⟩ := h
  have htracks : Mpsse.Tracks board usbM eM₀ e cM queue := h.tracks.of_dev rfl
  rw [mpsseSeen, htracks.fed, h.line]

theorem blasterSeen_eq {fuel : Nat}
    (h : (Blaster.blasterAdapter board usbB eB₀ fuel).Stands cB.state cB.dev l) :
    blasterSeen board eB₀ cB = l.log := by
  obtain ⟨e, held, h⟩ := h
  rw [h.log]
  exact congrArg BlasterEngine.log h.linked.fed

theorem mpsse_stands (fuel freq : Nat) (hdel : usbM.Delivers) (hM : Mpsse.Tracks board usbM eM₀ eM cM [])
    (hlow : eM.pins.tms = false) :
    (Mpsse.mpsseAdapter board usbM eM₀ fuel freq hdel).Stands cM.state cM.dev ⟨eM.log, false, []⟩ :=
  ⟨eM, [], hM.of_dev rfl, by rw [hlow]; rfl, fun _ => hlow⟩

theorem blaster_stands (fuel : Nat) (hB : Blaster.Linked board usbB eB₀ cB eB [])
    (hlow : eB.pins.tms = false) :
    (Blaster.blasterAdapter board usbB eB₀ fuel).Stands cB.state cB.dev ⟨eB.log, false, []⟩ :=
  ⟨eB, [], hB.of_dev rfl, rfl, hlow.symm, .none, fun _ => hlow⟩

/-- The two drivers clock the same cycles, leave the same state and give the same bytes. -/
theorem scan_drivers_agree (hdel : usbM.Delivers) (hM : Mpsse.Tracks board usbM eM₀ eM cM [])
    (hB : Blaster.Linked board usbB eB₀ cB eB []) (hlog : eM.log = eB.log)
    (hlowM : eM.pins.tms = false) (hlowB : eB.pins.tms = false) (hstate : cM.state = cB.state)
    (hshift : cM.state = ShiftDR ∨ cM.state = ShiftIR) (data : List Byte) (n : Nat) (flip read : Bool)
    (size freq fuelM fuelB : Nat) (hn : 1 ≤ n) (hn' : n ≤ 16344) (hdata : n ≤ 8 * data.length)
    (hsize : n ≤ 8 * size) :
    ∃ out cM' cB',
      jtag_scan_chain (mpsse_driver usbM (100 + fuelM) freq) data (List.replicate size 0) n flip read cM =
        .ok (true, out) cM' ∧
      jtag_scan_chain (usb_blaster_driver usbB fuelB) data (List.replicate size 0) n flip read cB =
        .ok (true, out) cB' ∧
      cM'.state = cB'.state ∧
      ∃ cs, cs.map Cycle.pins = scanPins data n flip ∧ mpsseSeen board eM₀ cM' = eM.log ++ cs ∧
        blasterSeen board eB₀ cB' = eB.log ++ cs := by
  have hshift' : cM.state.isShift = true := by rcases hshift with h | h <;> rw [h] <;> rfl
  obtain ⟨out, cM', cB', hrunM, hrunB, hst, hM', hB'⟩ :=
    (Mpsse.mpsseAdapter board usbM eM₀ fuelM freq hdel).scan_agrees
      (Blaster.blasterAdapter board usbB eB₀ fuelB) (mpsse_stands fuelM freq hdel hM hlowM)
      (blaster_stands fuelB hB hlowB) hlog rfl rfl hstate hshift' trivial rfl hn hn' hdata hsize
  refine ⟨out, cM', cB', hrunM, hrunB, hst, _, cycles_pins board eB.log _, ?_, ?_⟩
  · rw [mpsseSeen_eq hM', hlog]
    rfl
  · rw [blasterSeen_eq hB']
    rfl

end

/-! ## Idle devices -/

theorem mpsseUsb_delivers (board : Board) (e : MpsseEngine) : (mpsseUsb board e).Delivers :=
  Usb.Reliable.delivers ⟨fun _ => rfl, fun _ => rfl⟩

theorem blasterUsb_delivers (board : Board) (e : BlasterEngine) : (blasterUsb board e).Delivers :=
  Usb.Reliable.delivers ⟨fun _ => rfl, fun _ => rfl⟩

def idleBlasterEngine : BlasterEngine := ⟨false, ⟨false, false⟩, 0, false, [], []⟩

def idleBlaster : Jtag Blaster :=
  ⟨RunTestIdle, 0, ⟨List.replicate Blaster.RECV_BUFFER_SIZE 0, 0, ⟨BITMODE_RESET, [], 0, 0, 0⟩⟩⟩

theorem idleMpsse_tracks (board : Board) (st : JtagState) :
    Mpsse.Tracks board (mpsseUsb board Mpsse.idleEngine) Mpsse.idleEngine Mpsse.idleEngine
      { Mpsse.idleMpsse with state := st } [] := ⟨fun _ => rfl, rfl, rfl, Nat.le_refl 0, by simp⟩

theorem idleBlaster_linked (board : Board) (st : JtagState) :
    Blaster.Linked board (blasterUsb board idleBlasterEngine) idleBlasterEngine
      { idleBlaster with state := st } idleBlasterEngine [] :=
  ⟨blasterUsb_delivers board _, fun _ => rfl, rfl, rfl, rfl, List.length_replicate, rfl, rfl⟩

/-- An idle MPSSE chip, with the TAP in any state. -/
def benchMpsse (st : JtagState) : Jtag Mpsse := { Mpsse.idleMpsse with state := st }

abbrev benchMpsseAdapter (board : Board) :
    Adapter board (mpsse_driver (mpsseUsb board Mpsse.idleEngine) (100 + 0) 15) :=
  Mpsse.mpsseAdapter board (mpsseUsb board Mpsse.idleEngine) Mpsse.idleEngine 0 15
    (mpsseUsb_delivers board Mpsse.idleEngine)

theorem benchMpsse_stands (board : Board) (st : JtagState) :
    (benchMpsseAdapter board).Stands st (benchMpsse st).dev ⟨[], false, []⟩ := by
  have htracks : Mpsse.Tracks board (mpsseUsb board Mpsse.idleEngine) Mpsse.idleEngine Mpsse.idleEngine
      (benchMpsse st) [] := idleMpsse_tracks board st
  exact mpsse_stands 0 15 (mpsseUsb_delivers board _) htracks rfl

theorem scan_drivers_agree_byte : ∃ out cM' cB',
    jtag_scan_chain (mpsse_driver (mpsseUsb Mpsse.blinkBoard Mpsse.idleEngine) (100 + 0) 15) [0xA5]
        (List.replicate 1 0) 8 true true { Mpsse.idleMpsse with state := ShiftDR } =
      .ok (true, out) cM' ∧
    jtag_scan_chain (usb_blaster_driver (blasterUsb Mpsse.blinkBoard idleBlasterEngine) 0) [0xA5]
        (List.replicate 1 0) 8 true true { idleBlaster with state := ShiftDR } = .ok (true, out) cB' ∧
    cM'.state = cB'.state ∧
    ∃ cs, cs.map Cycle.pins = scanPins [0xA5] 8 true ∧
      mpsseSeen Mpsse.blinkBoard Mpsse.idleEngine cM' = Mpsse.idleEngine.log ++ cs ∧
      blasterSeen Mpsse.blinkBoard idleBlasterEngine cB' = idleBlasterEngine.log ++ cs := by
  have hM := idleMpsse_tracks Mpsse.blinkBoard ShiftDR
  have hB := idleBlaster_linked Mpsse.blinkBoard ShiftDR
  have hdel := mpsseUsb_delivers Mpsse.blinkBoard Mpsse.idleEngine
  exact scan_drivers_agree hdel hM hB rfl rfl rfl rfl (Or.inl rfl) [0xA5] 8 true true 1 15 0 0 (by decide)
    (by decide) (by decide) (by decide)

/-! ## The clock-only fast path -/

inductive DriverKind where
  | mpsse
  | usb_blaster
  deriving DecidableEq, Repr

/-- What the driver keeps. -/
def DriverKind.Dev : DriverKind → Type
  | .mpsse => Mpsse
  | .usb_blaster => Blaster

def DriverKind.driver (usb : Usb) (fuel freq : Nat) : (kind : DriverKind) → driver kind.Dev
  | .mpsse => mpsse_driver usb fuel freq
  | .usb_blaster => usb_blaster_driver usb fuel

/-- A driver of each kind, each with its own device. -/
structure Bench where
  usbM : Usb
  usbB : Usb
  eM₀ : MpsseEngine
  eB₀ : BlasterEngine
  cM : Jtag Mpsse
  cB : Jtag Blaster

/-- Both devices wait in RunTestIdle, on one board. -/
structure Bench.Idle (b : Bench) (board : Board) (eM : MpsseEngine) (eB : BlasterEngine)
    (queue : List (Scan × List Byte)) (held : List Byte) : Prop where
  delivers : b.usbM.Delivers
  tracks : Mpsse.Tracks board b.usbM b.eM₀ eM b.cM queue
  linked : Blaster.Linked board b.usbB b.eB₀ b.cB eB held
  holding : ∃ pending, Blaster.Holding pending held
  stateM : b.cM.state = RunTestIdle
  stateB : b.cB.state = RunTestIdle

/-- The fast path of `jtag_xvc_tick` agrees with the plain one on a driver of this kind. -/
def Bench.Agrees (b : Bench) (board : Board) (data : List Byte) (n fuel freq : Nat) : DriverKind → Prop
  | .mpsse => FastPathAgrees (mpsse_driver b.usbM (100 + fuel) freq) (mpsseSeen board b.eM₀) b.cM data n
  | .usb_blaster => FastPathAgrees (usb_blaster_driver b.usbB fuel) (blasterSeen board b.eB₀) b.cB data n

theorem mpsse_fast_path {b : Bench} {board : Board} {eM : MpsseEngine} {eB : BlasterEngine}
    {queue : List (Scan × List Byte)} {held : List Byte} (h : b.Idle board eM eB queue held)
    {data : List Byte} {n fuel freq : Nat} (hzero : ∀ i, i < n → bitAt data i = false) (hn : 1 ≤ n)
    (hn' : n ≤ MAX_BITS) (hlen : n ≤ 8 * data.length) : b.Agrees board data n fuel freq .mpsse := by
  have hstands : (Mpsse.mpsseAdapter board b.usbM b.eM₀ fuel freq h.delivers).Stands b.cM.state b.cM.dev
      ⟨eM.log, eM.pins.tms, queue.map Prod.fst⟩ :=
    ⟨eM, queue, h.tracks.of_dev rfl, rfl, by rw [h.stateM]; exact fun h => absurd h (by decide)⟩
  exact ((Mpsse.mpsseAdapter board b.usbM b.eM₀ fuel freq h.delivers).fast_path_iff
    (fun _ _ => mpsseSeen_eq) hstands h.stateM hzero hn hn' hlen).mpr rfl

/-- The Blaster has no clock command, so only the first cycle is there. -/
theorem blaster_fast_path {b : Bench} {board : Board} {eM : MpsseEngine} {eB : BlasterEngine}
    {queue : List (Scan × List Byte)} {held : List Byte} (h : b.Idle board eM eB queue held)
    {data : List Byte} {n fuel freq : Nat} (hzero : ∀ i, i < n → bitAt data i = false) (hn : 1 ≤ n)
    (hn' : n ≤ MAX_BITS) (hlen : n ≤ 8 * data.length) :
    b.Agrees board data n fuel freq .usb_blaster ↔ n = 1 := by
  obtain ⟨pending, hheld⟩ := h.holding
  have hstands : (Blaster.blasterAdapter board b.usbB b.eB₀ fuel).Stands b.cB.state b.cB.dev
      ⟨eB.log, eB.pins.tms, pending⟩ :=
    ⟨eB, held, h.linked.of_dev rfl, rfl, rfl, hheld,
      by rw [h.stateB]; exact fun h => absurd h (by decide)⟩
  have hiff := (Blaster.blasterAdapter board b.usbB b.eB₀ fuel).fast_path_iff
    (fun _ _ => blasterSeen_eq) hstands h.stateB hzero hn hn' hlen
  have hticks : (Blaster.blasterAdapter board b.usbB b.eB₀ fuel).ticks (n - 1) = 0 := rfl
  rw [hticks] at hiff
  refine hiff.trans ?_
  omega

/-- The fast path agrees with the plain one on the mpsse driver, and otherwise only when there is
no second cycle. -/
theorem fast_path_agrees_iff {b : Bench} {board : Board} {eM : MpsseEngine} {eB : BlasterEngine}
    {queue : List (Scan × List Byte)} {held : List Byte} (h : b.Idle board eM eB queue held)
    {data : List Byte} {n fuel freq : Nat} (hzero : ∀ i, i < n → bitAt data i = false) (hn : 1 ≤ n)
    (hn' : n ≤ MAX_BITS) (hlen : n ≤ 8 * data.length) (kind : DriverKind) :
    b.Agrees board data n fuel freq kind ↔ kind = .mpsse ∨ n = 1 := by
  cases kind with
  | mpsse => simp [mpsse_fast_path h hzero hn hn' hlen]
  | usb_blaster => simp [blaster_fast_path h hzero hn hn' hlen]

def idleBench : Bench where
  usbM := mpsseUsb Mpsse.blinkBoard Mpsse.idleEngine
  usbB := blasterUsb Mpsse.blinkBoard idleBlasterEngine
  eM₀ := Mpsse.idleEngine
  eB₀ := idleBlasterEngine
  cM := { Mpsse.idleMpsse with state := RunTestIdle }
  cB := { idleBlaster with state := RunTestIdle }

theorem idleBench_idle : idleBench.Idle Mpsse.blinkBoard Mpsse.idleEngine idleBlasterEngine [] [] :=
  ⟨mpsseUsb_delivers _ _, idleMpsse_tracks _ _, idleBlaster_linked _ _, ⟨[], .none⟩, rfl, rfl⟩

theorem zero_byte_bits (n i : Nat) (_ : i < n) : bitAt [0x00] i = false :=
  bitAt_replicate_zero 1 i

theorem fast_path_agrees_iff_two :
    idleBench.Agrees Mpsse.blinkBoard [0x00] 2 0 15 .mpsse ↔ DriverKind.mpsse = .mpsse ∨ 2 = 1 :=
  fast_path_agrees_iff idleBench_idle (zero_byte_bits 2) (by decide) (by decide) (by decide) .mpsse

/-- Two cycles in RunTestIdle: the USB Blaster gives one. -/
theorem fast_path_loses_a_cycle : ¬ idleBench.Agrees Mpsse.blinkBoard [0x00] 2 0 15 .usb_blaster := by
  rw [blaster_fast_path idleBench_idle (zero_byte_bits 2) (by decide) (by decide) (by decide)]
  decide

end JtagRemote
