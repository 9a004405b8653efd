import JtagRemote.Blaster.Lockstep
import JtagRemote.Hardware.BlasterEngine

/-!
# The Blaster on two wires

From Blasters at the same place the same bytes clock the same cycles and get the same answers. The
levels of the pins need not be the same when a byte comes first that brings TCK low, as it sets them all.
-/

namespace JtagRemote.Blaster

variable {board : Board} {usb : Usb} {e₀ : BlasterEngine}

/-! ## The engine -/

/-- The levels of the pins, and of TDO where it is held. -/
structure SameLevels (e e' : BlasterEngine) : Prop where
  tck : e'.tck = e.tck
  pins : e'.pins = e.pins
  tdo : e.tck = true → (e'.log.getLast?.map Cycle.tdo).getD false = (e.log.getLast?.map Cycle.tdo).getD false

/-- Byte-shift mode still wants the same. -/
structure SameMode (e e' : BlasterEngine) : Prop where
  left : e'.shift_left = e.shift_left
  read : e.shift_left ≠ 0 → e'.shift_read = e.shift_read

/-- Since `g` and `g'` the Blasters have done the same, and they go on so. -/
structure Alongside (g g' e e' : BlasterEngine) : Prop where
  levels : SameLevels e e'
  mode : SameMode e e'
  cycles : Extended g.log g'.log e.log e'.log
  answers : Extended g.resp g'.resp e.resp e'.resp

variable {g g' e e' : BlasterEngine}

theorem last_tdo (log log' : List Cycle) (c : Cycle) :
    ((log' ++ [c]).getLast?.map Cycle.tdo).getD false = ((log ++ [c]).getLast?.map Cycle.tdo).getD false := by simp

theorem Alongside.shift (h : Alongside g g' e e') (hboard : board.Alike g.log g'.log) (b : Byte)
    (hleft : e.shift_left ≠ 0) : Alongside g g' (blasterShift board b e) (blasterShift board b e') := by
  have hcycles := (hboard.goes_on h.cycles).cycles ((bitsOf [b] 8).map fun bit => ⟨e.pins.tms, bit⟩)
  refine ⟨⟨rfl, ?_, fun hhigh => absurd hhigh (by simp [blasterShift])⟩, ⟨?_, fun _ => ?_⟩, ?_, ?_⟩
  · simp only [blasterShift, BlasterEngine.clock, h.levels.pins]
  · simp only [blasterShift, BlasterEngine.clock, h.mode.left]
  · exact h.mode.read hleft
  · simp only [blasterShift, BlasterEngine.clock, h.levels.pins, hcycles]
    exact h.cycles.append _
  · simp only [blasterShift, BlasterEngine.clock, h.levels.pins, hcycles, h.mode.read hleft]
    exact h.answers.append _

/-- The pins are set, and TCK may rise, before the Blaster answers. -/
def edge (board : Board) (b : Byte) (e : BlasterEngine) : BlasterEngine :=
  { (if b.getLsbD 0 && !e.tck then e.clock board [⟨b.getLsbD 1, b.getLsbD 4⟩]
      else { e with pins := ⟨b.getLsbD 1, b.getLsbD 4⟩ }) with tck := b.getLsbD 0 }

theorem blasterPins_edge (b : Byte) (e : BlasterEngine) : blasterPins board b e =
    if b.getLsbD 6 then { edge board b e with
      resp := (edge board b e).resp ++ [tdoByte (board.noise (edge board b e).log) ((edge board b e).tdo board)] }
    else edge board b e := rfl

theorem Alongside.edge (h : Alongside g g' e e') (hboard : board.Alike g.log g'.log) (b : Byte) :
    Alongside g g' (edge board b e) (edge board b e') := by
  have hcycles := (hboard.goes_on h.cycles).cycles [⟨b.getLsbD 1, b.getLsbD 4⟩]
  cases hrises : (b.getLsbD 0 && !e.tck) with
  | true =>
    simp only [Blaster.edge, h.levels.tck, hrises, if_true, BlasterEngine.clock, hcycles]
    refine ⟨⟨rfl, rfl, fun _ => ?_⟩, ⟨h.mode.left, h.mode.read⟩, h.cycles.append _, h.answers⟩
    exact last_tdo _ _ _
  | false =>
    simp only [Blaster.edge, h.levels.tck, hrises, Bool.false_eq_true, if_false]
    refine ⟨⟨rfl, rfl, fun hhigh => h.levels.tdo ?_⟩, ⟨h.mode.left, h.mode.read⟩, h.cycles, h.answers⟩
    simp only at hhigh
    rw [hhigh, Bool.true_and, Bool.not_eq_false'] at hrises
    exact hrises

/-- With TCK high it is TDO as it was at the edge. -/
theorem Alongside.tdo (h : Alongside g g' e e') (hboard : board.Alike g.log g'.log) : e'.tdo board = e.tdo board := by
  rw [BlasterEngine.tdo, BlasterEngine.tdo, h.levels.tck, (hboard.goes_on h.cycles).tdo_eq]
  split
  · exact h.levels.tdo (by assumption)
  · rfl

theorem Alongside.set_pins (h : Alongside g g' e e') (hboard : board.Alike g.log g'.log) (b : Byte) :
    Alongside g g' (blasterPins board b e) (blasterPins board b e') := by
  have hedge := h.edge hboard b
  rw [blasterPins_edge, blasterPins_edge, hedge.tdo hboard, (hboard.goes_on hedge.cycles).noise_eq]
  split
  · exact ⟨⟨hedge.levels.tck, hedge.levels.pins, hedge.levels.tdo⟩, ⟨hedge.mode.left, hedge.mode.read⟩, hedge.cycles,
      hedge.answers.append _⟩
  · exact hedge

/-- One more byte. -/
theorem Alongside.byte (h : Alongside g g' e e') (hboard : board.Alike g.log g'.log) (b : Byte) :
    Alongside g g' (blasterByte board e b) (blasterByte board e' b) := by
  unfold blasterByte
  rw [h.mode.left]
  split
  · exact h.shift hboard b (by assumption)
  · split
    · exact ⟨⟨h.levels.tck, h.levels.pins, h.levels.tdo⟩, ⟨rfl, fun _ => rfl⟩, h.cycles, h.answers⟩
    · exact h.set_pins hboard b

theorem Alongside.feed (h : Alongside g g' e e') (hboard : board.Alike g.log g'.log) (l : List Byte) :
    Alongside g g' (blasterFeed board e l) (blasterFeed board e' l) := by
  induction l generalizing e e' with
  | nil => exact h
  | cons b l ih => exact ih (h.byte hboard b)

/-- What may come first: any byte when the levels are the same, else one that brings TCK low. -/
theorem alongside_from (hboard : board.Alike g.log g'.log) (hmode : SameMode g g')
    (hlevels : SameLevels g g' ∨ g.shift_left = 0) {l : List Byte}
    (hfirst : ∀ b ∈ l.head?, SameLevels g g' ∨ b = 0x2E) :
    Extended g.log g'.log (blasterFeed board g l).log (blasterFeed board g' l).log ∧
    Extended g.resp g'.resp (blasterFeed board g l).resp (blasterFeed board g' l).resp := by
  have hdone : ∀ {e e'}, Alongside g g' e e' → ∀ m,
      Extended g.log g'.log (blasterFeed board e m).log (blasterFeed board e' m).log ∧
      Extended g.resp g'.resp (blasterFeed board e m).resp (blasterFeed board e' m).resp := fun h m =>
    ⟨(h.feed hboard m).cycles, (h.feed hboard m).answers⟩
  have hsame : SameLevels g g' → Alongside g g' g g' := fun hsame => ⟨hsame, hmode, .refl _ _, .refl _ _⟩
  rcases hlevels with hlevels | hidle
  · exact hdone (hsame hlevels) l
  · cases l with
    | nil => exact ⟨.refl _ _, .refl _ _⟩
    | cons b l =>
      rcases hfirst b rfl with hlevels | rfl
      · exact hdone (hsame hlevels) (b :: l)
      · have hlow : ∀ k : BlasterEngine, k.shift_left = 0 →
            blasterByte board k 0x2E = { k with tck := false, pins := ⟨true, false⟩ } := by
          intro k hk
          simp [blasterByte, blasterPins, hk]
        have hbegun : Alongside g g' (blasterByte board g 0x2E) (blasterByte board g' 0x2E) := by
          rw [hlow g hidle, hlow g' (hmode.left.trans hidle)]
          exact ⟨⟨rfl, rfl, fun hhigh => absurd hhigh Bool.false_ne_true⟩, ⟨hmode.left, hmode.read⟩, .refl _ _,
            .refl _ _⟩
        rw [blasterFeed_cons, blasterFeed_cons]
        exact hdone hbegun l

/-! ## Two drivers -/

/-- The Blaster, when it has taken what the driver sent. -/
def engine (board : Board) (e₀ : BlasterEngine) (dev : Blaster) : BlasterEngine :=
  blasterFeed board e₀ dev.port.delivered

/-- The cycles so far. -/
def cyclesOf (board : Board) (e₀ : BlasterEngine) (dev : Blaster) : List Cycle := (engine board e₀ dev).log

/-- The TAP is in the same state, the same answers are held, the Blaster is at the same place, and the board and
libftdi go on alike. The pins are at the same levels, or else the next write goes through and the Blaster is not in
byte-shift mode. -/
structure SamePlace (board : Board) (usb : Usb) (e₀ : BlasterEngine) (c c' : Jtag Blaster) : Prop where
  state : c'.state = c.state
  len : c'.dev.recv_buffer_len = c.dev.recv_buffer_len
  size : c'.dev.recv_buffer.length = c.dev.recv_buffer.length
  held : c'.dev.recv_buffer.take c.dev.recv_buffer_len = c.dev.recv_buffer.take c.dev.recv_buffer_len
  mode : SameMode (engine board e₀ c.dev) (engine board e₀ c'.dev)
  levels : SameLevels (engine board e₀ c.dev) (engine board e₀ c'.dev) ∨
    (engine board e₀ c.dev).shift_left = 0 ∧ usb.write_result c.dev.port.num_writes = .full
  board : board.Alike (cyclesOf board e₀ c.dev) (cyclesOf board e₀ c'.dev)
  unread : usb.waiting c'.dev.port = usb.waiting c.dev.port
  read : c.dev.port.taken ≤ (usb.respond c.dev.port.delivered).length
  read' : c'.dev.port.taken ≤ (usb.respond c'.dev.port.delivered).length
  writes : ∀ k, usb.write_result (c'.dev.port.num_writes + k) = usb.write_result (c.dev.port.num_writes + k)
  reads : ∀ k, usb.read_result (c'.dev.port.num_reads + k) = usb.read_result (c.dev.port.num_reads + k)

section

variable {c c' d d' : Jtag Blaster} (h : SamePlace board usb e₀ c c')
  (hdevice : ∀ l, usb.respond l = (blasterFeed board e₀ l).resp)

include h

theorem SamePlace.from {l : List Byte} (hfirst : ∀ b ∈ l.head?,
    SameLevels (engine board e₀ c.dev) (engine board e₀ c'.dev) ∨ b = 0x2E) :
    Extended (cyclesOf board e₀ c.dev) (cyclesOf board e₀ c'.dev)
      (blasterFeed board e₀ (c.dev.port.delivered ++ l)).log (blasterFeed board e₀ (c'.dev.port.delivered ++ l)).log ∧
    Extended (engine board e₀ c.dev).resp (engine board e₀ c'.dev).resp
      (blasterFeed board e₀ (c.dev.port.delivered ++ l)).resp
      (blasterFeed board e₀ (c'.dev.port.delivered ++ l)).resp := by
  rw [blasterFeed_append, blasterFeed_append]
  exact alongside_from h.board h.mode (h.levels.imp_right fun hnext => hnext.1) hfirst

include hdevice

theorem SamePlace.answers {l : List Byte} (hfirst : ∀ b ∈ l.head?,
    SameLevels (engine board e₀ c.dev) (engine board e₀ c'.dev) ∨ b = 0x2E) :
    (usb.respond (c'.dev.port.delivered ++ l)).drop c'.dev.port.taken =
      (usb.respond (c.dev.port.delivered ++ l)).drop c.dev.port.taken := by
  obtain ⟨rs, hrs, hrs'⟩ := (h.from hfirst).2
  have hcome : usb.respond (c.dev.port.delivered ++ l) = usb.respond c.dev.port.delivered ++ rs := by
    rw [hdevice, hdevice, hrs, engine]
  have hcome' : usb.respond (c'.dev.port.delivered ++ l) = usb.respond c'.dev.port.delivered ++ rs := by
    rw [hdevice, hdevice, hrs', engine]
  exact unread_append h.read h.read' h.unread hcome hcome'

/-- The two ports, from there on. -/
def SamePlace.wire : Wire where
  usb := usb
  start := c.dev.port
  start' := c'.dev.port
  first b := SameLevels (engine board e₀ c.dev) (engine board e₀ c'.dev) ∨ b = 0x2E
  answers _ hfirst := h.answers hdevice hfirst
  writes := h.writes
  reads := h.reads

theorem SamePlace.starting : Starting (h.wire hdevice) c c' := by
  refine ⟨⟨h.state, h.len, h.size, h.held, .start (h.wire hdevice)⟩, ?_⟩
  rcases h.levels with hsame | ⟨-, hfull⟩
  · exact .inl (.inl fun _ => .inl hsame)
  · exact .inr hfull

/-- What went out was the same, and so were the cycles. -/
theorem SamePlace.cycles (hseen : Watched (h.wire hdevice) d d') :
    Extended (cyclesOf board e₀ c.dev) (cyclesOf board e₀ c'.dev) (cyclesOf board e₀ d.dev)
      (cyclesOf board e₀ d'.dev) := by
  obtain ⟨l, hl, hl', hfirst⟩ := hseen
  have hd : cyclesOf board e₀ d.dev = (blasterFeed board e₀ (c.dev.port.delivered ++ l)).log := by
    rw [cyclesOf, engine, hl]
    rfl
  have hd' : cyclesOf board e₀ d'.dev = (blasterFeed board e₀ (c'.dev.port.delivered ++ l)).log := by
    rw [cyclesOf, engine, hl']
    rfl
  rw [hd, hd']
  exact (h.from hfirst).1

end

end JtagRemote.Blaster
